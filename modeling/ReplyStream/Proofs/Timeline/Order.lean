/-
The timeline of a log does not depend on the order of the log, nor on how
often it holds an event: logs with the same versions have the same timeline
(`gives_of_same`). For that the versions must be told apart by their times and the
card fragments among them by their ids (`Distinct`): of two versions of one
time the one that comes first in the log would win.

No two entries of such a timeline have the same time (`pairwise_of_gives`),
so nothing is left to the order in which chains were stitched either.
-/
import ReplyStream.Proofs.Timeline.Groups

namespace ReplyStream

namespace Timeline

variable {σ α β : Type}

/-- Versions of events told apart by their times, and the card fragments
among them by their ids. -/
structure Distinct (versions : List Event) : Prop where
  time : ∀ v ∈ versions, ∀ w ∈ versions, v.timestamp = w.timestamp → v = w
  fragment : ∀ v ∈ versions, ∀ w ∈ versions, v.isFragment = true → w.isFragment = true → v.id = w.id → v = w

theorem Distinct.of_same {versions₁ versions₂ : List Event} (h : Distinct versions₁)
    (hsame : ∀ v, v ∈ versions₁ ↔ v ∈ versions₂) : Distinct versions₂ where
  time v hv w hw := h.time v ((hsame v).2 hv) w ((hsame w).2 hw)
  fragment v hv w hw := h.fragment v ((hsame v).2 hv) w ((hsame w).2 hw)

/-! ## Versions -/

theorem exists_mapM_ok {ε : Type} {f : α → Except ε β} {l : List α} (h : ∀ a ∈ l, ∃ b, f a = .ok b) :
    ∃ bs, l.mapM f = .ok bs := by
  induction l with
  | nil => exact ⟨[], rfl⟩
  | cons a l ih =>
    obtain ⟨b, hb⟩ := h a List.mem_cons_self
    obtain ⟨bs, hbs⟩ := ih fun a' ha' => h a' (List.mem_cons_of_mem a ha')
    exact ⟨b :: bs, Shuffle.mapM_cons_ok.2 ⟨b, bs, hb, hbs, rfl⟩⟩

theorem exists_of_mapM_ok {ε : Type} {f : α → Except ε β} {l : List α} {bs : List β} (h : l.mapM f = .ok bs) {a : α}
    (ha : a ∈ l) : ∃ b ∈ bs, f a = .ok b := by
  induction l generalizing bs with
  | nil => cases ha
  | cons a' l ih =>
    obtain ⟨b, bs', hb, hbs, rfl⟩ := Shuffle.mapM_cons_ok.1 h
    rcases List.mem_cons.1 ha with rfl | ha
    · exact ⟨b, List.mem_cons_self, hb⟩
    · obtain ⟨b', hb', hfa⟩ := ih hbs ha
      exact ⟨b', List.mem_cons_of_mem b hb', hfa⟩

theorem forall₂_of_mapM_ok {ε : Type} {f : α → Except ε β} {l : List α} {bs : List β} (h : l.mapM f = .ok bs) :
    List.Forall₂ (fun a b => f a = .ok b) l bs := by
  induction l generalizing bs with
  | nil =>
    cases h
    exact .nil
  | cons a l ih =>
    obtain ⟨b, bs', hb, hbs, rfl⟩ := Shuffle.mapM_cons_ok.1 h
    exact .cons hb (ih hbs)

section Versions

variable {log₁ log₂ : List Event} {versions₁ versions₂ : List Event}

/-- Whether a log can be read does not depend on its order. -/
theorem candidates_of_same (hsame : ∀ v, v ∈ log₁.flatMap Event.versions ↔ v ∈ log₂.flatMap Event.versions)
    (h : candidates log₁ = .ok versions₁) :
    ∃ versions₂, candidates log₂ = .ok versions₂ ∧ ∀ v, v ∈ versions₁ ↔ v ∈ versions₂ := by
  obtain ⟨versions₂, h₂⟩ : ∃ versions₂, candidates log₂ = .ok versions₂ := exists_mapM_ok fun v hv => by
    obtain ⟨w, -, hw⟩ := exists_of_mapM_ok h ((hsame v).2 hv)
    exact ⟨w, hw⟩
  refine ⟨versions₂, h₂, fun v => ⟨fun hv => ?_, fun hv => ?_⟩⟩
  · obtain ⟨u, hu, hdecode⟩ := Shuffle.mem_of_mapM_ok h hv
    obtain ⟨w, hw, hdecode'⟩ := exists_of_mapM_ok h₂ ((hsame u).1 hu)
    rw [hdecode] at hdecode'
    cases hdecode'
    exact hw
  · obtain ⟨u, hu, hdecode⟩ := Shuffle.mem_of_mapM_ok h₂ hv
    obtain ⟨w, hw, hdecode'⟩ := exists_of_mapM_ok h ((hsame u).2 hu)
    rw [hdecode] at hdecode'
    cases hdecode'
    exact hw

theorem Distinct.of_candidates (hdistinct : Distinct (log₁.flatMap Event.versions))
    (h : candidates log₁ = .ok versions₁) : Distinct versions₁ := by
  have hread : ∀ v ∈ versions₁, ∃ u ∈ log₁.flatMap Event.versions, u.decode = .ok v ∧
      u.timestamp = v.timestamp ∧ u.id = v.id ∧ u.isFragment = v.isFragment := by
    intro v hv
    obtain ⟨u, hu, hdecode⟩ := Shuffle.mem_of_mapM_ok h hv
    obtain ⟨data, hsame⟩ := same_of_decode hdecode
    exact ⟨u, hu, hdecode, by rw [hsame], by rw [hsame], by rw [hsame]; rfl⟩
  constructor
  · intro v hv w hw htime
    obtain ⟨v', hv', hdecode, htime', -, -⟩ := hread v hv
    obtain ⟨w', hw', hdecode', htime'', -, -⟩ := hread w hw
    obtain rfl := hdistinct.time v' hv' w' hw' (htime'.trans (htime.trans htime''.symm))
    rw [hdecode] at hdecode'
    exact Except.ok.inj hdecode'
  · intro v hv w hw hfragment hfragment' hid
    obtain ⟨v', hv', hdecode, -, hid', hpiece⟩ := hread v hv
    obtain ⟨w', hw', hdecode', -, hid'', hpiece'⟩ := hread w hw
    obtain rfl := hdistinct.fragment v' hv' w' hw' (hpiece.trans hfragment) (hpiece'.trans hfragment')
      (hid'.trans (hid.trans hid''.symm))
    rw [hdecode] at hdecode'
    exact Except.ok.inj hdecode'

/-! ## Newest versions -/

/-- Events told apart by their times have the same newest versions in any order. -/
theorem get?_newest_of_same {events₁ events₂ : List Event}
    (htime : ∀ e ∈ events₁, ∀ f ∈ events₁, e.timestamp = f.timestamp → e = f)
    (hsame : ∀ e, e ∈ events₁ ↔ e ∈ events₂) (id : String) :
    Table.get? (events₁.foldl keepNewest []) id = Table.get? (events₂.foldl keepNewest []) id := by
  have hpresent : ∀ events : List Event,
      (Table.get? (events.foldl keepNewest []) id).isSome ↔ ∃ e ∈ events, e.id = id := by
    intro events
    rw [Table.get?_isSome, mem_keys_foldl_keepNewest]
    simp [Table.keys]
  have hboth : (Table.get? (events₁.foldl keepNewest []) id).isSome ↔
      (Table.get? (events₂.foldl keepNewest []) id).isSome := by
    rw [hpresent, hpresent]
    simp only [hsame]
  cases h₁ : Table.get? (events₁.foldl keepNewest []) id with
  | none =>
    rw [h₁] at hboth
    rw [eq_comm, ← Option.not_isSome_iff_eq_none]
    exact fun h => Bool.false_ne_true (hboth.2 h)
  | some e =>
    rw [h₁] at hboth
    obtain ⟨f, h₂⟩ := Option.isSome_iff_exists.1 (hboth.1 rfl)
    obtain ⟨he, heid, hmax⟩ := get?_newest h₁
    obtain ⟨hf, hfid, hmax'⟩ := get?_newest h₂
    have hf₁ := (hsame f).2 hf
    have htimes : e.timestamp = f.timestamp := Nat.le_antisymm (hmax' e ((hsame e).1 he) heid) (hmax f hf₁ hfid)
    rw [h₂, htime e he f hf₁ htimes]

theorem time_inPlaces (h : Distinct versions₁) :
    ∀ e ∈ inPlaces versions₁, ∀ f ∈ inPlaces versions₁, e.timestamp = f.timestamp → e = f := by
  intro e he f hf htime
  obtain ⟨v, hv, rfl⟩ := List.mem_map.1 he
  obtain ⟨w, hw, rfl⟩ := List.mem_map.1 hf
  rw [h.time v (List.mem_filter.1 hv).1 w (List.mem_filter.1 hw).1 htime]

/-- In order of time the newest versions are the same. -/
theorem byTime_survivors_of_same (hdistinct : Distinct versions₁) (hsame : ∀ v, v ∈ versions₁ ↔ v ∈ versions₂) :
    byTime (survivors versions₁) = byTime (survivors versions₂) := by
  have hplaces : ∀ e, e ∈ inPlaces versions₁ ↔ e ∈ inPlaces versions₂ := by
    intro e
    simp only [inPlaces, List.mem_map, List.mem_filter, hsame]
  have hperm : (survivors versions₁).Perm (survivors versions₂) :=
    Table.values_perm_of_get? (newest_inPlaces versions₁).nodup (newest_inPlaces versions₂).nodup
      (get?_newest_of_same (time_inPlaces hdistinct) hplaces)
  have hsorted : (byTime (survivors versions₁)).Perm (byTime (survivors versions₂)) :=
    (List.mergeSort_perm _ _).trans (hperm.trans (List.mergeSort_perm _ _).symm)
  refine hsorted.eq_of_pairwise (fun e f he hf hle hle' => ?_) (pairwise_byTime _) (pairwise_byTime _)
  have he' := mem_inPlaces_of_mem_survivors (mem_byTime.1 he)
  have hf' := (hplaces f).2 (mem_inPlaces_of_mem_survivors (mem_byTime.1 hf))
  exact time_inPlaces hdistinct e he' f hf' (Nat.le_antisymm hle hle')

end Versions

end Timeline

/-! ## Card fragments -/

namespace Fragments

/-- Enters the piece of a fragment event. -/
def enter (fragments : Fragments) (e : Event) : Except Fault Fragments :=
  (piece? e).map fun piece => fragments.put e.id piece

theorem enter_ok {fragments fragments' : Fragments} {e : Event} :
    enter fragments e = .ok fragments' ↔ ∃ piece, piece? e = .ok piece ∧ fragments' = fragments.put e.id piece := by
  unfold enter
  cases piece? e with
  | error fault => simp [Except.map]
  | ok piece => simp [Except.map, eq_comm]

theorem foldlM_enter_cons {e : Event} {events : List Event} {t fragments : Fragments} :
    (e :: events).foldlM enter t = .ok fragments ↔
      ∃ piece, piece? e = .ok piece ∧ events.foldlM enter (t.put e.id piece) = .ok fragments := by
  rw [List.foldlM_cons]
  cases he : enter t e with
  | error fault =>
    constructor
    · intro h
      cases h
    · rintro ⟨piece, hpiece, -⟩
      rw [enter_ok.2 ⟨piece, hpiece, rfl⟩] at he
      cases he
  | ok t' =>
    obtain ⟨piece, hpiece, rfl⟩ := enter_ok.1 he
    constructor
    · exact fun h => ⟨piece, hpiece, h⟩
    · rintro ⟨piece', hpiece', h⟩
      rw [hpiece] at hpiece'
      cases hpiece'
      exact h

/-- Fragments can be read if each of them can, in any order. -/
theorem foldlM_enter_ok_iff {events : List Event} {t : Fragments} :
    (∃ fragments, events.foldlM enter t = .ok fragments) ↔ ∀ e ∈ events, ∃ piece, piece? e = .ok piece := by
  induction events generalizing t with
  | nil => simp [pure, Except.pure]
  | cons e events ih =>
    simp only [foldlM_enter_cons, List.forall_mem_cons]
    constructor
    · rintro ⟨fragments, piece, hpiece, h⟩
      exact ⟨⟨piece, hpiece⟩, ih.1 ⟨fragments, h⟩⟩
    · rintro ⟨⟨piece, hpiece⟩, h⟩
      obtain ⟨fragments, hfragments⟩ := (ih (t := t.put e.id piece)).2 h
      exact ⟨fragments, piece, hpiece, hfragments⟩

/-- The fragments entered are pieces of the events, and each event has one. -/
structure Entered (events : List Event) (fragments : Fragments) : Prop where
  piece : ∀ id piece, fragments.get? id = some piece → ∃ e ∈ events, e.id = id ∧ piece? e = .ok piece
  all : ∀ e ∈ events, (fragments.get? e.id).isSome

theorem Entered.put {before : List Event} {t : Fragments} (h : Entered before t) {e : Event} {piece : CardFragment}
    (hpiece : piece? e = .ok piece) : Entered (before ++ [e]) (t.put e.id piece) where
  piece id piece' hget := by
    by_cases hid : id = e.id
    · subst hid
      rw [Table.get?_put_self] at hget
      cases hget
      exact ⟨e, by simp, rfl, hpiece⟩
    · rw [Table.get?_put_other t piece hid] at hget
      obtain ⟨f, hf, hfid, hfpiece⟩ := h.piece id piece' hget
      exact ⟨f, List.mem_append_left _ hf, hfid, hfpiece⟩
  all f hf := by
    by_cases hid : f.id = e.id
    · rw [hid, Table.get?_put_self]
      rfl
    · rw [Table.get?_put_other t piece hid]
      rcases List.mem_append.1 hf with hf | hf
      · exact h.all f hf
      · exact absurd (List.mem_singleton.1 hf ▸ rfl) hid

theorem entered_of_foldlM {events before : List Event} {t fragments : Fragments} (ht : Entered before t)
    (h : events.foldlM enter t = .ok fragments) : Entered (before ++ events) fragments := by
  induction events generalizing before t with
  | nil =>
    cases h
    rw [List.append_nil]
    exact ht
  | cons e events ih =>
    obtain ⟨piece, hpiece, h⟩ := foldlM_enter_cons.1 h
    rw [List.append_cons]
    exact ih (ht.put hpiece) h

theorem entered_ofEvents {events : List Event} {fragments : Fragments} (h : ofEvents events = .ok fragments) :
    Entered (events.filter (·.isFragment)) fragments := by
  have hempty : Entered [] ([] : Fragments) := ⟨fun id piece h => (by cases h), fun e he => (by cases he)⟩
  exact entered_of_foldlM hempty h

/-- Fragments told apart by their ids are the same in any order. -/
theorem ofEvents_of_same {events₁ events₂ : List Event} {fragments₁ : Fragments} (hdistinct : Timeline.Distinct events₁)
    (hsame : ∀ e, e ∈ events₁ ↔ e ∈ events₂) (h : ofEvents events₁ = .ok fragments₁) :
    ∃ fragments₂, ofEvents events₂ = .ok fragments₂ ∧ ∀ id, fragments₁.get? id = fragments₂.get? id := by
  have hfragments : ∀ e, e ∈ events₁.filter (·.isFragment) ↔ e ∈ events₂.filter (·.isFragment) := by
    intro e
    rw [List.mem_filter, List.mem_filter, hsame]
  have hread := foldlM_enter_ok_iff.1 ⟨fragments₁, h⟩
  obtain ⟨fragments₂, h₂⟩ : ∃ fragments₂, ofEvents events₂ = .ok fragments₂ :=
    foldlM_enter_ok_iff.2 fun e he => hread e ((hfragments e).2 he)
  have hentered₁ := entered_ofEvents h
  have hentered₂ := entered_ofEvents h₂
  refine ⟨fragments₂, h₂, fun id => ?_⟩
  cases hget₁ : fragments₁.get? id with
  | some piece =>
    obtain ⟨e, he, rfl, hpiece⟩ := hentered₁.piece id piece hget₁
    obtain ⟨piece', hget₂⟩ := Option.isSome_iff_exists.1 (hentered₂.all e ((hfragments e).1 he))
    obtain ⟨f, hf, hid, hpiece'⟩ := hentered₂.piece e.id piece' hget₂
    obtain ⟨hmem, hkind⟩ := List.mem_filter.1 he
    obtain ⟨hmem', hkind'⟩ := List.mem_filter.1 ((hfragments f).2 hf)
    obtain rfl := hdistinct.fragment f hmem' e hmem hkind' hkind hid
    rw [hpiece] at hpiece'
    cases hpiece'
    exact hget₂.symm
  | none =>
    cases hget₂ : fragments₂.get? id with
    | none => rfl
    | some piece =>
      obtain ⟨e, he, rfl, -⟩ := hentered₂.piece id piece hget₂
      have hsome := hentered₁.all e ((hfragments e).2 he)
      rw [hget₁] at hsome
      cases hsome

theorem reassemble_congr {fragments₁ fragments₂ : Fragments} (h : ∀ id, fragments₁.get? id = fragments₂.get? id) :
    fragments₁.reassemble = fragments₂.reassemble := by
  have hcollect : ∀ count seen id, fragments₁.collect seen count id = fragments₂.collect seen count id := by
    intro count
    induction count with
    | zero => exact fun seen id => rfl
    | succ count ih =>
      intro seen id
      simp only [collect, h, ih]
  funext root
  simp only [reassemble, h, hcollect]

end Fragments

namespace Timeline

variable {σ : Type}

theorem embed_congr {fragments₁ fragments₂ : Fragments} (h : ∀ id, fragments₁.get? id = fragments₂.get? id)
    (load : Loader σ) : embed load fragments₁ = embed load fragments₂ := by
  have hcards : ∀ eventId, embedCards (σ := σ) fragments₁ eventId = embedCards fragments₂ eventId := by
    intro eventId
    rw [embedCards, embedCards, Fragments.reassemble_congr h]
  funext e
  simp only [embed, hcards]

/-! ## The timeline -/

/-- **Logs of the same versions have the same timeline.** -/
theorem gives_of_same {load : Loader σ} {log₁ log₂ : List Event} {s s' : σ} {timeline : List Event}
    (hdistinct : Distinct (log₁.flatMap Event.versions))
    (hsame : ∀ v, v ∈ log₁.flatMap Event.versions ↔ v ∈ log₂.flatMap Event.versions)
    (h : (reconstruct load log₁).Gives s timeline s') : (reconstruct load log₂).Gives s timeline s' := by
  obtain ⟨versions₁, fragments₁, entries, hversions, hfragments, hentries, rfl⟩ := gives_of_reconstruct.1 h
  have hdistinct' := hdistinct.of_candidates hversions
  obtain ⟨versions₂, hversions₂, hsame'⟩ := candidates_of_same hsame hversions
  obtain ⟨fragments₂, hfragments₂, hget⟩ := Fragments.ofEvents_of_same hdistinct' hsame' hfragments
  rw [byTime_survivors_of_same hdistinct' hsame', embed_congr hget] at hentries
  exact gives_of_reconstruct.2 ⟨versions₂, fragments₂, entries, hversions₂, hfragments₂, hentries, rfl⟩

theorem Messages.strict {versions messages : List Event} (h : Messages versions messages)
    (hdistinct : Distinct versions) : messages.Pairwise (·.timestamp < ·.timestamp) := by
  obtain ⟨newest, hperm, hfilled⟩ := h.newest
  have hsurvivors : ((survivors versions).map (·.timestamp)).Nodup := by
    have hids : (survivors versions).Pairwise (·.id ≠ ·.id) := List.pairwise_map.1 (ids_survivors versions).1
    refine List.pairwise_map.2 (hids.imp_of_mem fun {e f} he hf hne htime => hne ?_)
    rw [time_inPlaces hdistinct e (mem_inPlaces_of_mem_survivors he) f (mem_inPlaces_of_mem_survivors hf) htime]
  have htimes : messages.map (·.timestamp) = newest.map (·.timestamp) :=
    map_eq_of_filled (fun ⟨_, h⟩ => by rw [h]) hfilled
  have hnodup : (messages.map (·.timestamp)).Nodup := by
    rw [htimes]
    exact (hperm.map _).nodup_iff.2 hsurvivors
  exact h.inOrder.imp₂ (fun _ _ hle hne => Nat.lt_of_le_of_ne hle hne) (List.pairwise_map.1 hnodup)

theorem Group.timestamp_entry (g : Group) : ∃ m ∈ g.members, g.entry.timestamp = m.timestamp := by
  obtain ⟨head, absorbed⟩ := g
  induction absorbed generalizing head with
  | nil => exact ⟨head, List.mem_cons_self, rfl⟩
  | cons next rest ih =>
    obtain ⟨m, hm, htime⟩ := ih (head.absorb next)
    rcases List.mem_cons.1 hm with rfl | hm
    · exact ⟨next, List.mem_cons_of_mem _ List.mem_cons_self, htime⟩
    · exact ⟨m, List.mem_cons_of_mem _ (List.mem_cons_of_mem _ hm), htime⟩

theorem Represented.nodup_timestamps {messages timeline : List Event} {groups : List Group}
    (h : Represented messages timeline groups) (htimes : messages.Pairwise (·.timestamp < ·.timestamp)) :
    (timeline.map (·.timestamp)).Nodup := by
  have hmembers : (groups.flatMap fun g => g.members.map (·.timestamp)).Nodup := by
    rw [← List.map_flatMap, (h.members.map _).nodup_iff]
    have hstanding : (standing messages).Pairwise (·.timestamp < ·.timestamp) :=
      htimes.sublist (standing_sublist messages)
    exact List.pairwise_map.2 (hstanding.imp fun hlt => Nat.ne_of_lt hlt)
  rw [(h.entries.map _).nodup_iff, List.map_map]
  refine List.pairwise_map.2 ((List.nodup_flatMap.1 hmembers).2.imp fun {g g'} hdisjoint heq => ?_)
  obtain ⟨m, hm, htime⟩ := g.timestamp_entry
  obtain ⟨m', hm', htime'⟩ := g'.timestamp_entry
  refine hdisjoint (List.mem_map_of_mem hm) ?_
  rw [← htime, show g.entry.timestamp = g'.entry.timestamp from heq, htime']
  exact List.mem_map_of_mem hm'

/-- **The entries of a timeline get newer and newer.** -/
theorem pairwise_of_gives {load : Loader σ} {log : List Event} {s s' : σ} {timeline : List Event}
    (hdistinct : Distinct (log.flatMap Event.versions)) (h : (reconstruct load log).Gives s timeline s') :
    timeline.Pairwise (·.timestamp < ·.timestamp) := by
  obtain ⟨versions, fragments, messages, hversions, -, hmessages, rfl⟩ := gives_of_reconstruct.1 h
  have hall := messages_of_mapM hmessages
  obtain ⟨groups, hgroups⟩ := represented_stitch hall.distinct
  have hnodup := hgroups.nodup_timestamps (hall.strict (hdistinct.of_candidates hversions))
  exact (pairwise_byTime _).imp₂ (fun _ _ hle hne => Nat.lt_of_le_of_ne hle hne) (List.pairwise_map.1 hnodup)

end Timeline

end ReplyStream
