/-
What stitching makes of events. They are in groups, a head and the
continuations folded into it, and each event that stands is in exactly one of
them (`stitch_groups`). Of several events that continue the same one only the
last stands (`standing`): the others are in no group, neither as entries of
their own nor with their texts. A group goes on as long as it can: none that
continues one of its flagged events is left alone.
-/
import Mathlib.Data.List.Chain
import Mathlib.Data.List.Induction
import Mathlib.Data.List.Nodup
import Mathlib.Data.List.Pairwise
import ReplyStream.Proofs.Table
import ReplyStream.Timeline.Stitch

namespace ReplyStream

namespace Event

/-- The event is flagged as continued, and the other one continues it. -/
def LeadsTo (e next : Event) : Prop :=
  e.content.hasContinuation = some true ∧ next.content.continuationOf = some e.id

/-- A later message continues the same one. -/
def overtakenBy (later : List Event) (e : Event) : Bool :=
  e.content.continuationOf.isSome && later.any (·.content.continuationOf == e.content.continuationOf)

end Event

namespace Timeline

/-! ## Groups -/

/-- A message and those folded into it, one after another. -/
structure Group where
  head : Event
  absorbed : List Event

namespace Group

def members (g : Group) : List Event := g.head :: g.absorbed

/-- The entry of a timeline that a group becomes. -/
def entry (g : Group) : Event := g.absorbed.foldl Event.absorb g.head

/-- Each message of a group continues the one before. One that is continued
but continues another itself is alone. -/
structure Sound (g : Group) : Prop where
  linked : g.members.IsChain Event.LeadsTo
  first : g.absorbed = [] ∨ g.head.content.continuationOf = none

theorem id_entry (g : Group) : g.entry.id = g.head.id := by
  obtain ⟨head, absorbed⟩ := g
  induction absorbed generalizing head with
  | nil => rfl
  | cons next rest ih => exact (ih (head.absorb next)).trans rfl

/-- An entry shows the texts of all messages of its group, in order. -/
theorem body_entry (g : Group) : g.entry.content.body = String.join (g.members.map (·.content.body)) := by
  obtain ⟨head, absorbed⟩ := g
  induction absorbed generalizing head with
  | nil => rw [← String.toList_inj]; simp [entry, members]
  | cons next rest ih =>
    refine (ih (head.absorb next)).trans ?_
    rw [← String.toList_inj]
    simp [members, Event.absorb]

/-- What a group absorbed continues the message before it. -/
theorem Sound.exists_before {g : Group} (h : g.Sound) {m : Event} (hm : m ∈ g.absorbed) :
    ∃ before e after, g.members = before ++ e :: m :: after ∧ e.LeadsTo m := by
  obtain ⟨between, after, habsorbed⟩ := List.append_of_mem hm
  obtain ⟨before, e, hbefore⟩ : ∃ before e, g.head :: between = before ++ [e] :=
    ⟨_, _, (List.dropLast_concat_getLast (List.cons_ne_nil g.head between)).symm⟩
  have hmembers : g.members = before ++ e :: m :: after := by
    rw [members, habsorbed, ← List.cons_append, hbefore, List.append_assoc, List.singleton_append]
  have hlinked := h.linked
  rw [hmembers, List.isChain_append_cons_cons] at hlinked
  exact ⟨before, e, after, hmembers, hlinked.2.1⟩

theorem Sound.head_eq {g : Group} (h : g.Sound) {m : Event} (hm : m ∈ g.members)
    (hfirst : m.content.continuationOf = none) : g.head = m := by
  rcases List.mem_cons.1 hm with rfl | hm
  · rfl
  · obtain ⟨before, e, after, -, hleads⟩ := h.exists_before hm
    have hprevious := hleads.2
    rw [hfirst] at hprevious
    cases hprevious

end Group

/-! ## Messages that stand -/

/-- Of messages in order of time those that stand: of several that continue
the same one only the last. -/
def standing : List Event → List Event
  | [] => []
  | e :: later => if e.overtakenBy later then standing later else e :: standing later

theorem standing_sublist (events : List Event) : (standing events).Sublist events := by
  induction events with
  | nil => exact .slnil
  | cons e later ih =>
    unfold standing
    split
    · exact ih.cons e
    · exact ih.cons_cons e

theorem standing_concat (events : List Event) (e : Event) :
    standing (events ++ [e]) = (standing events).filter (!·.overtakenBy [e]) ++ [e] := by
  induction events with
  | nil => simp [standing, Event.overtakenBy]
  | cons f events ih =>
    have hsplit : f.overtakenBy (events ++ [e]) = (f.overtakenBy events || f.overtakenBy [e]) := by
      rw [Event.overtakenBy, List.any_append, Bool.and_or_distrib_left]
      rfl
    rw [List.cons_append, standing, standing, hsplit, ih]
    cases hearly : f.overtakenBy events with
    | true => simp
    | false => cases hlast : f.overtakenBy [e] <;> simp [hlast]

theorem filter_standing (events : List Event) :
    (standing events).filter (·.content.continuationOf.isNone) =
      events.filter (·.content.continuationOf.isNone) := by
  induction events with
  | nil => rfl
  | cons e later ih =>
    unfold standing
    split
    next hovertaken =>
      have hsome : ¬e.content.continuationOf.isNone = true := by
        rw [Event.overtakenBy, Bool.and_eq_true] at hovertaken
        simpa [Option.isNone_iff_eq_none] using Option.isSome_iff_ne_none.1 hovertaken.1
      rw [ih]
      exact (List.filter_cons_of_neg (p := fun f : Event => f.content.continuationOf.isNone) hsome).symm
    next => rw [List.filter_cons, List.filter_cons, ih]

theorem standing_eq_self_iff {events : List Event} :
    standing events = events ↔ (events.filterMap (·.content.continuationOf)).Nodup := by
  induction events with
  | nil => simp [standing]
  | cons e later ih =>
    have hlength : (standing later).length ≤ later.length := (standing_sublist later).length_le
    unfold standing
    cases he : e.content.continuationOf with
    | none =>
      rw [if_neg (by simp [Event.overtakenBy, he]),
        List.filterMap_cons_none (f := fun f : Event => f.content.continuationOf) he, List.cons.injEq, ih]
      exact and_iff_right rfl
    | some previous =>
      have hovertaken : e.overtakenBy later = true ↔ previous ∈ later.filterMap (·.content.continuationOf) := by
        simp [Event.overtakenBy, he, List.mem_filterMap]
      rw [List.filterMap_cons_some (f := fun f : Event => f.content.continuationOf) he, List.nodup_cons,
        ← hovertaken, ← ih]
      split
      next h =>
        rw [h]
        refine ⟨fun heq => ?_, fun hand => absurd rfl hand.1⟩
        rw [heq, List.length_cons] at hlength
        omega
      next h => simp [h]

theorem mem_standing {events : List Event} {m : Event} (hm : m ∈ events)
    (honly : ∀ f ∈ events, f.content.continuationOf = m.content.continuationOf →
      f.content.continuationOf.isSome → f = m) : m ∈ standing events := by
  induction events with
  | nil => cases hm
  | cons e later ih =>
    have hlater : m ∈ later → m ∈ standing later := fun h => ih h fun f hf => honly f (List.mem_cons_of_mem e hf)
    unfold standing
    split
    next hovertaken =>
      rcases List.mem_cons.1 hm with rfl | hm
      · rw [Event.overtakenBy, Bool.and_eq_true] at hovertaken
        obtain ⟨hsome, hany⟩ := hovertaken
        obtain ⟨f, hf, hsame⟩ := List.any_eq_true.1 hany
        have hprevious : f.content.continuationOf = m.content.continuationOf := by simpa using hsame
        obtain rfl := honly f (List.mem_cons_of_mem _ hf) hprevious (by rw [hprevious]; exact hsome)
        exact hlater hf
      · exact hlater hm
    next =>
      rcases List.mem_cons.1 hm with rfl | hm
      · exact List.mem_cons_self
      · exact List.mem_cons_of_mem e (hlater hm)

/-! ## Filing and following -/

/-- Continuations by the ids of the events they continue. -/
structure Filed (t : Table Event) : Prop where
  nodup : t.keys.Nodup
  byPrevious : ∀ entry ∈ t, entry.2.content.continuationOf = some entry.1

theorem Filed.erase {t : Table Event} (h : Filed t) (key : String) : Filed (t.erase key) where
  nodup := h.nodup.sublist (List.filter_sublist.map _)
  byPrevious entry hentry := h.byPrevious entry (List.mem_filter.1 hentry).1

theorem continuations_concat (events : List Event) (e : Event) :
    continuations (events ++ [e]) =
      match e.content.continuationOf with
      | some previous => (continuations events).put previous e
      | none => continuations events :=
  List.foldl_append

theorem mem_continuations {events : List Event} {entry : String × Event} (h : entry ∈ continuations events) :
    entry.2 ∈ events ∧ entry.2.content.continuationOf = some entry.1 := by
  induction events using List.reverseRecOn with
  | nil => cases h
  | append_singleton events e ih =>
    have hbefore : entry ∈ continuations events → entry.2 ∈ events ++ [e] ∧
        entry.2.content.continuationOf = some entry.1 := fun h => ⟨List.mem_append_left _ (ih h).1, (ih h).2⟩
    rw [continuations_concat] at h
    split at h
    next previous he =>
      rcases Table.mem_put h with rfl | h
      · exact ⟨by simp, he⟩
      · exact hbefore h
    next => exact hbefore h

theorem filed_continuations (events : List Event) : Filed (continuations events) where
  nodup := by
    induction events using List.reverseRecOn with
    | nil => exact List.nodup_nil
    | append_singleton events e ih =>
      rw [continuations_concat]
      split
      · exact Table.nodup_keys_put ih _ e
      · exact ih
  byPrevious _ hentry := (mem_continuations hentry).2

/-- The continuations filed are those that stand. -/
theorem continuations_perm (events : List Event) :
    ((continuations events).map (·.2)).Perm ((standing events).filter (·.content.continuationOf.isSome)) := by
  induction events using List.reverseRecOn with
  | nil => exact .nil
  | append_singleton events e ih =>
    rw [continuations_concat, standing_concat, List.filter_append]
    cases he : e.content.continuationOf with
    | none =>
      have hsame : ∀ f : Event,
          (f.content.continuationOf.isSome && !f.overtakenBy [e]) = f.content.continuationOf.isSome := by
        intro f
        cases hf : f.content.continuationOf <;> simp [Event.overtakenBy, he, hf]
      simp only [List.filter_filter, hsame]
      rw [List.filter_cons_of_neg (by rw [he]; exact Bool.false_ne_true), List.filter_nil, List.append_nil]
      exact ih
    | some previous =>
      have hothers : ((continuations events).erase previous).map (·.2) =
          ((continuations events).map (·.2)).filter (!·.overtakenBy [e]) := by
        rw [Table.erase, List.filter_map]
        congr 1
        apply List.filter_congr
        intro entry hentry
        rw [Bool.eq_iff_iff]
        simp [Event.overtakenBy, he, (filed_continuations events).byPrevious entry hentry, @eq_comm _ previous]
      have hswap : ((standing events).filter (·.content.continuationOf.isSome)).filter (!·.overtakenBy [e]) =
          ((standing events).filter (!·.overtakenBy [e])).filter (·.content.continuationOf.isSome) := by
        rw [List.filter_filter, List.filter_filter]
        exact List.filter_congr fun f _ => Bool.and_comm _ _
      have hput := (Table.put_perm (filed_continuations events).nodup previous e).map (·.2)
      rw [List.map_cons, hothers] at hput
      rw [List.filter_cons_of_pos (by rw [he]; rfl), List.filter_nil]
      refine hput.trans (((ih.filter _).cons e).trans ?_)
      rw [hswap]
      exact (List.perm_append_singleton e _).symm

theorem follow_sublist (limit : Nat) (t : Table Event) (tail : String) (head : Event) :
    (follow limit t tail head).2.Sublist t := by
  induction limit generalizing t tail head with
  | zero => exact .refl t
  | succ limit ih =>
    unfold follow
    split
    · split
      · exact .refl t
      · exact (ih _ _ _).trans List.filter_sublist
    · exact .refl t

theorem complete_sublist (heads : List Event) (t : Table Event) : (complete t heads).2.Sublist t := by
  induction heads generalizing t with
  | nil => exact .refl t
  | cons head heads ih => exact (ih _).trans (follow_sublist t.length t head.id head)

/-- The table has nothing that continues an event, if that is flagged. -/
def Spent (t : Table Event) (e : Event) : Prop := e.content.hasContinuation = some true → t.get? e.id = none

theorem Spent.of_sublist {t t' : Table Event} {e : Event} (h : Spent t e) (ht : t'.Sublist t) : Spent t' e :=
  fun hflag => Table.get?_eq_none_of_sublist ht (h hflag)

/-- Following absorbs continuations, each of the one before, and leaves the
others, none of which continues one of the events absorbed. -/
theorem follow_absorbs {limit : Nat} {t : Table Event} (ht : Filed t) (hlimit : t.length ≤ limit) (e head : Event)
    (hflag : head.content.hasContinuation = e.content.hasContinuation) :
    ∃ rest, (follow limit t e.id head).1 = rest.foldl Event.absorb head ∧ (e :: rest).IsChain Event.LeadsTo ∧
      Filed (follow limit t e.id head).2 ∧ (t.map (·.2)).Perm (rest ++ (follow limit t e.id head).2.map (·.2)) ∧
      ∀ m ∈ e :: rest, Spent (follow limit t e.id head).2 m := by
  have hstay : ∀ {t : Table Event} {e head : Event}, Filed t → Spent t e →
      ∃ rest, head = rest.foldl Event.absorb head ∧ (e :: rest).IsChain Event.LeadsTo ∧ Filed t ∧
        (t.map (·.2)).Perm (rest ++ t.map (·.2)) ∧ ∀ m ∈ e :: rest, Spent t m := fun ht hspent =>
    ⟨[], rfl, .singleton _, ht, .refl _, fun _ hm => List.mem_singleton.1 hm ▸ hspent⟩
  induction limit generalizing t e head with
  | zero =>
    obtain rfl := List.length_eq_zero_iff.1 (Nat.le_zero.1 hlimit)
    exact hstay ht fun _ => rfl
  | succ limit ih =>
    rw [follow]
    split
    next hcontinued =>
      cases hnext : t.get? e.id with
      | none => exact hstay ht fun _ => hnext
      | some next =>
        simp only
        have hleads : e.LeadsTo next :=
          ⟨hflag.symm.trans hcontinued, ht.byPrevious (e.id, next) (Table.mem_of_get? hnext)⟩
        have hsplit : (t.map (·.2)).Perm (next :: (t.erase e.id).map (·.2)) :=
          (Table.perm_of_get? ht.nodup hnext).map (·.2)
        have hshorter := Table.length_erase_lt hnext
        obtain ⟨rest, hfold, hchain, hleft, hperm, hspent⟩ :=
          ih (ht.erase e.id) (by omega) next (head.absorb next) rfl
        refine ⟨next :: rest, hfold, hchain.cons_cons hleads, hleft,
          hsplit.trans (hperm.cons next), List.forall_mem_cons.2 ⟨?_, hspent⟩⟩
        exact fun _ => Table.get?_eq_none_of_sublist (follow_sublist limit _ _ _) (Table.get?_erase_self t e.id)
    next hlast => exact hstay ht fun hcontinued => absurd (hflag.trans hcontinued) hlast

theorem complete_groups {t : Table Event} (ht : Filed t) (heads : List Event) :
    ∃ groups : List Group, (complete t heads).1 = groups.map Group.entry ∧ groups.map Group.head = heads ∧
      (∀ g ∈ groups, g.members.IsChain Event.LeadsTo) ∧ Filed (complete t heads).2 ∧
      (t.map (·.2)).Perm (groups.flatMap Group.absorbed ++ (complete t heads).2.map (·.2)) ∧
      ∀ g ∈ groups, ∀ m ∈ g.members, Spent (complete t heads).2 m := by
  induction heads generalizing t with
  | nil => exact ⟨[], rfl, rfl, by simp, ht, .refl _, by simp⟩
  | cons head heads ih =>
    obtain ⟨rest, hfold, hchain, hleft, hperm, hspent⟩ := follow_absorbs ht (Nat.le_refl _) head head rfl
    obtain ⟨groups, hentries, hheads, hchains, hleft', hperm', hspent'⟩ := ih hleft
    refine ⟨⟨head, rest⟩ :: groups, ?_, ?_, ?_, hleft', ?_, ?_⟩
    · rw [complete, List.map_cons, ← hentries, Group.entry, ← hfold]
    · rw [List.map_cons, hheads]
    · exact List.forall_mem_cons.2 ⟨hchain, hchains⟩
    · rw [List.flatMap_cons, List.append_assoc]
      exact hperm.trans (hperm'.append_left rest)
    · exact List.forall_mem_cons.2 ⟨fun m hm => (hspent m hm).of_sublist (complete_sublist heads _), hspent'⟩

/-- What stitching makes of events: groups, each of them an entry. Where one
begins with an event that continues nothing, none that continues one of its
flagged events is left alone. -/
structure Grouped (events : List Event) (groups : List Group) : Prop where
  entries : stitch events = groups.map Group.entry
  sound : ∀ g ∈ groups, g.Sound
  members : (groups.flatMap Group.members).Perm (standing events)
  closed : ∀ g ∈ groups, g.head.content.continuationOf = none → ∀ m ∈ g.members,
    m.content.hasContinuation = some true → ∀ g' ∈ groups, g'.head.content.continuationOf ≠ some m.id

/-- **Every event that stands is in exactly one group**, and the groups are
the entries. -/
theorem stitch_groups (events : List Event) : ∃ groups, Grouped events groups := by
  obtain ⟨groups, hentries, hheads, hchains, hleft, hperm, hspent⟩ :=
    complete_groups (filed_continuations events) (events.filter fun e => e.content.continuationOf.isNone)
  generalize hcomplete : complete (continuations events)
    (events.filter fun e => e.content.continuationOf.isNone) = completed at hentries hleft hperm hspent
  have halone : ∀ left : List Event, (left.map fun e => Group.mk e []).map Group.entry = left ∧
      (left.map fun e => Group.mk e []).flatMap Group.members = left := by
    intro left
    induction left with
    | nil => exact ⟨rfl, rfl⟩
    | cons e left ih => exact ⟨congrArg (e :: ·) ih.1, congrArg (e :: ·) ih.2⟩
  have hfirst : ∀ g ∈ groups, g.head.content.continuationOf = none := by
    intro g hg
    have hhead : g.head ∈ events.filter fun e => e.content.continuationOf.isNone := by
      rw [← hheads]
      exact List.mem_map_of_mem hg
    exact Option.isNone_iff_eq_none.1 (List.mem_filter.1 hhead).2
  refine ⟨groups ++ (completed.2.map (·.2)).map fun e => ⟨e, []⟩, ?_, ?_, ?_, ?_⟩
  · rw [stitch, hcomplete, List.map_append, (halone _).1, ← hentries]
  · intro g hg
    rcases List.mem_append.1 hg with hg | hg
    · exact ⟨hchains g hg, .inr (hfirst g hg)⟩
    · obtain ⟨e, -, rfl⟩ := List.mem_map.1 hg
      exact ⟨.singleton e, .inl rfl⟩
  · have hmembers : (groups.flatMap Group.members).Perm (groups.map Group.head ++ groups.flatMap Group.absorbed) := by
      rw [List.map_eq_flatMap]
      exact (List.flatMap_append_perm groups (fun g => [g.head]) Group.absorbed).symm
    rw [List.flatMap_append, (halone _).2]
    calc (groups.flatMap Group.members ++ completed.2.map (·.2)).Perm _ := hmembers.append_right _
      _ = groups.map Group.head ++ (groups.flatMap Group.absorbed ++ completed.2.map (·.2)) := List.append_assoc ..
      List.Perm _ _ := (hperm.symm.trans (continuations_perm events)).append_left _
      _ = (standing events).filter (·.content.continuationOf.isNone) ++
          (standing events).filter (!·.content.continuationOf.isNone) := by
        rw [hheads, filter_standing]
        simp
      List.Perm _ _ := List.filter_append_perm _ _
  · -- a group is complete, and so continued by none of those left, or one of those left itself
    have hleftover : ∀ g ∈ (completed.2.map (·.2)).map fun e => Group.mk e [],
        ∃ id, g.head.content.continuationOf = some id ∧ (completed.2.get? id).isSome := by
      intro g hg
      obtain ⟨e, he, rfl⟩ := List.mem_map.1 hg
      obtain ⟨entry, hentry, rfl⟩ := List.mem_map.1 he
      exact ⟨entry.1, hleft.byPrevious entry hentry, Table.get?_isSome.2 (List.mem_map_of_mem hentry)⟩
    intro g hg hnone m hm hflag g' hg' hprevious
    rcases List.mem_append.1 hg with hg | hg
    · rcases List.mem_append.1 hg' with hg' | hg'
      · rw [hfirst g' hg'] at hprevious
        cases hprevious
      · obtain ⟨id, hid, hsome⟩ := hleftover g' hg'
        obtain rfl := Option.some.inj (hprevious.symm.trans hid)
        rw [hspent g hg m hm hflag] at hsome
        cases hsome
    · obtain ⟨id, hid, -⟩ := hleftover g hg
      rw [hnone] at hid
      cases hid

/-! ## Events told apart by their ids -/

section Once

variable {groups : List Group} (h : ((groups.flatMap Group.members).map (·.id)).Nodup)
include h

theorem nodup_members {g : Group} (hg : g ∈ groups) : (g.members.map (·.id)).Nodup := by
  rw [List.map_flatMap] at h
  exact (List.nodup_flatMap.1 h).1 g hg

theorem eq_of_mem_members {g g' : Group} (hg : g ∈ groups) (hg' : g' ∈ groups) {m m' : Event} (hm : m ∈ g.members)
    (hm' : m' ∈ g'.members) (hid : m.id = m'.id) : g = g' := by
  rw [List.map_flatMap] at h
  have hdisjoint : groups.Pairwise fun g g' => List.Disjoint (g.members.map (·.id)) (g'.members.map (·.id)) :=
    (List.nodup_flatMap.1 h).2
  have : Std.Symm fun g g' : Group => List.Disjoint (g.members.map (·.id)) (g'.members.map (·.id)) :=
    ⟨fun _ _ => List.disjoint_symm⟩
  by_contra hne
  exact hdisjoint.forall hg hg' hne (List.mem_map_of_mem hm) (hid ▸ List.mem_map_of_mem hm')

theorem nodup_heads : (groups.map (·.head.id)).Nodup := by
  rw [List.map_flatMap] at h
  refine List.pairwise_map.2 ((List.nodup_flatMap.1 h).2.imp fun {g g'} hdisjoint heq => ?_)
  have hhead : ∀ g : Group, g.head.id ∈ g.members.map (·.id) := fun g => List.mem_map_of_mem List.mem_cons_self
  exact hdisjoint (hhead g) (heq ▸ hhead g')

end Once

namespace Grouped

variable {events : List Event} {groups : List Group}

theorem mem_events (h : Grouped events groups) {g : Group} (hg : g ∈ groups) {m : Event} (hm : m ∈ g.members) :
    m ∈ events :=
  (standing_sublist events).mem (h.members.mem_iff.1 (List.mem_flatMap.2 ⟨g, hg, hm⟩))

theorem exists_group (h : Grouped events groups) {m : Event} (hm : m ∈ standing events) : ∃ g ∈ groups, m ∈ g.members :=
  List.mem_flatMap.1 (h.members.mem_iff.2 hm)

theorem once (h : Grouped events groups) (hdistinct : (events.map (·.id)).Nodup) :
    ((groups.flatMap Group.members).map (·.id)).Nodup :=
  (h.members.map _).nodup_iff.2 (hdistinct.sublist ((standing_sublist events).map _))

end Grouped

end Timeline

end ReplyStream
