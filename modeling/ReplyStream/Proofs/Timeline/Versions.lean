/-
The newest versions of events in a log two kinds of events were written to,
each kind in its own order (`Shuffle`). Every stage up to the newest versions
keeps the kinds apart: the candidates of the log are shuffled from those of
its kinds, and the newest versions of the events of one kind do not depend on
the other (`survivors_filter`).

Of several versions the newest is left, and of several newest ones the first
(`firstNewest_of_get?`). So an event that was edited again and again, each edit
newer than the last, is left in the version that came last (`survivors_perm`).
-/
import Mathlib.Data.List.Forall2
import Mathlib.Data.List.Induction
import ReplyStream.Proofs.Table
import ReplyStream.Timeline.Edits

namespace ReplyStream

section Forall₂

variable {α β : Type} {R : α → β → Prop} {l : List α} {m : List β}

theorem exists_left_of_forall₂ (h : List.Forall₂ R l m) {b : β} (hb : b ∈ m) : ∃ a ∈ l, R a b := by
  induction h with
  | nil => cases hb
  | @cons a b' l m hab _ ih =>
    rcases List.mem_cons.1 hb with rfl | hb
    · exact ⟨a, List.mem_cons_self, hab⟩
    · obtain ⟨a', ha', hab'⟩ := ih hb
      exact ⟨a', List.mem_cons_of_mem a ha', hab'⟩

theorem exists_right_of_forall₂ (h : List.Forall₂ R l m) {a : α} (ha : a ∈ l) : ∃ b ∈ m, R a b :=
  exists_left_of_forall₂ (R := fun b a => R a b) h.flip ha

end Forall₂

/-- The third list holds the elements of the first and those of the second,
both in their order. -/
inductive Shuffle {α : Type} : List α → List α → List α → Prop
  | nil : Shuffle [] [] []
  | first {a : α} {l m n : List α} (h : Shuffle l m n) : Shuffle (a :: l) m (a :: n)
  | second {a : α} {l m n : List α} (h : Shuffle l m n) : Shuffle l (a :: m) (a :: n)

namespace Shuffle

variable {α β : Type} {l m n : List α}

theorem eq_of_nil_left (h : Shuffle [] m n) : n = m := by
  induction n generalizing m with
  | nil => cases h; rfl
  | cons a n ih =>
    cases h with
    | second h => rw [ih h]

theorem append_second (h : Shuffle l m n) (more : List α) : Shuffle l (m ++ more) (n ++ more) := by
  induction h with
  | nil =>
    induction more with
    | nil => exact .nil
    | cons a more ih => exact .second ih
  | first _ ih => exact .first ih
  | second _ ih => exact .second ih

theorem append_first (h : Shuffle l m n) (more : List α) : Shuffle (l ++ more) m (n ++ more) := by
  induction h with
  | nil =>
    induction more with
    | nil => exact .nil
    | cons a more ih => exact .first ih
  | first _ ih => exact .first ih
  | second _ ih => exact .second ih

theorem of_nil_left (m : List α) : Shuffle [] m m := nil.append_second m

theorem map (h : Shuffle l m n) (f : α → β) : Shuffle (l.map f) (m.map f) (n.map f) := by
  induction h with
  | nil => exact .nil
  | first _ ih => exact .first ih
  | second _ ih => exact .second ih

theorem filter (h : Shuffle l m n) (q : α → Bool) : Shuffle (l.filter q) (m.filter q) (n.filter q) := by
  induction h with
  | nil => exact .nil
  | @first a _ _ _ _ ih =>
    by_cases ha : q a
    · rw [List.filter_cons_of_pos ha, List.filter_cons_of_pos ha]
      exact .first ih
    · rw [List.filter_cons_of_neg ha, List.filter_cons_of_neg ha]
      exact ih
  | @second a _ _ _ _ ih =>
    by_cases ha : q a
    · rw [List.filter_cons_of_pos ha, List.filter_cons_of_pos ha]
      exact .second ih
    · rw [List.filter_cons_of_neg ha, List.filter_cons_of_neg ha]
      exact ih

theorem prepend_first (h : Shuffle l m n) (front : List α) : Shuffle (front ++ l) m (front ++ n) := by
  induction front with
  | nil => exact h
  | cons a front ih => exact .first ih

theorem prepend_second (h : Shuffle l m n) (front : List α) : Shuffle l (front ++ m) (front ++ n) := by
  induction front with
  | nil => exact h
  | cons a front ih => exact .second ih

theorem flatMap (h : Shuffle l m n) (f : α → List β) :
    Shuffle (l.flatMap f) (m.flatMap f) (n.flatMap f) := by
  induction h with
  | nil => exact .nil
  | first _ ih => exact ih.prepend_first _
  | second _ ih => exact ih.prepend_second _

theorem mapM_cons_ok {ε : Type} {f : α → Except ε β} {a : α} {l : List α} {bs : List β} :
    (a :: l).mapM f = .ok bs ↔ ∃ b bs', f a = .ok b ∧ l.mapM f = .ok bs' ∧ bs = b :: bs' := by
  rw [List.mapM_cons]
  cases ha : f a with
  | error e => simp [bind, Except.bind]
  | ok b =>
    cases hl : l.mapM f with
    | error e => simp [bind, Except.bind]
    | ok bs' => simp [bind, Except.bind, pure, Except.pure, eq_comm]

theorem mem_of_mapM_ok {ε : Type} {f : α → Except ε β} {l : List α} {bs : List β} (h : l.mapM f = .ok bs) {b : β}
    (hb : b ∈ bs) : ∃ a ∈ l, f a = .ok b := by
  induction l generalizing bs with
  | nil =>
    cases h
    cases hb
  | cons a l ih =>
    obtain ⟨b', bs', hb', hbs', rfl⟩ := mapM_cons_ok.1 h
    rcases List.mem_cons.1 hb with rfl | hb
    · exact ⟨a, List.mem_cons_self, hb'⟩
    · obtain ⟨a', ha', hfa⟩ := ih hbs' hb
      exact ⟨a', List.mem_cons_of_mem a ha', hfa⟩

/-- A shuffle of lists that can be mapped can be mapped. -/
theorem mapM {ε : Type} (h : Shuffle l m n) {f : α → Except ε β} {l' m' : List β} (hl : l.mapM f = .ok l')
    (hm : m.mapM f = .ok m') : ∃ n', n.mapM f = .ok n' ∧ Shuffle l' m' n' := by
  induction h generalizing l' m' with
  | nil =>
    cases hl
    cases hm
    exact ⟨[], rfl, .nil⟩
  | first _ ih =>
    obtain ⟨b, bs, hb, hbs, rfl⟩ := mapM_cons_ok.1 hl
    obtain ⟨n', hn', hshuffle⟩ := ih hbs hm
    exact ⟨b :: n', mapM_cons_ok.2 ⟨b, n', hb, hn', rfl⟩, .first hshuffle⟩
  | second _ ih =>
    obtain ⟨b, bs, hb, hbs, rfl⟩ := mapM_cons_ok.1 hm
    obtain ⟨n', hn', hshuffle⟩ := ih hl hbs
    exact ⟨b :: n', mapM_cons_ok.2 ⟨b, n', hb, hn', rfl⟩, .second hshuffle⟩

/-- What holds of one kind only tells the kinds apart. -/
theorem filter_eq_first (h : Shuffle l m n) {q : α → Bool} (hl : ∀ a ∈ l, q a = true) (hm : ∀ a ∈ m, q a = false) :
    n.filter q = l := by
  induction h with
  | nil => rfl
  | first _ ih =>
    rw [List.filter_cons_of_pos (hl _ List.mem_cons_self),
      ih (fun a ha => hl a (List.mem_cons_of_mem _ ha)) hm]
  | second _ ih =>
    rw [List.filter_cons_of_neg (by rw [hm _ List.mem_cons_self]; exact Bool.false_ne_true),
      ih hl (fun a ha => hm a (List.mem_cons_of_mem _ ha))]

theorem swap (h : Shuffle l m n) : Shuffle m l n := by
  induction h with
  | nil => exact .nil
  | first _ ih => exact .second ih
  | second _ ih => exact .first ih

theorem filter_eq_second (h : Shuffle l m n) {q : α → Bool} (hl : ∀ a ∈ l, q a = false)
    (hm : ∀ a ∈ m, q a = true) : n.filter q = m :=
  h.swap.filter_eq_first hm hl

end Shuffle

namespace Timeline

/-! ## The newest version -/

/-- Whether a version is of an event of a kind plays no part for the others. -/
theorem restrict_keepNewest (q : String → Bool) (t : Table Event) (e : Event) :
    (keepNewest t e).restrict q = if q e.id = true then keepNewest (t.restrict q) e else t.restrict q := by
  unfold keepNewest
  by_cases hq : q e.id = true
  · rw [if_pos hq, Table.get?_restrict hq]
    cases t.get? e.id with
    | none => exact (Table.restrict_put q t e.id e).trans (if_pos hq)
    | some old =>
      simp only
      split
      · exact (Table.restrict_put q t e.id e).trans (if_pos hq)
      · rfl
  · rw [if_neg hq]
    cases t.get? e.id with
    | none => exact (Table.restrict_put q t e.id e).trans (if_neg hq)
    | some old =>
      simp only
      split
      · exact (Table.restrict_put q t e.id e).trans (if_neg hq)
      · rfl

theorem restrict_foldl_keepNewest (q : String → Bool) (events : List Event) (t : Table Event) :
    (events.foldl keepNewest t).restrict q = (events.filter (q ·.id)).foldl keepNewest (t.restrict q) := by
  induction events generalizing t with
  | nil => rfl
  | cons e events ih =>
    rw [List.foldl_cons, ih, restrict_keepNewest, List.filter_cons]
    by_cases hq : q e.id = true
    · rw [if_pos hq, if_pos hq, List.foldl_cons]
    · rw [if_neg hq, if_neg hq]

/-- A table of events by their ids, each of them among `events`. -/
def Holds (events : List Event) (t : Table Event) : Prop := ∀ e ∈ t, e.1 = e.2.id ∧ e.2 ∈ events

theorem Holds.put {events : List Event} {t : Table Event} (h : Holds events t) {e : Event} (he : e ∈ events) :
    Holds events (t.put e.id e) := by
  intro f hf
  induction t with
  | nil =>
    obtain rfl := List.mem_singleton.1 hf
    exact ⟨rfl, he⟩
  | cons g t ih =>
    unfold Table.put at hf
    split at hf
    next heq =>
      rcases List.mem_cons.1 hf with rfl | hf
      · exact ⟨rfl, he⟩
      · exact h f (List.mem_cons_of_mem g hf)
    next =>
      rcases List.mem_cons.1 hf with rfl | hf
      · exact h _ List.mem_cons_self
      · exact ih (fun f hf => h f (List.mem_cons_of_mem g hf)) hf

/-- The newest versions of events, by the ids of the events. -/
structure Newest (events : List Event) (t : Table Event) : Prop where
  holds : Holds events t
  nodup : t.keys.Nodup

theorem newest_foldl (events : List Event) {before : List Event} {t : Table Event} (h : Newest before t) :
    Newest (before ++ events) (events.foldl keepNewest t) := by
  induction events generalizing before t with
  | nil => rw [List.append_nil]; exact h
  | cons e events ih =>
    have hput : Newest (before ++ [e]) (t.put e.id e) :=
      ⟨Holds.put (fun f hf => ⟨(h.holds f hf).1, List.mem_append_left _ (h.holds f hf).2⟩) (by simp),
        Table.nodup_keys_put h.nodup e.id e⟩
    have hkeep : Newest (before ++ [e]) t :=
      ⟨fun f hf => ⟨(h.holds f hf).1, List.mem_append_left _ (h.holds f hf).2⟩, h.nodup⟩
    have hone : Newest (before ++ [e]) (keepNewest t e) := by
      unfold keepNewest
      split
      · exact hput
      · split
        · exact hput
        · exact hkeep
    rw [List.foldl_cons, List.append_cons]
    exact ih hone

theorem newest_nil : Newest [] [] := ⟨fun _ h => absurd h List.not_mem_nil, List.nodup_nil⟩

theorem mem_keys_foldl_keepNewest {events : List Event} {t : Table Event} {id : String} :
    id ∈ Table.keys (events.foldl keepNewest t) ↔ id ∈ t.keys ∨ ∃ e ∈ events, e.id = id := by
  induction events generalizing t with
  | nil => simp
  | cons e events ih =>
    have hone : id ∈ Table.keys (keepNewest t e) ↔ e.id = id ∨ id ∈ t.keys := by
      have hput : id ∈ Table.keys (t.put e.id e) ↔ e.id = id ∨ id ∈ t.keys := by
        rw [Table.mem_keys_put, eq_comm]
      unfold keepNewest
      split
      · exact hput
      next old hold =>
        split
        · exact hput
        · refine ⟨.inr, fun h => h.elim (fun heq => ?_) fun hmem => hmem⟩
          rw [← heq, ← Table.get?_isSome, hold]
          rfl
    rw [List.foldl_cons, ih, hone, List.exists_mem_cons_iff, or_assoc, or_left_comm]

theorem keepNewest_of_none {t : Table Event} {e : Event} (h : t.get? e.id = none) :
    keepNewest t e = t.put e.id e := by
  simp only [keepNewest, h]

theorem keepNewest_of_some {t : Table Event} {e old : Event} (h : t.get? e.id = some old) :
    keepNewest t e = if old.timestamp < e.timestamp then t.put e.id e else t := by
  simp only [keepNewest, h]

theorem get?_keepNewest_other (t : Table Event) {e : Event} {id : String} (hid : id ≠ e.id) :
    (keepNewest t e).get? id = t.get? id := by
  cases hold : t.get? e.id with
  | none =>
    rw [keepNewest_of_none hold]
    exact Table.get?_put_other t e hid
  | some old =>
    rw [keepNewest_of_some hold]
    split
    · exact Table.get?_put_other t e hid
    · rfl

/-- Of events in the order in which they came the newest, of several the first. -/
def FirstNewest (events : List Event) (e : Event) : Prop :=
  ∃ before after, events = before ++ e :: after ∧ (∀ f ∈ before, f.timestamp < e.timestamp) ∧
    ∀ f ∈ after, f.timestamp ≤ e.timestamp

theorem FirstNewest.mem {events : List Event} {e : Event} (h : FirstNewest events e) : e ∈ events := by
  obtain ⟨before, after, rfl, -⟩ := h
  simp

theorem FirstNewest.le {events : List Event} {e : Event} (h : FirstNewest events e) :
    ∀ f ∈ events, f.timestamp ≤ e.timestamp := by
  obtain ⟨before, after, rfl, hbefore, hafter⟩ := h
  intro f hf
  rcases List.mem_append.1 hf with hf | hf
  · exact Nat.le_of_lt (hbefore f hf)
  · rcases List.mem_cons.1 hf with rfl | hf
    · exact Nat.le_refl _
    · exact hafter f hf

/-- What stands for an event is the first of its newest versions. -/
theorem firstNewest_of_get? {events : List Event} {id : String} {e : Event}
    (h : Table.get? (events.foldl keepNewest []) id = some e) : FirstNewest (events.filter (·.id == id)) e := by
  induction events using List.reverseRecOn generalizing e with
  | nil => cases h
  | append_singleton events f ih =>
    rw [List.foldl_append, List.foldl_cons, List.foldl_nil] at h
    rw [List.filter_append]
    by_cases hid : f.id = id
    · subst hid
      rw [List.filter_cons_of_pos (by simp), List.filter_nil]
      cases hold : Table.get? (events.foldl keepNewest []) f.id with
      | none =>
        rw [keepNewest_of_none hold, Table.get?_put_self] at h
        cases h
        have hnever : events.filter (·.id == f.id) = [] := by
          rw [List.filter_eq_nil_iff]
          intro g hg hgid
          have hsome : (Table.get? (events.foldl keepNewest []) f.id).isSome :=
            Table.get?_isSome.2 (mem_keys_foldl_keepNewest.2 (.inr ⟨g, hg, by simpa using hgid⟩))
          rw [hold] at hsome
          cases hsome
        exact ⟨[], [], by rw [hnever], by simp, by simp⟩
      | some old =>
        have hnewest := ih hold
        rw [keepNewest_of_some hold] at h
        split at h
        next hnewer =>
          rw [Table.get?_put_self] at h
          cases h
          exact ⟨_, [], rfl, fun g hg => Nat.lt_of_le_of_lt (hnewest.le g hg) hnewer, by simp⟩
        next hnewer =>
          rw [hold] at h
          cases h
          obtain ⟨before, after, hsplit, hbefore, hafter⟩ := hnewest
          refine ⟨before, after ++ [f], by rw [hsplit, List.append_assoc]; rfl, hbefore, fun g hg => ?_⟩
          rcases List.mem_append.1 hg with hg | hg
          · exact hafter g hg
          · obtain rfl := List.mem_singleton.1 hg
            omega
    · rw [List.filter_cons_of_neg (by simpa using hid), List.filter_nil, List.append_nil]
      rw [get?_keepNewest_other _ (Ne.symm hid)] at h
      exact ih h

/-- What stands for an event is its newest version. -/
theorem get?_newest {events : List Event} {id : String} {e : Event}
    (h : Table.get? (events.foldl keepNewest []) id = some e) :
    e ∈ events ∧ e.id = id ∧ ∀ f ∈ events, f.id = id → f.timestamp ≤ e.timestamp := by
  have hfirst := firstNewest_of_get? h
  obtain ⟨hmem, hid⟩ := List.mem_filter.1 hfirst.mem
  exact ⟨hmem, eq_of_beq hid, fun f hf hfid => hfirst.le f (List.mem_filter.2 ⟨hf, beq_iff_eq.2 hfid⟩)⟩

/-- Of versions that get newer and newer, all are entered. -/
theorem foldl_keepNewest_of_pairwise {events before : List Event} {t : Table Event} (ht : Holds before t)
    (h : (before ++ events).Pairwise (·.timestamp < ·.timestamp)) :
    events.foldl keepNewest t = events.foldl (fun t e => t.put e.id e) t := by
  induction events generalizing before t with
  | nil => rfl
  | cons e events ih =>
    have hone : keepNewest t e = t.put e.id e := by
      unfold keepNewest
      split
      · rfl
      next old hold =>
        obtain ⟨entry, hentry, rfl⟩ := Option.map_eq_some_iff.1 hold
        have hmem := (ht entry (List.mem_of_find?_eq_some hentry)).2
        rw [if_pos ((List.pairwise_append.1 h).2.2 _ hmem e List.mem_cons_self)]
    rw [List.foldl_cons, List.foldl_cons, hone]
    rw [List.append_cons] at h
    exact ih (Holds.put (fun f hf => ⟨(ht f hf).1, List.mem_append_left _ (ht f hf).2⟩) (by simp)) h

theorem get?_foldl_put (events : List Event) (t : Table Event) (id : String) :
    (events.foldl (fun t e => t.put e.id e) t).get? id = (events.reverse.find? (·.id == id)).or (t.get? id) := by
  induction events generalizing t with
  | nil => rfl
  | cons e events ih =>
    rw [List.foldl_cons, ih, List.reverse_cons, List.find?_append, Option.or_assoc]
    congr 1
    by_cases h : e.id = id
    · subst h
      rw [Table.get?_put_self, List.find?_cons_of_pos (by simp)]
      rfl
    · rw [Table.get?_put_other _ _ (Ne.symm h), List.find?_cons_of_neg (by simp [h])]
      rfl

/-- All versions of events that are not card fragments, under the ids of the events. -/
def inPlaces (versions : List Event) : List Event := (versions.filter (!·.isFragment)).map Event.inPlace

theorem newest_inPlaces (versions : List Event) :
    Newest (inPlaces versions) ((inPlaces versions).foldl keepNewest []) :=
  newest_foldl _ newest_nil

theorem mem_inPlaces_of_mem_survivors {versions : List Event} {e : Event} (h : e ∈ survivors versions) :
    e ∈ inPlaces versions := by
  obtain ⟨entry, hentry, rfl⟩ := List.mem_map.1 h
  exact ((newest_inPlaces versions).holds entry hentry).2

/-- The newest versions of the events of a kind come of the versions of that kind. -/
theorem survivors_filter (q : String → Bool) (versions : List Event) :
    (survivors versions).filter (q ·.id) =
      (((inPlaces versions).filter (q ·.id)).foldl keepNewest []).map (·.2) := by
  have hholds := (newest_inPlaces versions).holds
  have hrestrict := restrict_foldl_keepNewest q (inPlaces versions) []
  have hempty : Table.restrict q ([] : Table Event) = [] := rfl
  rw [hempty] at hrestrict
  rw [← hrestrict, survivors, Table.restrict, List.filter_map]
  congr 1
  apply List.filter_congr
  intro entry hentry
  rw [(hholds entry hentry).1]
  rfl

/-- **Of events whose versions get newer and newer the last versions are left.** -/
theorem survivors_perm {q : String → Bool} {versions mine : List Event} {ids : List String}
    (hmine : (inPlaces versions).filter (q ·.id) = mine)
    (hnewer : mine.Pairwise (·.timestamp < ·.timestamp)) (hids : ids.Nodup)
    (hmem : ∀ id, id ∈ ids ↔ ∃ e ∈ mine, e.id = id) :
    ((survivors versions).filter (q ·.id)).Perm (ids.filterMap fun id => mine.reverse.find? (·.id == id)) := by
  have hput : mine.foldl keepNewest [] = mine.foldl (fun t e => Table.put t e.id e) [] :=
    foldl_keepNewest_of_pairwise newest_nil.holds hnewer
  have hnewest : Newest mine (mine.foldl keepNewest []) := newest_foldl mine newest_nil
  have hget : ∀ id, Table.get? (mine.foldl keepNewest []) id = mine.reverse.find? (·.id == id) := by
    intro id
    rw [hput, get?_foldl_put, Table.get?_nil, Option.or_none]
  rw [survivors_filter, hmine]
  have hkeys : ∀ id, id ∈ Table.keys (mine.foldl keepNewest []) ↔ id ∈ ids := by
    intro id
    rw [← Table.get?_isSome, hget, hmem, List.find?_isSome]
    simp
  have hperm := Table.values_perm hnewest.nodup hids hkeys
  have hfun : Table.get? (mine.foldl keepNewest []) = fun id => mine.reverse.find? (·.id == id) := funext hget
  rw [hfun] at hperm
  exact hperm

end Timeline

end ReplyStream
