/-
Events with other data. To put in place what an event refers to changes its data
and nothing else, and neither the choice of the newest versions nor stitching
nor sorting looks at data. So what relates events one by one, with data that
may differ (`Carried`), relates what becomes of them (`forall₂_newest`,
`alike_complete`, `forall₂_byTime`).
-/
import ReplyStream.Proofs.Timeline.Messages
import ReplyStream.Timeline.Stitch

namespace ReplyStream

namespace Table

variable {α β : Type} {R : α → β → Prop} {t : Table α} {u : Table β}

/-- Tables of the same keys, whose values are related. -/
def Alike (R : α → β → Prop) (t : Table α) (u : Table β) : Prop :=
  List.Forall₂ (fun a b => a.1 = b.1 ∧ R a.2 b.2) t u

namespace Alike

theorem get? (h : Alike R t u) (key : String) : Option.Rel R (t.get? key) (u.get? key) := by
  induction h with
  | nil => exact .none
  | @cons a b t u hab _ ih =>
    obtain ⟨k, x⟩ := a
    obtain ⟨k', y⟩ := b
    obtain ⟨rfl, hxy⟩ := hab
    rw [get?_cons, get?_cons]
    split
    · exact .some hxy
    · exact ih

theorem put (h : Alike R t u) (key : String) {x : α} {y : β} (hxy : R x y) :
    Alike R (t.put key x) (u.put key y) := by
  induction h with
  | nil => exact .cons ⟨rfl, hxy⟩ .nil
  | @cons a b t u hab htu ih =>
    obtain ⟨k, x'⟩ := a
    obtain ⟨k', y'⟩ := b
    obtain ⟨rfl, hxy'⟩ := hab
    unfold Table.put
    split
    · exact .cons ⟨rfl, hxy⟩ htu
    · exact .cons ⟨rfl, hxy'⟩ ih

theorem erase (h : Alike R t u) (key : String) : Alike R (t.erase key) (u.erase key) :=
  List.rel_filter (fun a b hab => by show decide (a.1 ≠ key) = true ↔ _; rw [hab.1]) h

theorem values (h : Alike R t u) : List.Forall₂ R (t.map (·.2)) (u.map (·.2)) :=
  List.rel_map (fun _ _ hab => hab.2) h

end Alike

end Table

theorem Event.Filled.refl (e : Event) : e.Filled e := by
  refine ⟨e.content.data, ?_⟩
  cases e
  rfl

namespace Timeline

/-- What relates events to ones with other data, and goes on to do so when
they absorb others. -/
structure Carried (R : Event → Event → Prop) : Prop where
  filled : ∀ {e e' : Event}, R e e' → e.Filled e'
  absorb : ∀ {e e' next next' : Event}, R e e' → R next next' → R (e.absorb next) (e'.absorb next')

variable {R : Event → Event → Prop} {t t' : Table Event} {e e' : Event} {events events' : List Event}

theorem Carried.timestamp_eq (hR : Carried R) (h : R e e') : e'.timestamp = e.timestamp := by
  obtain ⟨data, hsame⟩ := hR.filled h
  rw [hsame]

/-! ## Newest versions -/

theorem alike_keepNewest (hfilled : ∀ {e e' : Event}, R e e' → e.Filled e') (ht : t.Alike R t') (he : R e e') :
    Table.Alike R (keepNewest t e) (keepNewest t' e') := by
  obtain ⟨data, hsame⟩ := hfilled he
  have hid : e'.id = e.id := by rw [hsame]
  have htime : e'.timestamp = e.timestamp := by rw [hsame]
  have hget := ht.get? e.id
  unfold keepNewest
  rw [hid, htime]
  generalize t.get? e.id = found, t'.get? e.id = found' at hget ⊢
  cases hget with
  | none => exact ht.put e.id he
  | @some old old' hold =>
    obtain ⟨data', hsame'⟩ := hfilled hold
    have hold' : old'.timestamp = old.timestamp := by rw [hsame']
    simp only [hold']
    split
    · exact ht.put e.id he
    · exact ht

theorem forall₂_newest (hfilled : ∀ {e e' : Event}, R e e' → e.Filled e') (h : List.Forall₂ R events events') :
    List.Forall₂ R ((events.foldl keepNewest []).map (·.2)) ((events'.foldl keepNewest []).map (·.2)) := by
  have hstep : Relator.LiftFun (Table.Alike R) (Relator.LiftFun R (Table.Alike R)) keepNewest keepNewest :=
    fun _ _ ht _ _ he => alike_keepNewest hfilled ht he
  exact (List.rel_foldl hstep .nil h).values

/-! ## Stitching -/

section Stitch

variable (hR : Carried R)
include hR

theorem alike_continuations (h : List.Forall₂ R events events') :
    Table.Alike R (continuations events) (continuations events') := by
  refine List.rel_foldl (P := Table.Alike R) (fun t t' ht e e' he => ?_) .nil h
  obtain ⟨data, hsame⟩ := hR.filled he
  have hprevious : e'.content.continuationOf = e.content.continuationOf := by rw [hsame]
  simp only [hprevious]
  split
  · exact ht.put _ he
  · exact ht

theorem alike_follow (limit : Nat) (ht : t.Alike R t') (tail : String) (he : R e e') :
    R (follow limit t tail e).1 (follow limit t' tail e').1 ∧
      Table.Alike R (follow limit t tail e).2 (follow limit t' tail e').2 := by
  induction limit generalizing t t' tail e e' with
  | zero => exact ⟨he, ht⟩
  | succ limit ih =>
    obtain ⟨data, hsame⟩ := hR.filled he
    have hflag : e'.content.hasContinuation = e.content.hasContinuation := by rw [hsame]
    have hget := ht.get? tail
    unfold follow
    rw [hflag]
    split
    · generalize t.get? tail = found, t'.get? tail = found' at hget ⊢
      cases hget with
      | none => exact ⟨he, ht⟩
      | @some next next' hnext =>
        obtain ⟨data', hsame'⟩ := hR.filled hnext
        have hid : next'.id = next.id := by rw [hsame']
        simp only [hid]
        exact ih (ht.erase tail) next.id (hR.absorb he hnext)
    · exact ⟨he, ht⟩

theorem alike_complete (ht : t.Alike R t') (h : List.Forall₂ R events events') :
    List.Forall₂ R (complete t events).1 (complete t' events').1 ∧
      Table.Alike R (complete t events).2 (complete t' events').2 := by
  induction h generalizing t t' with
  | nil => exact ⟨.nil, ht⟩
  | @cons e e' events events' he _ ih =>
    obtain ⟨data, hsame⟩ := hR.filled he
    have hid : e'.id = e.id := by rw [hsame]
    obtain ⟨hentry, hleft⟩ := alike_follow hR t.length ht e.id he
    obtain ⟨hentries, hleft'⟩ := ih hleft
    unfold complete
    rw [← List.Forall₂.length_eq ht, hid]
    exact ⟨.cons hentry hentries, hleft'⟩

end Stitch

/-! ## Order of time -/

theorem exists_pairs {α β : Type} {R : α → β → Prop} {l : List α} {m : List β} (h : List.Forall₂ R l m) :
    ∃ pairs : List (α × β), pairs.map (·.1) = l ∧ pairs.map (·.2) = m ∧ ∀ p ∈ pairs, R p.1 p.2 := by
  induction h with
  | nil => exact ⟨[], rfl, rfl, by simp⟩
  | @cons a b l m hab _ ih =>
    obtain ⟨pairs, rfl, rfl, hpairs⟩ := ih
    exact ⟨(a, b) :: pairs, rfl, rfl, List.forall_mem_cons.2 ⟨hab, hpairs⟩⟩

theorem forall₂_byTime (htimes : ∀ {e e' : Event}, R e e' → e'.timestamp = e.timestamp)
    (h : List.Forall₂ R events events') : List.Forall₂ R (byTime events) (byTime events') := by
  obtain ⟨pairs, rfl, rfl, hpairs⟩ := exists_pairs h
  have htime : ∀ p ∈ pairs, p.2.timestamp = p.1.timestamp := fun p hp => htimes (hpairs p hp)
  have hfirst : byTime (pairs.map (·.1)) = (pairs.mergeSort fun p q => p.1.timestamp ≤ q.1.timestamp).map (·.1) :=
    (List.map_mergeSort (f := Prod.fst) fun p _ q _ => rfl).symm
  have hsecond : byTime (pairs.map (·.2)) = (pairs.mergeSort fun p q => p.1.timestamp ≤ q.1.timestamp).map (·.2) :=
    (List.map_mergeSort (f := Prod.snd) fun p hp q hq => by rw [htime p hp, htime q hq]).symm
  rw [hfirst, hsecond, List.forall₂_map_left_iff, List.forall₂_map_right_iff, List.forall₂_same]
  exact fun p hp => hpairs p (List.mem_mergeSort.1 hp)

end Timeline

end ReplyStream
