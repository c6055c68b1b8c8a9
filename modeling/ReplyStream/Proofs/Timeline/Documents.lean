/-
Which card documents are put together. The pieces of a document are met by
following links from the first one (`idAt`, `pieceAt`). Those met must be just
as many as the first piece says, the last of them without a link (`Intact`);
every other graph of links has a flaw, and which one it is decides the fault
(`HasFlaw`). Links may lead anywhere: back to a piece already met, into another
document, to an event that is not there.

`reassemble_intact` says when a document is put together and when not, that
only the texts and links of the pieces met play a part, and that a text cut
into pieces comes back as the document it was.
-/
import Mathlib.Data.List.Basic
import ReplyStream.Json.Write
import ReplyStream.Timeline.Fragments

namespace ReplyStream.Fragments

variable {fragments : Fragments} {root id next : String} {piece : CardFragment}

/-- The id that is `k` links behind the first one. -/
def idAt (fragments : Fragments) (root : String) : Nat → Option String
  | 0 => some root
  | k + 1 => (fragments.idAt root k).bind fun id => (fragments.get? id).bind (·.next)

/-- The piece that is `k` links behind the first one. -/
def pieceAt (fragments : Fragments) (root : String) (k : Nat) : Option CardFragment :=
  (fragments.idAt root k).bind fragments.get?

/-- As many pieces follow one another, and the last of them has no link. -/
structure Intact (fragments : Fragments) (root : String) (count : Nat) : Prop where
  present : ∀ k < count, (fragments.pieceAt root k).isSome
  ends : fragments.idAt root count = none

/-- The texts of as many pieces as one. -/
def textOf (fragments : Fragments) (root : String) (count : Nat) : String :=
  String.join ((List.range count).filterMap fun k => (fragments.pieceAt root k).map (·.payload))

/-- What is wrong with a chain that should have `total` pieces: an id it leads
to within that many steps is not there, a link leads on behind the last piece,
or it ends early. -/
def HasFlaw (fragments : Fragments) (root : String) (total : Nat) : Flaw → Prop
  | .missing id => ∃ k < total, fragments.idAt root k = some id ∧ fragments.get? id = none
  | .tooLong => (fragments.idAt root total).isSome
  | .tooShort found => found < total ∧ fragments.Intact root found

/-! ## One link -/

theorem idAt_succ_head (fragments : Fragments) (root : String) (k : Nat) :
    fragments.idAt root (k + 1) =
      ((fragments.get? root).bind (·.next)).bind fun next => fragments.idAt next k := by
  induction k with
  | zero => cases h : (fragments.get? root).bind (·.next) <;> simp [idAt, h]
  | succ k ih =>
    rw [idAt, ih, Option.bind_assoc]
    rfl

section Link

variable (hpiece : fragments.get? id = some piece) (hnext : piece.next = some next)

include hpiece hnext

theorem idAt_link (k : Nat) : fragments.idAt id (k + 1) = fragments.idAt next k := by
  rw [idAt_succ_head, hpiece, Option.bind_some, hnext, Option.bind_some]

theorem pieceAt_link (k : Nat) : fragments.pieceAt id (k + 1) = fragments.pieceAt next k := by
  rw [pieceAt, pieceAt, idAt_link hpiece hnext]

theorem intact_link (count : Nat) : fragments.Intact id (count + 1) ↔ fragments.Intact next count := by
  constructor
  · rintro ⟨hpresent, hends⟩
    refine ⟨fun k hk => ?_, ?_⟩
    · rw [← pieceAt_link hpiece hnext]
      exact hpresent (k + 1) (Nat.succ_lt_succ hk)
    · rw [← idAt_link hpiece hnext]
      exact hends
  · rintro ⟨hpresent, hends⟩
    refine ⟨fun k hk => ?_, ?_⟩
    · cases k with
      | zero => rw [pieceAt, idAt, Option.bind_some, hpiece]; rfl
      | succ k =>
        rw [pieceAt_link hpiece hnext]
        exact hpresent k (Nat.lt_of_succ_lt_succ hk)
    · rw [idAt_link hpiece hnext]
      exact hends

theorem textOf_link (count : Nat) :
    fragments.textOf id (count + 1) = piece.payload ++ fragments.textOf next count := by
  have hfirst : (fragments.pieceAt id 0).map (·.payload) = some piece.payload := by
    rw [pieceAt, idAt, Option.bind_some, hpiece, Option.map_some]
  rw [textOf, List.range_succ_eq_map,
    List.filterMap_cons_some (f := fun k => (fragments.pieceAt id k).map (·.payload)) hfirst, List.filterMap_map,
    ← String.toList_inj]
  simp [textOf, pieceAt_link hpiece hnext]

end Link

theorem not_intact_zero : ¬fragments.Intact id 0 := fun h => by
  have hends := h.ends
  rw [idAt] at hends
  cases hends

/-- A chain whose last piece is the first one is intact as one piece only. -/
theorem intact_of_next_none (hpiece : fragments.get? id = some piece) (hnext : piece.next = none) {count : Nat} :
    fragments.Intact id count ↔ count = 1 := by
  have hnone : fragments.idAt id 1 = none := by
    rw [idAt_succ_head, hpiece, Option.bind_some, hnext, Option.bind_none]
  constructor
  · intro h
    rcases Nat.lt_trichotomy count 1 with hlt | heq | hgt
    · obtain rfl : count = 0 := by omega
      exact absurd h not_intact_zero
    · exact heq
    · have hpresent := h.present 1 hgt
      rw [pieceAt, hnone] at hpresent
      cases hpresent
  · rintro rfl
    refine ⟨fun k hk => ?_, hnone⟩
    obtain rfl : k = 0 := by omega
    rw [pieceAt, idAt, Option.bind_some, hpiece]
    rfl

/-! ## Flaws exclude one another -/

theorem idAt_eq_none_of_le {m n : Nat} (hle : m ≤ n) (h : fragments.idAt root m = none) :
    fragments.idAt root n = none := by
  induction hle with
  | refl => exact h
  | step _ ih => rw [idAt, ih, Option.bind_none]

theorem Intact.unique {m n : Nat} (hm : fragments.Intact root m) (hn : fragments.Intact root n) : m = n := by
  have hle : ∀ {m n : Nat}, fragments.Intact root m → fragments.Intact root n → n ≤ m := by
    intro m n hm hn
    refine Nat.le_of_not_lt fun hlt => ?_
    have hpresent := hn.present m hlt
    rw [pieceAt, hm.ends] at hpresent
    cases hpresent
  exact Nat.le_antisymm (hle hn hm) (hle hm hn)

theorem idAt_of_missing {k n : Nat} (hid : fragments.idAt root k = some id) (hnone : fragments.get? id = none)
    (hlt : k < n) : fragments.idAt root n = none := by
  refine idAt_eq_none_of_le hlt ?_
  rw [idAt, hid, Option.bind_some, hnone, Option.bind_none]

theorem Intact.not_missing {count k : Nat} (h : fragments.Intact root count) (hid : fragments.idAt root k = some id) :
    fragments.get? id ≠ none := by
  intro hnone
  rcases Nat.lt_or_ge k count with hlt | hle
  · have hpresent := h.present k hlt
    rw [pieceAt, hid, Option.bind_some, hnone] at hpresent
    cases hpresent
  · rw [idAt_eq_none_of_le hle h.ends] at hid
    cases hid

theorem HasFlaw.not_intact {total : Nat} {flaw : Flaw} (h : fragments.HasFlaw root total flaw) :
    ¬fragments.Intact root total := by
  intro hintact
  cases flaw with
  | missing id =>
    obtain ⟨k, -, hid, hnone⟩ := h
    exact hintact.not_missing hid hnone
  | tooLong =>
    rw [HasFlaw, hintact.ends] at h
    cases h
  | tooShort found => exact Nat.ne_of_lt h.1 (h.2.unique hintact)

theorem HasFlaw.unique {total : Nat} {flaw flaw' : Flaw} (h : fragments.HasFlaw root total flaw)
    (h' : fragments.HasFlaw root total flaw') : flaw = flaw' := by
  have hlong : ∀ {id}, fragments.HasFlaw root total (.missing id) → ¬fragments.HasFlaw root total .tooLong := by
    rintro id ⟨k, hlt, hid, hnone⟩ hlong
    rw [HasFlaw, idAt_of_missing hid hnone hlt] at hlong
    cases hlong
  have hshort : ∀ {id found}, fragments.HasFlaw root total (.missing id) →
      ¬fragments.HasFlaw root total (.tooShort found) := by
    rintro id found ⟨k, -, hid, hnone⟩ ⟨-, hintact⟩
    exact hintact.not_missing hid hnone
  have hboth : ∀ {found}, fragments.HasFlaw root total .tooLong → ¬fragments.HasFlaw root total (.tooShort found) := by
    rintro found hlong ⟨hlt, hintact⟩
    rw [HasFlaw, idAt_eq_none_of_le (Nat.le_of_lt hlt) hintact.ends] at hlong
    cases hlong
  cases flaw with
  | missing id =>
    cases flaw' with
    | missing id' =>
      obtain ⟨k, -, hid, hnone⟩ := h
      obtain ⟨k', -, hid', hnone'⟩ := h'
      rcases Nat.lt_trichotomy k k' with hlt | rfl | hlt
      · rw [idAt_of_missing hid hnone hlt] at hid'
        cases hid'
      · rw [hid] at hid'
        rw [Option.some.inj hid']
      · rw [idAt_of_missing hid' hnone' hlt] at hid
        cases hid
    | tooLong => exact absurd h' (hlong h)
    | tooShort found => exact absurd h' (hshort h)
  | tooLong =>
    cases flaw' with
    | missing id => exact absurd h (hlong h')
    | tooLong => rfl
    | tooShort found => exact absurd h' (hboth h)
  | tooShort found =>
    cases flaw' with
    | missing id => exact absurd h (hshort h')
    | tooLong => exact absurd h (hboth h')
    | tooShort found' => rw [h.2.unique h'.2]

/-! ## Following the links -/

/-- The flaw of a chain as it is told behind `seen` pieces. -/
def Flaw.after (seen : Nat) : Flaw → Flaw
  | .tooShort found => .tooShort (seen + found)
  | flaw => flaw

theorem Flaw.after_zero (flaw : Flaw) : flaw.after 0 = flaw := by
  cases flaw with
  | missing id => rfl
  | tooLong => rfl
  | tooShort found => exact congrArg Flaw.tooShort (Nat.zero_add found)

theorem hasFlaw_link (hpiece : fragments.get? id = some piece) (hnext : piece.next = some next) {total : Nat}
    {flaw : Flaw} (h : fragments.HasFlaw next total flaw) : fragments.HasFlaw id (total + 1) (flaw.after 1) := by
  cases flaw with
  | missing missed =>
    obtain ⟨k, hlt, hid, hnone⟩ := h
    exact ⟨k + 1, Nat.succ_lt_succ hlt, (idAt_link hpiece hnext k).trans hid, hnone⟩
  | tooLong =>
    rw [HasFlaw, ← idAt_link hpiece hnext] at h
    exact h
  | tooShort found =>
    rw [Flaw.after, Nat.add_comm 1]
    exact ⟨Nat.succ_lt_succ h.1, (intact_link hpiece hnext found).2 h.2⟩

/-- What following the links gives: the text of an intact chain, or a flaw. -/
theorem collect_cases (fragments : Fragments) (seen count : Nat) (id : String) :
    (fragments.Intact id count ∧ fragments.collect seen count id = .ok (fragments.textOf id count)) ∨
      ∃ flaw, fragments.HasFlaw id count flaw ∧ fragments.collect seen count id = .error (flaw.after seen) := by
  induction count generalizing seen id with
  | zero => exact .inr ⟨.tooLong, rfl, rfl⟩
  | succ count ih =>
    cases hpiece : fragments.get? id with
    | none =>
      refine .inr ⟨.missing id, ⟨0, Nat.succ_pos count, rfl, hpiece⟩, ?_⟩
      rw [collect, hpiece]
      rfl
    | some piece =>
      cases hnext : piece.next with
      | none =>
        have hone : fragments.Intact id 1 := (intact_of_next_none hpiece hnext).2 rfl
        cases count with
        | zero =>
          refine .inl ⟨hone, ?_⟩
          have htext : fragments.textOf id 1 = piece.payload := by
            rw [← String.toList_inj]
            simp [textOf, pieceAt, idAt, hpiece]
          simp only [collect, hpiece, hnext, if_true, htext]
        | succ count =>
          refine .inr ⟨.tooShort 1, ⟨by omega, hone⟩, ?_⟩
          simp [collect, hpiece, hnext, Flaw.after]
      | some next =>
        have hcollect : fragments.collect seen (count + 1) id =
            (fragments.collect (seen + 1) count next).map (piece.payload ++ ·) := by
          simp only [collect, hpiece, hnext]
        rcases ih (seen + 1) next with ⟨hintact, hok⟩ | ⟨flaw, hflaw, herror⟩
        · refine .inl ⟨(intact_link hpiece hnext count).2 hintact, ?_⟩
          rw [hcollect, hok, textOf_link hpiece hnext]
          rfl
        · refine .inr ⟨flaw.after 1, hasFlaw_link hpiece hnext hflaw, ?_⟩
          rw [hcollect, herror]
          cases flaw <;> simp [Flaw.after, Except.map, Nat.add_assoc]

/-! ## Documents -/

/-- What becomes of the document whose first piece is in event `root`. -/
inductive Assembles (fragments : Fragments) (root : String) : Except Fault Json → Prop
  | document {piece : CardFragment} {document : Json} (hroot : fragments.get? root = some piece)
      (hintact : fragments.Intact root piece.totalParts)
      (hparse : Json.parse? (fragments.textOf root piece.totalParts) = some document) :
      Assembles fragments root (.ok document)
  | noDocument {piece : CardFragment} (hroot : fragments.get? root = some piece)
      (hintact : fragments.Intact root piece.totalParts)
      (hparse : Json.parse? (fragments.textOf root piece.totalParts) = none) :
      Assembles fragments root (.error (.malformedPayload root .notJson))
  | noRoot (hroot : fragments.get? root = none) :
      Assembles fragments root (.error (.fragmentIntegrity root ("missing fragment " ++ root)))
  | flawed {piece : CardFragment} {flaw : Flaw} (hroot : fragments.get? root = some piece)
      (hflaw : fragments.HasFlaw root piece.totalParts flaw) :
      Assembles fragments root (.error (.fragmentIntegrity root (flaw.reason piece.totalParts)))

theorem collect_of_intact {count : Nat} (h : fragments.Intact id count) :
    fragments.collect 0 count id = .ok (fragments.textOf id count) := by
  rcases fragments.collect_cases 0 count id with ⟨-, hok⟩ | ⟨flaw, hflaw, -⟩
  · exact hok
  · exact absurd h hflaw.not_intact

theorem collect_of_hasFlaw {count : Nat} {flaw : Flaw} (h : fragments.HasFlaw id count flaw) :
    fragments.collect 0 count id = .error flaw := by
  rcases fragments.collect_cases 0 count id with ⟨hintact, -⟩ | ⟨flaw', hflaw, herror⟩
  · exact absurd hintact h.not_intact
  · rw [herror, flaw'.after_zero, hflaw.unique h]

theorem Assembles.reassemble_eq {result : Except Fault Json} (h : fragments.Assembles root result) :
    fragments.reassemble root = result := by
  unfold reassemble
  cases h with
  | document hroot hintact hparse => simp only [hroot, collect_of_intact hintact, hparse]
  | noDocument hroot hintact hparse => simp only [hroot, collect_of_intact hintact, hparse]
  | noRoot hroot => rw [hroot]; rfl
  | flawed hroot hflaw => simp only [hroot, collect_of_hasFlaw hflaw]

/-- Every chain of links has an end of one of these kinds. -/
theorem exists_assembles (fragments : Fragments) (root : String) : ∃ result, fragments.Assembles root result := by
  cases hroot : fragments.get? root with
  | none => exact ⟨_, .noRoot hroot⟩
  | some piece =>
    rcases fragments.collect_cases 0 piece.totalParts root with ⟨hintact, -⟩ | ⟨flaw, hflaw, -⟩
    · cases hparse : Json.parse? (fragments.textOf root piece.totalParts) with
      | none => exact ⟨_, .noDocument hroot hintact hparse⟩
      | some document => exact ⟨_, .document hroot hintact hparse⟩
    · exact ⟨_, .flawed hroot hflaw⟩

theorem reassemble_eq_iff {result : Except Fault Json} :
    fragments.reassemble root = result ↔ fragments.Assembles root result := by
  refine ⟨?_, Assembles.reassemble_eq⟩
  rintro rfl
  obtain ⟨result, h⟩ := exists_assembles fragments root
  rw [h.reassemble_eq]
  exact h

/-! ## What plays a part -/

/-- Other fragments, with the same texts and links along the chain from `root`
and as many pieces. -/
structure SameChain (fragments others : Fragments) (root : String) : Prop where
  total : (others.get? root).map (·.totalParts) = (fragments.get? root).map (·.totalParts)
  along : ∀ k id, fragments.idAt root k = some id →
    (others.get? id).map (fun piece => (piece.payload, piece.next)) =
      (fragments.get? id).map fun piece => (piece.payload, piece.next)

namespace SameChain

variable {others : Fragments}

theorem next_eq (h : SameChain fragments others root) {k : Nat} (hid : fragments.idAt root k = some id) :
    (others.get? id).bind (·.next) = (fragments.get? id).bind (·.next) := by
  have halong := congrArg (·.bind (·.2)) (h.along k id hid)
  simpa only [Option.bind_map, Function.comp_def] using halong

theorem idAt_eq (h : SameChain fragments others root) (k : Nat) : others.idAt root k = fragments.idAt root k := by
  induction k with
  | zero => rfl
  | succ k ih =>
    rw [idAt, idAt, ih]
    cases hid : fragments.idAt root k with
    | none => rfl
    | some id => exact h.next_eq hid

theorem isSome_eq (h : SameChain fragments others root) {k : Nat} (hid : fragments.idAt root k = some id) :
    (others.get? id).isSome = (fragments.get? id).isSome := by
  have halong := congrArg Option.isSome (h.along k id hid)
  simpa only [Option.isSome_map] using halong

theorem payload_eq (h : SameChain fragments others root) (k : Nat) :
    (others.pieceAt root k).map (·.payload) = (fragments.pieceAt root k).map (·.payload) := by
  rw [pieceAt, pieceAt, h.idAt_eq]
  cases hid : fragments.idAt root k with
  | none => rfl
  | some id =>
    have halong := congrArg (·.map (·.1)) (h.along k id hid)
    simpa only [Option.map_map, Function.comp_def, Option.bind_some] using halong

theorem textOf_eq (h : SameChain fragments others root) (count : Nat) :
    others.textOf root count = fragments.textOf root count := by
  simp only [textOf, h.payload_eq]

theorem intact (h : SameChain fragments others root) {count : Nat} (hintact : fragments.Intact root count) :
    others.Intact root count where
  present k hk := by
    have hpresent := hintact.present k hk
    rw [← Option.isSome_map (f := fun piece : CardFragment => piece.payload)] at hpresent ⊢
    rw [h.payload_eq]
    exact hpresent
  ends := (h.idAt_eq count).trans hintact.ends

theorem hasFlaw (h : SameChain fragments others root) {total : Nat} {flaw : Flaw}
    (hflaw : fragments.HasFlaw root total flaw) : others.HasFlaw root total flaw := by
  cases flaw with
  | missing id =>
    obtain ⟨k, hlt, hid, hnone⟩ := hflaw
    refine ⟨k, hlt, (h.idAt_eq k).trans hid, ?_⟩
    rw [← Option.not_isSome_iff_eq_none, h.isSome_eq hid, hnone]
    exact Bool.false_ne_true
  | tooLong =>
    rw [HasFlaw, h.idAt_eq]
    exact hflaw
  | tooShort found => exact ⟨hflaw.1, h.intact hflaw.2⟩

theorem exists_root (h : SameChain fragments others root) (hroot : fragments.get? root = some piece) :
    ∃ piece', others.get? root = some piece' ∧ piece'.totalParts = piece.totalParts := by
  have htotal := h.total
  rw [hroot, Option.map_some] at htotal
  exact Option.map_eq_some_iff.1 htotal

theorem assembles (h : SameChain fragments others root) {result : Except Fault Json}
    (hresult : fragments.Assembles root result) : others.Assembles root result := by
  cases hresult with
  | document hroot hintact hparse =>
    obtain ⟨piece', hroot', htotal⟩ := h.exists_root hroot
    rw [← htotal] at hintact hparse
    exact .document hroot' (h.intact hintact) (by rw [h.textOf_eq]; exact hparse)
  | noDocument hroot hintact hparse =>
    obtain ⟨piece', hroot', htotal⟩ := h.exists_root hroot
    rw [← htotal] at hintact hparse
    exact .noDocument hroot' (h.intact hintact) (by rw [h.textOf_eq]; exact hparse)
  | noRoot hroot =>
    have htotal := h.total
    rw [hroot, Option.map_none, Option.map_eq_none_iff] at htotal
    exact .noRoot htotal
  | flawed hroot hflaw =>
    obtain ⟨piece', hroot', htotal⟩ := h.exists_root hroot
    rw [← htotal] at hflaw ⊢
    exact .flawed hroot' (h.hasFlaw hflaw)

end SameChain

/-! ## Texts cut into pieces -/

/-- A text cut into parts, each with the id of its event: the piece there has
the text of the part and names the event of the next one, and the first piece
says how many there are. -/
structure CutInto (fragments : Fragments) (root : String) (parts : List (String × String)) : Prop where
  first : parts.head?.map (·.1) = some root
  part : ∀ (k : Nat) (id text : String), parts[k]? = some (id, text) → ∃ piece, fragments.get? id = some piece ∧
    piece.payload = text ∧ piece.next = parts[k + 1]?.map (·.1)
  total : ∀ piece, fragments.get? root = some piece → piece.totalParts = parts.length

/-- The document of event `root` when its text is in one piece. -/
def documentOf (root text : String) : Except Fault Json :=
  match Json.parse? text with
  | some document => .ok document
  | none => .error (.malformedPayload root .notJson)

namespace CutInto

variable {parts : List (String × String)}

theorem idAt_eq (h : fragments.CutInto root parts) (k : Nat) : fragments.idAt root k = parts[k]?.map (·.1) := by
  induction k with
  | zero =>
    rw [idAt, ← h.first, List.head?_eq_getElem?]
  | succ k ih =>
    rw [idAt, ih]
    cases hpart : parts[k]? with
    | none =>
      have hle : parts.length ≤ k := List.getElem?_eq_none_iff.1 hpart
      rw [List.getElem?_eq_none (Nat.le_succ_of_le hle)]
      rfl
    | some part =>
      obtain ⟨piece, hpiece, -, hnext⟩ := h.part k part.1 part.2 hpart
      rw [Option.map_some, Option.bind_some, hpiece, Option.bind_some, hnext]

theorem payload_eq (h : fragments.CutInto root parts) (k : Nat) :
    (fragments.pieceAt root k).map (·.payload) = parts[k]?.map (·.2) := by
  rw [pieceAt, h.idAt_eq]
  cases hpart : parts[k]? with
  | none => rfl
  | some part =>
    obtain ⟨piece, hpiece, htext, -⟩ := h.part k part.1 part.2 hpart
    rw [Option.map_some, Option.bind_some, hpiece, Option.map_some, htext, Option.map_some]

theorem intact (h : fragments.CutInto root parts) : fragments.Intact root parts.length where
  present k hk := by
    rw [← Option.isSome_map (f := fun piece : CardFragment => piece.payload), h.payload_eq, Option.isSome_map,
      List.getElem?_eq_getElem hk]
    rfl
  ends := by rw [h.idAt_eq, List.getElem?_eq_none (Nat.le_refl _), Option.map_none]

theorem textOf_eq (h : fragments.CutInto root parts) :
    fragments.textOf root parts.length = String.join (parts.map (·.2)) := by
  have hall : (List.range parts.length).filterMap (fun k => parts[k]?.map (·.2)) = parts.map (·.2) := by
    clear h
    induction parts with
    | nil => rfl
    | cons part parts ih =>
      rw [List.length_cons, List.range_succ_eq_map, List.filterMap_cons_some (b := part.2) (by rfl),
        List.filterMap_map, List.map_cons, ← ih]
      rfl
  simp only [textOf, h.payload_eq, hall]

theorem exists_root (h : fragments.CutInto root parts) : ∃ piece, fragments.get? root = some piece := by
  obtain ⟨part, hpart, hid⟩ := Option.map_eq_some_iff.1 h.first
  rw [List.head?_eq_getElem?] at hpart
  obtain ⟨piece, hpiece, -⟩ := h.part 0 part.1 part.2 hpart
  rw [hid] at hpiece
  exact ⟨piece, hpiece⟩

/-- The pieces of a text are put together as the text itself is read. -/
theorem reassemble_eq (h : fragments.CutInto root parts) :
    fragments.reassemble root = documentOf root (String.join (parts.map (·.2))) := by
  obtain ⟨piece, hroot⟩ := h.exists_root
  have htotal := h.total piece hroot
  have hintact : fragments.Intact root piece.totalParts := by
    rw [htotal]
    exact h.intact
  have htext : fragments.textOf root piece.totalParts = String.join (parts.map (·.2)) := by
    rw [htotal]
    exact h.textOf_eq
  unfold documentOf
  cases hparse : Json.parse? (String.join (parts.map (·.2))) with
  | none => exact (Assembles.noDocument hroot hintact (by rw [htext]; exact hparse)).reassemble_eq
  | some document => exact (Assembles.document hroot hintact (by rw [htext]; exact hparse)).reassemble_eq

end CutInto

/-- **When a document is put together.** What becomes of it is told by the
chain of links from its first piece (`Assembles`), which always has an end.
Only the texts and links of the pieces on that chain play a part, and the
number the first of them says. So a text cut into pieces, linked in order, is
read as it would be in one piece. -/
theorem reassemble_intact (fragments : Fragments) (root : String) :
    (∀ result, fragments.reassemble root = result ↔ fragments.Assembles root result) ∧
      (∀ others, SameChain fragments others root → others.reassemble root = fragments.reassemble root) ∧
      ∀ parts, fragments.CutInto root parts →
        fragments.reassemble root = documentOf root (String.join (parts.map (·.2))) := by
  refine ⟨fun result => reassemble_eq_iff, fun others hsame => ?_, fun parts hcut => hcut.reassemble_eq⟩
  exact (hsame.assembles (reassemble_eq_iff.1 rfl)).reassemble_eq

/-- A list in three pieces that are stored out of order, with a piece of
another document that links to them. -/
def listPieces : Fragments :=
  [("$f2", ⟨"3]", 0, 9, none⟩), ("$root", ⟨"[1,", 2, 3, some "$f1"⟩), ("$other", ⟨"0", 0, 1, some "$f1"⟩),
   ("$f1", ⟨"2,", 0, 0, some "$f2"⟩)]

theorem reassemble_intact_list :
    listPieces.CutInto "$root" [("$root", "[1,"), ("$f1", "2,"), ("$f2", "3]")] ∧
      (listPieces.reassemble "$root").map Json.compact = .ok "[1,2,3]" := by
  have hcut : listPieces.CutInto "$root" [("$root", "[1,"), ("$f1", "2,"), ("$f2", "3]")] := by
    refine ⟨rfl, ?_, ?_⟩
    · intro k id text hpart
      rcases k with _ | _ | _ | k
      · cases hpart; exact ⟨_, rfl, rfl, rfl⟩
      · cases hpart; exact ⟨_, rfl, rfl, rfl⟩
      · cases hpart; exact ⟨_, rfl, rfl, rfl⟩
      · cases hpart
    · intro piece hroot
      cases hroot
      rfl
  refine ⟨hcut, ?_⟩
  rw [(reassemble_intact listPieces "$root").2.2 _ hcut]
  decide +kernel

/-- Pieces in a circle are one too many, however many there should be. -/
example : reassemble [("$a", ⟨"[", 0, 2, some "$b"⟩), ("$b", ⟨"]", 1, 2, some "$a"⟩)] "$a" =
    .error (.fragmentIntegrity "$a" "chain is longer than 2 parts") := by rfl

end ReplyStream.Fragments
