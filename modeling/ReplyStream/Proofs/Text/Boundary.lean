/-
Cuts between characters, in the bytes of UTF-8. `takeBytes n` is the longest
leading part of at most `n` bytes (`longest_takeBytes`). In the bytes of the
text it is what stands before the last boundary of a character that is not beyond
`n` (`spells_takeBytes`), which is found by going down from `n` (`floorBoundary`); and
what stands between two boundaries is spelled by the bytes between them
(`spells_of_split`).
-/
import ReplyStream.Text.Bytes

namespace ReplyStream.Text

variable {s part : List Char} {text : String} {n : Nat}

/-- An offset in bytes that lies in the text, and not inside a character. -/
def IsBoundary (text : String) (n : Nat) : Prop := String.Pos.Raw.IsValid text ⟨n⟩

/-- The last boundary that is not beyond an offset. -/
structure IsFloor (text : String) (n m : Nat) : Prop where
  boundary : IsBoundary text m
  le : m ≤ n
  last : ∀ k ≤ n, IsBoundary text k → k ≤ m

/-- The last boundary that is not beyond an offset, looked for from there on down. -/
def floorBoundary (text : String) (n : Nat) : Nat :=
  if text.utf8ByteSize ≤ n then text.utf8ByteSize else down n
where
  down : Nat → Nat
    | 0 => 0
    | n + 1 => if String.Pos.Raw.isValid text ⟨n + 1⟩ then n + 1 else down n

/-- Between the boundaries `a` and `b` the bytes of a text spell `part`. -/
structure Spells (text : String) (a b : Nat) (part : List Char) : Prop where
  start : IsBoundary text a
  stop : IsBoundary text b
  bytes : text.toByteArray.extract a b = part.utf8Encode

/-- The longest leading part of at most `n` bytes. -/
structure Longest (n : Nat) (s part : List Char) : Prop where
  leading : part <+: s
  fits : byteLength part ≤ n
  longest : ∀ p, p <+: s → byteLength p ≤ n → p <+: part

theorem longest_takeBytes (n : Nat) (s : List Char) : Longest n s (takeBytes n s) := by
  refine ⟨⟨dropBytes n s, takeBytes_append_dropBytes n s⟩, byteLength_takeBytes_le n s, fun p hp hfits => ?_⟩
  induction s generalizing n p with
  | nil => exact hp
  | cons c s ih =>
    cases p with
    | nil => exact List.nil_prefix
    | cons d p =>
      obtain ⟨rfl, hrest⟩ := List.cons_prefix_cons.1 hp
      rw [byteLength_cons] at hfits
      rw [takeBytes, if_pos (by omega)]
      exact List.cons_prefix_cons.2 ⟨rfl, ih _ p hrest (by omega)⟩

theorem Longest.unique {part' : List Char} (h : Longest n s part) (h' : Longest n s part') : part = part' :=
  List.IsPrefix.eq_of_length_le (h'.longest part h.leading h.fits) (h.longest part' h'.leading h'.fits).length_le

theorem byteLength_eq_zero : byteLength s = 0 ↔ s = [] := by
  cases s with
  | nil => simp
  | cons c s =>
    have := c.utf8Size_pos
    simp only [byteLength_cons, reduceCtorEq, iff_false]
    omega

theorem utf8ByteSize_ofList (s : List Char) : (String.ofList s).utf8ByteSize = byteLength s := by
  induction s with
  | nil => rfl
  | cons c s ih =>
    rw [← List.singleton_append, String.ofList_append, String.utf8ByteSize_append, ih]
    simp

theorem isBoundary_iff : IsBoundary text n ↔ ∃ front, front <+: text.toList ∧ byteLength front = n := by
  rw [IsBoundary, String.Pos.Raw.isValid_iff_exists_take_toList]
  constructor
  · rintro ⟨i, hi⟩
    exact ⟨text.toList.take i, List.take_prefix .., by rw [← utf8ByteSize_ofList, ← hi]⟩
  · rintro ⟨front, hfront, rfl⟩
    exact ⟨front.length, by rw [← List.prefix_iff_eq_take.1 hfront, utf8ByteSize_ofList]⟩

theorem IsFloor.unique {m m' : Nat} (h : IsFloor text n m) (h' : IsFloor text n m') : m = m' :=
  Nat.le_antisymm (h'.last m h.le h.boundary) (h.last m' h'.le h'.boundary)

theorem isFloor_takeBytes (n : Nat) (text : String) : IsFloor text n (byteLength (takeBytes n text.toList)) := by
  have hlongest := longest_takeBytes n text.toList
  refine ⟨isBoundary_iff.2 ⟨_, hlongest.leading, rfl⟩, hlongest.fits, fun k hk hboundary => ?_⟩
  obtain ⟨front, hfront, rfl⟩ := isBoundary_iff.1 hboundary
  obtain ⟨rest, hrest⟩ := hlongest.longest front hfront hk
  rw [← hrest, byteLength_append]
  omega

theorem isFloor_down (text : String) (n : Nat) : IsFloor text n (floorBoundary.down text n) := by
  induction n with
  | zero => exact ⟨isBoundary_iff.2 ⟨[], List.nil_prefix, rfl⟩, Nat.le_refl _, fun k hk _ => hk⟩
  | succ n ih =>
    by_cases hvalid : String.Pos.Raw.isValid text ⟨n + 1⟩ = true
    · rw [floorBoundary.down, if_pos hvalid]
      exact ⟨String.Pos.Raw.isValid_eq_true_iff.1 hvalid, Nat.le_refl _, fun k hk _ => hk⟩
    · rw [floorBoundary.down, if_neg hvalid]
      refine ⟨ih.boundary, Nat.le_succ_of_le ih.le, fun k hk hboundary => ?_⟩
      have hne : k ≠ n + 1 := by
        rintro rfl
        exact hvalid (String.Pos.Raw.isValid_eq_true_iff.2 hboundary)
      exact ih.last k (by omega) hboundary

theorem isFloor_floorBoundary (text : String) (n : Nat) : IsFloor text n (floorBoundary text n) := by
  unfold floorBoundary
  split
  next hbeyond =>
    have hsize : text.utf8ByteSize = byteLength text.toList := by rw [← utf8ByteSize_ofList, String.ofList_toList]
    refine ⟨isBoundary_iff.2 ⟨_, List.prefix_rfl, hsize.symm⟩, hbeyond, fun k _ hboundary => ?_⟩
    obtain ⟨front, ⟨behind, hbehind⟩, rfl⟩ := isBoundary_iff.1 hboundary
    rw [hsize, ← hbehind, byteLength_append]
    omega
  · exact isFloor_down text n

/-- What is taken ends at the boundary that is found. -/
theorem byteLength_takeBytes (n : Nat) (text : String) : byteLength (takeBytes n text.toList) = floorBoundary text n :=
  (isFloor_takeBytes n text).unique (isFloor_floorBoundary text n)

theorem size_utf8Encode (s : List Char) : s.utf8Encode.size = byteLength s := by
  rw [← String.toByteArray_ofList, String.size_toByteArray, utf8ByteSize_ofList]

theorem spells_of_split {before behind : List Char} (h : text.toList = before ++ part ++ behind) :
    Spells text (byteLength before) (byteLength before + byteLength part) part := by
  refine ⟨isBoundary_iff.2 ⟨before, ?_, rfl⟩, isBoundary_iff.2 ⟨before ++ part, ?_, byteLength_append ..⟩, ?_⟩
  · rw [h, List.append_assoc]
    exact List.prefix_append ..
  · rw [h]
    exact List.prefix_append ..
  · have hskip := @ByteArray.extract_append_size_add' before.utf8Encode (part.utf8Encode ++ behind.utf8Encode) 0
      (byteLength part) (byteLength before) (size_utf8Encode before).symm
    rw [Nat.add_zero] at hskip
    rw [← String.utf8Encode_toList, h, List.append_assoc, List.utf8Encode_append, List.utf8Encode_append, hskip]
    exact ByteArray.extract_append_eq_left (size_utf8Encode part).symm

/-- What is taken is the text before that boundary. -/
theorem spells_takeBytes (n : Nat) (text : String) : Spells text 0 (floorBoundary text n) (takeBytes n text.toList) := by
  have hsplit : text.toList = [] ++ takeBytes n text.toList ++ dropBytes n text.toList :=
    (takeBytes_append_dropBytes n text.toList).symm
  have hspells := spells_of_split hsplit
  rwa [byteLength_nil, Nat.zero_add, byteLength_takeBytes] at hspells

theorem spells_dropBytes (n : Nat) (text : String) :
    Spells text (floorBoundary text n) text.utf8ByteSize (dropBytes n text.toList) := by
  have hsplit := takeBytes_append_dropBytes n text.toList
  have hsize : text.utf8ByteSize = floorBoundary text n + byteLength (dropBytes n text.toList) := by
    rw [← byteLength_takeBytes, ← byteLength_append, hsplit, ← utf8ByteSize_ofList, String.ofList_toList]
  have hspells := spells_of_split (hsplit.symm.trans (List.append_nil _).symm)
  rwa [byteLength_takeBytes, ← hsize] at hspells

end ReplyStream.Text
