/-
Patterns in the bytes of a text. Whoever searches bytes knows nothing of
characters, and need not: a byte of UTF-8 shows whether a character begins
with it, so where the first bytes of a pattern stand a character begins
(`MatchesAt.isBoundary`). Hence a pattern occurs in the bytes where it
occurs in the characters and nowhere else (`occursAt_iff`).
-/
import ReplyStream.Proofs.Text.Boundary

namespace ReplyStream.Text

variable {pattern s t front behind part content before rest : List Char} {text : String} {i n : Nat}

/-- From the byte `i` on, `n` bytes of a text are the first `n` of a pattern. -/
structure MatchesAt (pattern : List Char) (text : String) (i n : Nat) : Prop where
  inText : i + n ≤ text.utf8ByteSize
  inPattern : n ≤ byteLength pattern
  bytes : text.toByteArray.extract i (i + n) = pattern.utf8Encode.extract 0 n

/-- All bytes of a pattern stand in a text from the byte `i` on. -/
def OccursAt (pattern : List Char) (text : String) (i : Nat) : Prop :=
  MatchesAt pattern text i (byteLength pattern)

/-! ## Lengths -/

theorem byteLength_pos (h : s ≠ []) : 0 < byteLength s :=
  Nat.pos_of_ne_zero fun hzero => h (byteLength_eq_zero.1 hzero)

theorem byteLength_le_of_isPrefix (h : s <+: t) : byteLength s ≤ byteLength t := by
  obtain ⟨rest, rfl⟩ := h
  rw [byteLength_append]
  exact Nat.le_add_right _ _

theorem byteLength_le_of_isSuffix (h : s <:+ t) : byteLength s ≤ byteLength t := by
  obtain ⟨before, rfl⟩ := h
  rw [byteLength_append]
  exact Nat.le_add_left _ _

theorem byteLength_lt_of_isPrefix (h : s <+: t) (hne : s ≠ t) : byteLength s < byteLength t := by
  obtain ⟨rest, rfl⟩ := h
  have hrest : rest ≠ [] := fun hnil => hne (by rw [hnil, List.append_nil])
  have := byteLength_pos hrest
  rw [byteLength_append]
  omega

theorem prefix_of_byteLength_le {whole : List Char} (hs : s <+: whole) (ht : t <+: whole)
    (hle : byteLength s ≤ byteLength t) : s <+: t := by
  rcases List.prefix_or_prefix_of_prefix hs ht with hst | hts
  · exact hst
  · by_cases heq : t = s
    · exact heq ▸ List.prefix_rfl
    · exact absurd (byteLength_lt_of_isPrefix hts heq) (Nat.not_lt_of_le hle)

/-- A place that does not lie in the front of a text lies behind it. -/
theorem exists_between (h : front ++ content = before ++ rest) (hle : byteLength front ≤ byteLength before) :
    ∃ between, before = front ++ between ∧ content = between ++ rest := by
  obtain ⟨between, rfl⟩ := prefix_of_byteLength_le (List.prefix_append front content) ⟨rest, h.symm⟩ hle
  rw [List.append_assoc] at h
  exact ⟨between, rfl, List.append_cancel_left h⟩

theorem prefix_of_bytes (h : s.utf8Encode = t.utf8Encode.extract 0 (byteLength s)) : s <+: t := by
  have hfits : byteLength s ≤ t.utf8Encode.size := by
    have hsize := congrArg ByteArray.size h
    rw [ByteArray.size_extract, size_utf8Encode] at hsize
    omega
  apply List.isPrefix_of_utf8Encode_append_eq_utf8Encode (t.utf8Encode.extract (byteLength s) t.utf8Encode.size)
  calc s.utf8Encode ++ t.utf8Encode.extract (byteLength s) t.utf8Encode.size
      = t.utf8Encode.extract 0 (byteLength s) ++ t.utf8Encode.extract (byteLength s) t.utf8Encode.size := by rw [← h]
    _ = t.utf8Encode.extract 0 t.utf8Encode.size :=
      (ByteArray.extract_eq_extract_append_extract _ (Nat.zero_le _) hfits).symm
    _ = t.utf8Encode := ByteArray.extract_zero_size

/-! ## Where the first bytes of a pattern stand -/

/-- Where the first bytes of a pattern stand, a character begins. -/
theorem MatchesAt.isBoundary (h : MatchesAt pattern text i n) (hpos : 0 < n) : IsBoundary text i := by
  have hin : i + n ≤ text.toByteArray.size := h.inText
  have hpattern : 0 + n ≤ pattern.utf8Encode.size := by
    rw [Nat.zero_add, size_utf8Encode]
    exact h.inPattern
  have hbytes : text.toByteArray.extract i (i + n) = pattern.utf8Encode.extract 0 (0 + n) := by
    rw [Nat.zero_add]
    exact h.bytes
  have hfirst := (ByteArray.extract_eq_extract_iff_getElem hin hpattern).1 hbytes 0 hpos
  refine String.Pos.Raw.isValid_iff_isUTF8FirstByte.2 (.inr ⟨?_, ?_⟩)
  · exact Nat.lt_of_lt_of_le (Nat.lt_add_of_pos_right hpos) h.inText
  · rw [String.getUTF8Byte_eq_getElem]
    exact hfirst ▸ ByteArray.isValidUTF8_utf8Encode.isUTF8FirstByte_getElem_zero (by omega)

/-- The text around such a place. -/
theorem MatchesAt.split (h : MatchesAt pattern text i n) (hpos : 0 < n) :
    ∃ front behind, text.toList = front ++ behind ∧ byteLength front = i ∧
      behind.utf8Encode.extract 0 n = pattern.utf8Encode.extract 0 n := by
  obtain ⟨front, ⟨behind, hsplit⟩, rfl⟩ := isBoundary_iff.1 (h.isBoundary hpos)
  have hbytes : text.toByteArray = front.utf8Encode ++ behind.utf8Encode := by
    rw [← String.utf8Encode_toList, ← hsplit, List.utf8Encode_append]
  have hskip := @ByteArray.extract_append_size_add' front.utf8Encode behind.utf8Encode 0 n (byteLength front)
    (size_utf8Encode front).symm
  refine ⟨front, behind, hsplit.symm, rfl, ?_⟩
  rw [← hskip, ← hbytes]
  exact h.bytes

theorem matchesAt_of_split (h : text.toList = front ++ (part ++ behind)) (hpart : part <+: pattern) :
    MatchesAt pattern text (byteLength front) (byteLength part) := by
  have hsize : text.utf8ByteSize = byteLength text.toList := by rw [← utf8ByteSize_ofList, String.ofList_toList]
  refine ⟨?_, byteLength_le_of_isPrefix hpart, ?_⟩
  · rw [hsize, h, byteLength_append, byteLength_append]
    omega
  · obtain ⟨rest, rfl⟩ := hpart
    rw [(spells_of_split (by rw [h, List.append_assoc])).bytes, List.utf8Encode_append]
    exact (ByteArray.extract_append_eq_left (size_utf8Encode part).symm).symm

/-- A text whose last bytes are the first of a pattern ends with the first
characters of it. -/
theorem MatchesAt.suffix (h : MatchesAt pattern text i n) (hpos : 0 < n) (hend : i + n = text.utf8ByteSize) :
    ∃ front part, text.toList = front ++ part ∧ byteLength part = n ∧ part <+: pattern := by
  obtain ⟨front, part, hsplit, rfl, hbytes⟩ := h.split hpos
  obtain rfl : byteLength part = n := by
    rw [← String.ofList_toList (s := text), utf8ByteSize_ofList, hsplit, byteLength_append] at hend
    omega
  refine ⟨front, part, hsplit, rfl, prefix_of_bytes ?_⟩
  rw [← hbytes, ← size_utf8Encode, ByteArray.extract_zero_size]

/-! ## Occurrences -/

/-- A pattern occurs in the bytes where it occurs in the characters. -/
theorem occursAt_iff (hne : pattern ≠ []) :
    OccursAt pattern text i ↔ ∃ front behind, text.toList = front ++ (pattern ++ behind) ∧ byteLength front = i := by
  constructor
  · intro h
    obtain ⟨front, behind, hsplit, hfront, hbytes⟩ := h.split (byteLength_pos hne)
    obtain ⟨rest, rfl⟩ : pattern <+: behind := by
      apply prefix_of_bytes
      rw [hbytes, ← size_utf8Encode, ByteArray.extract_zero_size]
    exact ⟨front, rest, hsplit, hfront⟩
  · rintro ⟨front, behind, hsplit, rfl⟩
    exact matchesAt_of_split hsplit List.prefix_rfl

theorem OccursAt.boundaries (h : OccursAt pattern text i) (hne : pattern ≠ []) :
    IsBoundary text i ∧ IsBoundary text (i + byteLength pattern) := by
  obtain ⟨front, behind, hsplit, rfl⟩ := (occursAt_iff hne).1 h
  refine ⟨isBoundary_iff.2 ⟨front, ⟨_, hsplit.symm⟩, rfl⟩, isBoundary_iff.2 ⟨front ++ pattern, ⟨behind, ?_⟩, ?_⟩⟩
  · rw [hsplit, List.append_assoc]
  · rw [byteLength_append]

/-- An occurrence that does not begin in the front of a text lies behind it. -/
theorem OccursAt.split_behind (h : OccursAt pattern (String.ofList (front ++ content)) i) (hne : pattern ≠ [])
    (hfrom : byteLength front ≤ i) :
    ∃ before rest, content = before ++ (pattern ++ rest) ∧ byteLength (front ++ before) = i := by
  obtain ⟨before, rest, hsplit, rfl⟩ := (occursAt_iff hne).1 h
  rw [String.toList_ofList] at hsplit
  obtain ⟨between, rfl, hcontent⟩ := exists_between hsplit hfrom
  exact ⟨between, rest, hcontent, rfl⟩

theorem matchesAt_append (more : String) (hin : i + n ≤ text.utf8ByteSize) :
    MatchesAt pattern (text ++ more) i n ↔ MatchesAt pattern text i n := by
  have hbytes : (text ++ more).toByteArray.extract i (i + n) = text.toByteArray.extract i (i + n) := by
    have hnone : more.toByteArray.extract (i - text.toByteArray.size) (i + n - text.toByteArray.size) =
        ByteArray.empty := by
      rw [ByteArray.extract_eq_empty_iff, String.size_toByteArray]
      omega
    rw [String.toByteArray_append, ByteArray.extract_append, hnone, ByteArray.append_empty]
  constructor
  · rintro ⟨-, hshort, h⟩
    exact ⟨hin, hshort, hbytes ▸ h⟩
  · rintro ⟨-, hshort, h⟩
    refine ⟨?_, hshort, hbytes.trans h⟩
    rw [String.utf8ByteSize_append]
    omega

theorem OccursAt.append (h : OccursAt pattern text i) (more : String) : OccursAt pattern (text ++ more) i :=
  (matchesAt_append more h.inText).2 h

end ReplyStream.Text
