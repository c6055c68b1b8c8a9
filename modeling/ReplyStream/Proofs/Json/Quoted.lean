/-
Strings written and read again. Each character of a string is read back from
what stands for it between quotes (`stringBody_escape`), so a string is read
back from its text, whatever follows (`string?_string`), and so is an object
of one member whose value is (`value_obj_one`).
-/
import ReplyStream.Json.Read
import ReplyStream.Json.Write

namespace ReplyStream.Json.Reader

theorem unicodeEscape?_control (n : Nat) (h : n < 0x20) (rest : List Char) :
    unicodeEscape? ('0' :: '0' :: Writer.hexDigit (n / 16) :: Writer.hexDigit (n % 16) :: rest) =
      some (Char.ofNat n, rest) := by
  have hdigit : ∀ d < 16, hexDigit? (Writer.hexDigit d) = some d := by decide
  have hzero : hexDigit? '0' = some 0 := by decide
  have hunit : hexUnit? ('0' :: '0' :: Writer.hexDigit (n / 16) :: Writer.hexDigit (n % 16) :: rest) =
      some (n, rest) := by
    simp only [hexUnit?, hzero, hdigit (n / 16) (by omega), hdigit (n % 16) (by omega)]
    show some ((((0 * 16 + 0) * 16 + n / 16) * 16 + n % 16), rest) = _
    rw [show ((0 * 16 + 0) * 16 + n / 16) * 16 + n % 16 = n by omega]
  simp only [unicodeEscape?, hunit, Option.bind_eq_bind, Option.bind_some]
  rw [if_neg (by omega), if_neg (by omega)]

/-- A one-letter escape is read as the character it stands for. -/
theorem stringBody_letter {e c : Char} (he : letterEscape? e = some c) (hu : e ≠ 'u') (fuel : Nat)
    (rest : List Char) :
    stringBody (fuel + 1) ('\\' :: e :: rest) = (stringBody fuel rest).map fun (s, rest) => (c :: s, rest) := by
  rw [stringBody]
  · rw [he]
    cases stringBody fuel rest <;> rfl
  · exact hu

theorem stringBody_control {n : Nat} (h : n < 0x20) (fuel : Nat) (rest : List Char) :
    stringBody (fuel + 1)
        ('\\' :: 'u' :: '0' :: '0' :: Writer.hexDigit (n / 16) :: Writer.hexDigit (n % 16) :: rest) =
      (stringBody fuel rest).map fun (s, rest) => (Char.ofNat n :: s, rest) := by
  rw [stringBody, unicodeEscape?_control n h rest]
  simp only [Option.bind_eq_bind, Option.bind_some]
  cases stringBody fuel rest <;> rfl

theorem stringBody_plain {c : Char} (hquote : c ≠ '"') (hslash : c ≠ '\\') (hcontrol : ¬c.toNat < 0x20)
    (fuel : Nat) (rest : List Char) :
    stringBody (fuel + 1) (c :: rest) = (stringBody fuel rest).map fun (s, rest) => (c :: s, rest) := by
  rw [stringBody]
  · rw [if_neg (by simp [hslash, hcontrol])]
    cases stringBody fuel rest <;> rfl
  · exact hquote
  · exact fun _ h => absurd h hslash
  · exact fun _ _ h => absurd h hslash

/-- A character is read back from what stands for it, and the rest behind it. -/
theorem stringBody_escape (fuel : Nat) (c : Char) (rest : List Char) :
    stringBody (fuel + 1) (Writer.escape c ++ rest) =
      (stringBody fuel rest).map fun (s, rest) => (c :: s, rest) := by
  unfold Writer.escape
  split
  next h => subst h; exact stringBody_letter rfl (by decide) fuel rest
  next hquote =>
  split
  next h => subst h; exact stringBody_letter rfl (by decide) fuel rest
  next hslash =>
  split
  next h => subst h; exact stringBody_letter rfl (by decide) fuel rest
  split
  next h => subst h; exact stringBody_letter rfl (by decide) fuel rest
  split
  next h => subst h; exact stringBody_letter rfl (by decide) fuel rest
  split
  next h => subst h; exact stringBody_letter rfl (by decide) fuel rest
  split
  next h => subst h; exact stringBody_letter rfl (by decide) fuel rest
  split
  next hcontrol =>
    have := stringBody_control hcontrol fuel rest
    rw [Char.ofNat_toNat] at this
    exact this
  next hcontrol => exact stringBody_plain hquote hslash hcontrol fuel rest

/-- A string's characters are read back up to its closing quote. -/
theorem stringBody_flatMap (s : List Char) (fuel : Nat) (hfuel : s.length < fuel) (rest : List Char) :
    stringBody fuel (s.flatMap Writer.escape ++ '"' :: rest) = some (s, rest) := by
  induction s generalizing fuel with
  | nil =>
    obtain ⟨fuel, rfl⟩ : ∃ n, fuel = n + 1 := ⟨fuel - 1, by omega⟩
    rw [List.flatMap_nil, List.nil_append, stringBody]
    simp
  | cons c s ih =>
    obtain ⟨fuel, rfl⟩ : ∃ n, fuel = n + 1 := ⟨fuel - 1, by omega⟩
    rw [List.flatMap_cons, List.append_assoc, stringBody_escape, ih fuel (by simpa using hfuel)]
    rfl

theorem length_le_flatMap_escape (s : List Char) : s.length ≤ (s.flatMap Writer.escape).length := by
  induction s with
  | nil => exact Nat.le_refl _
  | cons c s ih =>
    have hpos : 0 < (Writer.escape c).length := by
      unfold Writer.escape
      repeat' split
      all_goals exact Nat.succ_pos _
    rw [List.flatMap_cons, List.length_append, List.length_cons]
    omega

theorem string?_string (s : String) (rest : List Char) :
    string? (s.toList.flatMap Writer.escape ++ '"' :: rest) = some (s, rest) := by
  have hlength := length_le_flatMap_escape s.toList
  rw [string?, stringBody_flatMap _ _ (by rw [List.length_append]; omega), Option.map_some]
  simp only [String.ofList_toList]

/-! ## Values -/

theorem skipSpace_of_not_isSpace {c : Char} (h : isSpace c = false) (rest : List Char) :
    skipSpace (c :: rest) = c :: rest := by
  rw [skipSpace, List.dropWhile_cons_of_neg (by rw [h]; exact Bool.false_ne_true)]

theorem value_str (fuel depth : Nat) (s : String) (rest : List Char) :
    value (fuel + 1) depth (Writer.value (.str s) ++ rest) = some (.str s, rest) := by
  have htext : Writer.value (.str s) ++ rest = '"' :: (s.toList.flatMap Writer.escape ++ '"' :: rest) := by
    simp [Writer.value, Writer.string]
  rw [htext, value, skipSpace_of_not_isSpace (by decide)]
  simp only [string?_string, Option.map_some]

theorem value_obj_one {n d : Nat} {v : Json}
    (hv : ∀ rest, value n d (Writer.value v ++ rest) = some (v, rest)) (key : String) (rest : List Char) :
    value (n + 2) (d + 1) (Writer.value (.obj [(key, v)]) ++ rest) = some (.obj [(key, v)], rest) := by
  have htext : Writer.value (.obj [(key, v)]) ++ rest =
      '{' :: '"' :: (key.toList.flatMap Writer.escape ++ '"' :: ':' :: (Writer.value v ++ '}' :: rest)) := by
    simp [Writer.value, Writer.members, Writer.string]
  have hmembers : members (n + 1) d
      ('"' :: (key.toList.flatMap Writer.escape ++ '"' :: ':' :: (Writer.value v ++ '}' :: rest))) =
        some ([(key, v)], rest) := by
    rw [members, skipSpace_of_not_isSpace (by decide)]
    simp only [string?_string, skipSpace_of_not_isSpace (c := ':') (by decide), hv,
      skipSpace_of_not_isSpace (c := '}') (by decide)]
  rw [htext, value, skipSpace_of_not_isSpace (by decide)]
  simp only [Nat.add_one_ne_zero, if_false, skipSpace_of_not_isSpace (c := '"') (by decide),
    Nat.add_sub_cancel]
  split
  next h => cases h
  next => rw [hmembers]; rfl

end ReplyStream.Json.Reader
