/-
Trimming. A text is what it is trimmed to with blanks around it, and whatever
blanks stand around a text, it is trimmed to the same (`trim_surrounded`).
What comes behind a text is either blank, and trimmed away, or brings back
the blanks in front of it (`trimEnd_append`); so a text that grows is trimmed
to more and more (`trimEnd_prefix_trimEnd`).
-/
import Mathlib.Data.List.DropRight
import ReplyStream.Text.Blank

namespace ReplyStream.Text

variable {s t u : List Char} {c : Char}

/-! ## The end -/

theorem trimEnd_eq_rdropWhile (s : List Char) : trimEnd s = s.rdropWhile isBlank := rfl

theorem trimEnd_isPrefix (s : List Char) : trimEnd s <+: s := List.rdropWhile_prefix isBlank s

theorem trimEnd_append_blank (s : List Char) (h : isBlankText t = true) : trimEnd (s ++ t) = trimEnd s := by
  rw [trimEnd, trimEnd, List.reverse_append, List.dropWhile_append_of_pos]
  intro c hc
  exact List.all_eq_true.1 h c (List.mem_reverse.1 hc)

theorem trimEnd_append (s : List Char) (h : isBlankText t = false) : trimEnd (s ++ t) = s ++ trimEnd t := by
  have hsome : (t.reverse.dropWhile isBlank).isEmpty = false := by
    simp only [isBlankText, List.all_eq_false] at h
    obtain ⟨c, hc, hblank⟩ := h
    rw [List.isEmpty_eq_false_iff, Ne, List.dropWhile_eq_nil_iff]
    exact fun hall => hblank (hall c (List.mem_reverse.2 hc))
  rw [trimEnd, List.reverse_append, List.dropWhile_append, hsome, if_neg Bool.false_ne_true, List.reverse_append,
    List.reverse_reverse, trimEnd]

theorem trimEnd_prefix_trimEnd (h : s <+: t) : trimEnd s <+: trimEnd t := by
  obtain ⟨more, rfl⟩ := h
  cases hmore : isBlankText more with
  | true => exact (trimEnd_append_blank s hmore).symm ▸ List.prefix_rfl
  | false =>
    rw [trimEnd_append s hmore]
    exact (trimEnd_isPrefix s).trans (List.prefix_append ..)

theorem trimEnd_of_getLast? (h : s.getLast? = some c) (hc : isBlank c = false) : trimEnd s = s := by
  rw [trimEnd_eq_rdropWhile, List.rdropWhile_eq_self_iff]
  intro hs
  rw [List.getLast?_eq_some_getLast hs] at h
  cases h
  simpa using hc

@[simp] theorem trimEnd_trimEnd (s : List Char) : trimEnd (trimEnd s) = trimEnd s := List.rdropWhile_idempotent ..

theorem exists_trimEnd (s : List Char) : ∃ blanks, isBlankText blanks = true ∧ s = trimEnd s ++ blanks := by
  refine ⟨s.rtakeWhile isBlank, ?_, (List.rdropWhile_append_rtakeWhile).symm⟩
  exact List.all_eq_true.2 fun c hc => List.mem_rtakeWhile_imp hc

theorem trimEnd_append_of_getLast? (h : s.getLast? = some c) (hc : isBlank c = false) (t : List Char) :
    trimEnd (s ++ t) = s ++ trimEnd t := by
  cases ht : isBlankText t with
  | true =>
    have hnil : trimEnd t = [] := by
      rw [← List.nil_append t, trimEnd_append_blank [] ht]
      rfl
    rw [trimEnd_append_blank s ht, trimEnd_of_getLast? h hc, hnil, List.append_nil]
  | false => exact trimEnd_append s ht

/-! ## The start -/

theorem trimStart_eq_nil : trimStart s = [] ↔ isBlankText s = true := by
  rw [trimStart, List.dropWhile_eq_nil_iff, isBlankText, List.all_eq_true]

theorem trimStart_append_blank (t : List Char) (h : isBlankText s = true) : trimStart (s ++ t) = trimStart t := by
  rw [trimStart, List.dropWhile_append_of_pos (fun c hc => List.all_eq_true.1 h c hc), trimStart]

theorem trimStart_append (t : List Char) (h : isBlankText s = false) : trimStart (s ++ t) = trimStart s ++ t := by
  have hsome : (s.dropWhile isBlank).isEmpty = false := by
    rw [List.isEmpty_eq_false_iff]
    intro hnil
    rw [trimStart_eq_nil.1 hnil] at h
    cases h
  rw [trimStart, List.dropWhile_append, hsome, if_neg Bool.false_ne_true, trimStart]

theorem trimStart_of_head? (h : s.head? = some c) (hc : isBlank c = false) : trimStart s = s := by
  obtain ⟨s, rfl⟩ := List.head?_eq_some_iff.1 h
  exact List.dropWhile_cons_of_neg (by simp [hc])

theorem trimStart_append_of_head? (s : List Char) (h : t.head? = some c) (hc : isBlank c = false) :
    trimStart (s ++ t) = trimStart s ++ t := by
  cases hs : isBlankText s with
  | true => rw [trimStart_append_blank t hs, trimStart_of_head? h hc, trimStart_eq_nil.2 hs, List.nil_append]
  | false => exact trimStart_append t hs

theorem isBlank_of_head?_trimStart (h : (trimStart s).head? = some c) : isBlank c = false := by
  have hnot := List.head?_dropWhile_not isBlank s
  rw [trimStart] at h
  rw [h] at hnot
  simpa using hnot

theorem exists_trimStart (s : List Char) : ∃ blanks, isBlankText blanks = true ∧ s = blanks ++ trimStart s := by
  refine ⟨s.takeWhile isBlank, ?_, (List.takeWhile_append_dropWhile).symm⟩
  exact List.all_eq_true.2 fun c hc => List.mem_takeWhile_imp hc

/-! ## Both -/

theorem trim_of_blank (h : isBlankText s = true) : trim s = [] := by
  rw [trim, trimStart_eq_nil.2 h]
  rfl

theorem trim_eq_nil : trim s = [] ↔ isBlankText s = true := by
  refine ⟨fun h => ?_, trim_of_blank⟩
  obtain ⟨before, hbefore, hs⟩ := exists_trimStart s
  obtain ⟨behind, hbehind, hstart⟩ := exists_trimEnd (trimStart s)
  rw [show trimEnd (trimStart s) = [] from h, List.nil_append] at hstart
  rw [hs, hstart, isBlankText, List.all_append, Bool.and_eq_true]
  exact ⟨hbefore, hbehind⟩

theorem trim_of_prefix (h : u <+: trimStart s) : trim u = trimEnd u := by
  obtain ⟨rest, hrest⟩ := h
  cases u with
  | nil => rfl
  | cons c u =>
    have hc : isBlank c = false := by
      refine isBlank_of_head?_trimStart (s := s) ?_
      rw [← hrest]
      rfl
    rw [trim, trimStart_of_head? rfl hc]

/-- Blanks around a text make no difference to what it is trimmed to. -/
theorem trim_surrounded {before behind : List Char} (hbefore : isBlankText before = true)
    (hbehind : isBlankText behind = true) (s : List Char) : trim (before ++ s ++ behind) = trim s := by
  rw [trim, List.append_assoc, trimStart_append_blank _ hbefore, trim]
  cases hs : isBlankText s with
  | true => rw [trimStart_append_blank _ hs, trimStart_eq_nil.2 hs, trimStart_eq_nil.2 hbehind]
  | false => rw [trimStart_append _ hs, trimEnd_append_blank _ hbehind]

theorem trim_trimEnd (s : List Char) : trim (trimEnd s) = trim s := by
  obtain ⟨blanks, hblanks, hs⟩ := exists_trimEnd s
  conv_rhs => rw [hs]
  exact (trim_surrounded (show isBlankText [] = true from rfl) hblanks (trimEnd s)).symm

end ReplyStream.Text
