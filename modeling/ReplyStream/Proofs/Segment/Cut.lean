/-
Where a delimiter first occurs in a text (`Leftmost`), and what may be held
back while the text is still coming in.

A place is passed (`Passed`) when no occurrence can start before it any more,
however the text goes on. That is what holding back is for: everything in
front of the held end is passed (`Passed.release`), and a delimiter that is
found behind passed text is the leftmost of the whole (`Leftmost.behind`).
-/
import ReplyStream.Segment.Basic

namespace ReplyStream

variable {delimiter s t before rest content input : List Char}

/-- The delimiter occurs nowhere; an empty one never does. -/
def Absent (delimiter s : List Char) : Prop := delimiter ≠ [] → ¬ delimiter <:+: s

/-- The first occurrence of the delimiter: what stands before it, and the rest
behind it. -/
structure Leftmost (delimiter s before rest : List Char) : Prop where
  nonempty : delimiter ≠ []
  here : s = before ++ (delimiter ++ rest)
  first : ∀ before' rest', s = before' ++ (delimiter ++ rest') → before.length ≤ before'.length

/-- No occurrence starts in the content, whatever comes behind the input. -/
def Passed (delimiter content input : List Char) : Prop :=
  ∀ t before rest, delimiter ≠ [] → content ++ (input ++ t) = before ++ (delimiter ++ rest) →
    content.length ≤ before.length

/-! ## The first occurrence -/

theorem absent_nil (delimiter : List Char) : Absent delimiter [] :=
  fun hne hinfix => hne (List.infix_nil.1 hinfix)

theorem Leftmost.not_absent (h : Leftmost delimiter s before rest) : ¬ Absent delimiter s := by
  intro habsent
  refine habsent h.nonempty ?_
  rw [h.here]
  exact List.infix_append' before delimiter rest

theorem Leftmost.unique {before' rest' : List Char} (h : Leftmost delimiter s before rest)
    (h' : Leftmost delimiter s before' rest') : before' = before ∧ rest' = rest := by
  have hlength : before'.length = before.length :=
    Nat.le_antisymm (h'.first before rest h.here) (h.first before' rest' h'.here)
  obtain ⟨hbefore, hrest⟩ := List.append_inj (h'.here.symm.trans h.here) hlength
  exact ⟨hbefore, List.append_cancel_left hrest⟩

theorem not_prefix_of_not_found {c : Char} (h : ¬ (!delimiter.isEmpty && delimiter.isPrefixOf (c :: s)) = true)
    (hne : delimiter ≠ []) : ¬ delimiter <+: c :: s := by
  intro hstarts
  exact h (by simp [hne, hstarts])

theorem leftmost_of_cut (h : cut delimiter s = some (before, rest)) : Leftmost delimiter s before rest := by
  induction s generalizing before with
  | nil => cases h
  | cons c s ih =>
    rw [cut] at h
    split at h
    next hfound =>
      obtain ⟨hne, hstarts⟩ : delimiter ≠ [] ∧ delimiter <+: c :: s := by simpa using hfound
      obtain ⟨rest', hrest⟩ := hstarts
      cases h
      refine ⟨hne, ?_, fun _ _ _ => Nat.zero_le _⟩
      rw [← hrest, List.drop_left, List.nil_append]
    next hnot =>
      obtain ⟨⟨before', rest'⟩, hcut, heq⟩ := Option.map_eq_some_iff.1 h
      cases heq
      have hleft := ih hcut
      refine ⟨hleft.nonempty, congrArg (c :: ·) hleft.here, ?_⟩
      intro b r hsplit
      cases b with
      | nil => exact absurd ⟨r, hsplit.symm⟩ (not_prefix_of_not_found hnot hleft.nonempty)
      | cons c' b =>
        injection hsplit with _ hsplit
        exact Nat.succ_le_succ (hleft.first b r hsplit)

theorem absent_of_cut (h : cut delimiter s = none) : Absent delimiter s := by
  induction s with
  | nil => exact absent_nil delimiter
  | cons c s ih =>
    rw [cut] at h
    split at h
    next => cases h
    next hnot =>
      intro hne hinfix
      rcases List.infix_cons_iff.1 hinfix with hstarts | hinfix
      · exact not_prefix_of_not_found hnot hne hstarts
      · exact ih (Option.map_eq_none_iff.1 h) hne hinfix

theorem Leftmost.append (h : Leftmost delimiter s before rest) (t : List Char) :
    Leftmost delimiter (s ++ t) before (rest ++ t) := by
  refine ⟨h.nonempty, by simp only [h.here, List.append_assoc], ?_⟩
  intro b r hsplit
  rw [h.here, List.append_assoc] at hsplit
  rcases List.append_eq_append_iff.1 hsplit with ⟨more, rfl, -⟩ | ⟨more, rfl, hmore⟩
  · exact List.length_append ▸ Nat.le_add_right _ _
  -- an earlier occurrence would end before the first one does
  · have hinside : delimiter <+: more ++ delimiter := by
      refine List.prefix_of_prefix_length_le ⟨r, rfl⟩ ⟨rest ++ t, ?_⟩ ?_
      · rw [hmore, List.append_assoc, List.append_assoc]
      · exact List.length_append ▸ Nat.le_add_left _ _
    obtain ⟨r', hr'⟩ := hinside
    refine h.first b (r' ++ rest) ?_
    rw [h.here, List.append_assoc, ← List.append_assoc more, ← hr', List.append_assoc]

/-! ## What is passed -/

theorem passed_nil (delimiter input : List Char) : Passed delimiter [] input :=
  fun _ _ _ _ _ => Nat.zero_le _

theorem Passed.append (h : Passed delimiter content input) (token : List Char) :
    Passed delimiter content (input ++ token) := by
  intro t b r hne hsplit
  exact h (token ++ t) b r hne (by rw [← hsplit, List.append_assoc])

/-- An occurrence in the whole lies behind the passed content. -/
theorem Passed.split (h : Passed delimiter content input) (hne : delimiter ≠ [])
    (hsplit : content ++ (input ++ t) = before ++ (delimiter ++ rest)) :
    ∃ before', before = content ++ before' ∧ input ++ t = before' ++ (delimiter ++ rest) := by
  have hlength := h t before rest hne hsplit
  rcases List.append_eq_append_iff.1 hsplit with ⟨before', hbefore, hinput⟩ | ⟨more, hcontent, hdelimiter⟩
  · exact ⟨before', hbefore, hinput⟩
  · obtain rfl : more = [] := by
      rw [hcontent, List.length_append] at hlength
      exact List.eq_nil_of_length_eq_zero (by omega)
    exact ⟨[], by simpa using hcontent.symm, hdelimiter.symm⟩

theorem Passed.absent (h : Passed delimiter content input) (habsent : Absent delimiter input) :
    Absent delimiter (content ++ input) := by
  rintro hne ⟨b, r, hsplit⟩
  rw [List.append_assoc] at hsplit
  obtain ⟨b', -, hinput⟩ := h.split (t := []) hne (by rw [List.append_nil, hsplit])
  refine habsent hne ?_
  rw [← List.append_nil input, hinput]
  exact List.infix_append' b' delimiter r

/-- The first occurrence behind passed content is the first of the whole. -/
theorem Passed.leftmost (h : Passed delimiter content input) (hleft : Leftmost delimiter input before rest)
    (t : List Char) : Leftmost delimiter (content ++ (input ++ t)) (content ++ before) (rest ++ t) := by
  have hmore := hleft.append t
  refine ⟨hleft.nonempty, by rw [hmore.here, List.append_assoc], ?_⟩
  intro b r hsplit
  obtain ⟨b', rfl, hinput⟩ := h.split hleft.nonempty hsplit
  rw [List.length_append, List.length_append]
  exact Nat.add_le_add_left (hmore.first b' r hinput) _

theorem Passed.prefix_before (h : Passed delimiter content input)
    (hleft : Leftmost delimiter (content ++ (input ++ t)) before rest) : content <+: before := by
  obtain ⟨before', rfl, -⟩ := h.split hleft.nonempty hleft.here
  exact ⟨before', rfl⟩

/-! ## Holding back -/

/-- An ending that may still become the delimiter, or nothing. -/
def MayBecome (delimiter s : List Char) : Prop := s = [] ∨ isProperStart delimiter s = true

theorem isProperStart_iff : isProperStart delimiter s = true ↔ s <+: delimiter ∧ s.length < delimiter.length := by
  simp [isProperStart]

theorem MayBecome.absent (h : MayBecome delimiter s) : Absent delimiter s := by
  intro hne hinfix
  rcases h with rfl | hstart
  · exact hne (List.infix_nil.1 hinfix)
  · exact absurd hinfix.length_le (Nat.not_le_of_lt (isProperStart_iff.1 hstart).2)

theorem holdBack_append (delimiter s : List Char) : (holdBack delimiter s).1 ++ (holdBack delimiter s).2 = s := by
  induction s with
  | nil => rfl
  | cons c s ih =>
    rw [holdBack]
    split
    · rfl
    · exact congrArg (c :: ·) ih

theorem holdBack_length_le (delimiter s : List Char) : (holdBack delimiter s).1.length ≤ s.length := by
  have happend := congrArg List.length (holdBack_append delimiter s)
  rw [List.length_append] at happend
  omega

theorem mayBecome_holdBack (delimiter s : List Char) : MayBecome delimiter (holdBack delimiter s).2 := by
  induction s with
  | nil => exact Or.inl rfl
  | cons c s ih =>
    rw [holdBack]
    split
    next hstart => exact Or.inr hstart
    next => exact ih

theorem holdBack_longest {ending : List Char} (hs : s = before ++ ending) (hne : ending ≠ [])
    (hstart : isProperStart delimiter ending = true) : (holdBack delimiter s).1.length ≤ before.length := by
  induction s generalizing before with
  | nil => exact absurd (List.append_eq_nil_iff.1 hs.symm).2 hne
  | cons c s ih =>
    rw [holdBack]
    split
    next => exact Nat.zero_le _
    next hnot =>
      cases before with
      | nil =>
        rw [List.nil_append] at hs
        exact absurd (hs ▸ hstart) hnot
      | cons c' before =>
        injection hs with _ hs
        exact Nat.succ_le_succ (ih hs)

/-- An occurrence that ends behind the input starts with an ending of it that
may become the delimiter. -/
theorem isProperStart_of_runs_over {ending : List Char} (habsent : Absent delimiter (before ++ ending))
    (hne : delimiter ≠ []) (hends : ending ++ t = delimiter ++ rest) : isProperStart delimiter ending = true := by
  rw [isProperStart_iff]
  rcases List.append_eq_append_iff.1 hends with ⟨more, hdelimiter, -⟩ | ⟨more, hending, -⟩
  · refine ⟨⟨more, hdelimiter.symm⟩, ?_⟩
    have hmore : more ≠ [] := by
      rintro rfl
      rw [List.append_nil] at hdelimiter
      exact habsent hne (hdelimiter ▸ (List.suffix_append before ending).isInfix)
    rw [hdelimiter, List.length_append]
    have := List.length_pos_iff.2 hmore
    omega
  · exact absurd (hending ▸ List.infix_append' before delimiter more) (habsent hne)

/-- Where the delimiter does not occur, all is passed but the end that is
held back. -/
theorem Passed.release (h : Passed delimiter content input) (habsent : Absent delimiter input) :
    Passed delimiter (content ++ (holdBack delimiter input).1) (holdBack delimiter input).2 := by
  intro t b r hne hsplit
  rw [List.append_assoc, ← List.append_assoc _ _ t, holdBack_append] at hsplit
  obtain ⟨b', rfl, hinput⟩ := h.split hne hsplit
  rw [List.length_append, List.length_append]
  refine Nat.add_le_add_left ?_ _
  -- the occurrence starts behind the input or in it
  rcases List.append_eq_append_iff.1 hinput with ⟨more, rfl, -⟩ | ⟨ending, hending, hruns⟩
  · rw [List.length_append]
    exact Nat.le_trans (holdBack_length_le delimiter input) (Nat.le_add_right _ _)
  · cases ending with
    | nil =>
      rw [List.append_nil] at hending
      exact hending ▸ holdBack_length_le delimiter input
    | cons c ending =>
      have hstart := isProperStart_of_runs_over (hending ▸ habsent) hne hruns.symm
      exact holdBack_longest hending (List.cons_ne_nil c ending) hstart

end ReplyStream
