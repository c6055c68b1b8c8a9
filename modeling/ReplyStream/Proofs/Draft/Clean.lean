/-
What becomes of a cleaned answer when more text comes in behind it. As a rule
it grows. It can only fall back where the text ended in the middle of a mark
that `clean` takes off: half a tag, or in a fence that holds something half a
closing fence (`HalfMark`). What was there before the half mark stays
(`clean_grows`).

`clean` works from the outside in: blanks, the opening fence, the closing
fence, the tag. Each of these steps grows with its text, except that a mark
at the end goes when it is complete (`unmark_grows`).
-/
import ReplyStream.Draft.Clean
import ReplyStream.Proofs.Text.Trim

namespace ReplyStream.Draft

open Text (isBlank isBlankText trim trimStart trimEnd)

variable {s t x y a inner mark came missing : List Char}

/-- A mark cut in two: what has come of it, and what is still missing. -/
structure Half (mark came missing : List Char) : Prop where
  mark : came ++ missing = mark
  came : came ≠ []
  missing : missing ≠ []

/-- What came behind `a` is half a mark. Behind any text it may be the tag,
be it at the end or in an opening fence; a closing fence only counts behind
an opening one with something between them. -/
inductive HalfMark (a : List Char) : List Char → List Char → Prop where
  | tag {came missing : List Char} : Half fenceTag came missing → HalfMark a came missing
  | fence {inner came missing : List Char} : Half closingFence came missing → trimStart a = openingFence ++ inner →
      isBlankText inner = false → inner.getLast? ≠ some '`' → HalfMark a came missing

/-- `s` is `a` with half a mark behind it, and `t` begins with the other half. -/
def Completes (s t a : List Char) : Prop :=
  ∃ came missing, s = a ++ came ∧ HalfMark a came missing ∧ missing <+: t

/-! ## Marks -/

theorem fenceTag_eq : fenceTag = ['j', 's', 'o', 'n'] := rfl

theorem closingFence_eq : closingFence = ['`', '`', '`'] := rfl

theorem openingFence_eq : openingFence = closingFence ++ fenceTag := rfl

theorem Half.exists_cut (h : Half mark came missing) :
    ∃ n, 0 < n ∧ n < mark.length ∧ came = mark.take n ∧ missing = mark.drop n := by
  obtain ⟨rfl, hcame, hmissing⟩ := h
  have := List.length_pos_iff.2 hcame
  have := List.length_pos_iff.2 hmissing
  refine ⟨came.length, by omega, by rw [List.length_append]; omega, ?_, ?_⟩
  · rw [List.take_left]
  · rw [List.drop_left]

theorem Half.tag_cases (h : Half fenceTag came missing) :
    (came = ['j'] ∧ missing = ['s', 'o', 'n']) ∨ (came = ['j', 's'] ∧ missing = ['o', 'n']) ∨
      (came = ['j', 's', 'o'] ∧ missing = ['n']) := by
  obtain ⟨n, hpos, hlt, rfl, rfl⟩ := h.exists_cut
  rw [fenceTag_eq, List.length_cons, List.length_cons, List.length_cons, List.length_singleton] at hlt
  obtain rfl | rfl | rfl : n = 1 ∨ n = 2 ∨ n = 3 := by omega
  · exact .inl ⟨rfl, rfl⟩
  · exact .inr (.inl ⟨rfl, rfl⟩)
  · exact .inr (.inr ⟨rfl, rfl⟩)

theorem Half.fence_cases (h : Half closingFence came missing) :
    (came = ['`'] ∧ missing = ['`', '`']) ∨ (came = ['`', '`'] ∧ missing = ['`']) := by
  obtain ⟨n, hpos, hlt, rfl, rfl⟩ := h.exists_cut
  rw [closingFence_eq, List.length_cons, List.length_cons, List.length_singleton] at hlt
  obtain rfl | rfl : n = 1 ∨ n = 2 := by omega
  · exact .inl ⟨rfl, rfl⟩
  · exact .inr ⟨rfl, rfl⟩

/-- A text without the mark at its end, if it stands there. -/
def unmark (mark s : List Char) : List Char := (mark.isSuffixOf? s).getD s

theorem unmark_append (mark s : List Char) : unmark mark (s ++ mark) = s := by
  rw [unmark, List.isSuffixOf?_eq_some_iff_append_eq.2 rfl, Option.getD_some]

theorem unmark_of_not_suffix (h : ¬ mark <:+ s) : unmark mark s = s := by
  rw [unmark]
  cases hrest : mark.isSuffixOf? s with
  | none => rfl
  | some rest => exact absurd ⟨rest, List.append_eq_of_isSuffixOf?_eq_some hrest⟩ h

theorem unmark_cases (mark s : List Char) : s = unmark mark s ++ mark ∨ unmark mark s = s := by
  by_cases h : mark <:+ s
  · obtain ⟨rest, rfl⟩ := h
    rw [unmark_append]
    exact .inl rfl
  · exact .inr (unmark_of_not_suffix h)

theorem unmark_isPrefix (mark s : List Char) : unmark mark s <+: s := by
  rcases unmark_cases mark s with h | h
  · exact ⟨mark, h.symm⟩
  · exact h.symm ▸ List.prefix_rfl

/-- A text that grows loses nothing without the mark, unless half of the mark
stood at its end and the other half is all that came. -/
theorem unmark_grows (mark : List Char) (h : x <+: y) :
    unmark mark x <+: unmark mark y ∨ ∃ a came missing, x = a ++ came ∧ Half mark came missing ∧ y = x ++ missing := by
  rcases unmark_cases mark y with hy | hy
  · obtain ⟨a, ha⟩ : ∃ a, a = unmark mark y := ⟨_, rfl⟩
    rw [← ha] at hy ⊢
    subst hy
    rcases List.prefix_or_prefix_of_prefix h (List.prefix_append a mark) with hxa | ⟨came, rfl⟩
    · exact .inl ((unmark_isPrefix mark x).trans hxa)
    · rw [List.prefix_append_right_inj] at h
      obtain ⟨missing, rfl⟩ := h
      by_cases hcame : came = []
      · subst hcame
        rw [List.append_nil]
        exact .inl (unmark_isPrefix _ a)
      · by_cases hmissing : missing = []
        · subst hmissing
          rw [List.append_nil, unmark_append]
          exact .inl List.prefix_rfl
        · exact .inr ⟨a, came, missing, rfl, ⟨rfl, hcame, hmissing⟩, (List.append_assoc ..).symm⟩
  · rw [hy]
    exact .inl ((unmark_isPrefix mark x).trans h)

/-! ## From the outside in -/

/-- A text of backticks only. -/
def isTicks (s : List Char) : Bool := s.all (· == '`')

/-- A trimmed text without the closing fence. -/
def shut (x : List Char) : List Char := trimEnd (unmark closingFence x)

/-- A text that is out of its fence, without the tag; nothing of a text of backticks. -/
def tagless (x : List Char) : List Char := if isTicks x then [] else trimEnd (unmark fenceTag x)

theorem shut_isPrefix (x : List Char) : shut x <+: x := (Text.trimEnd_isPrefix _).trans (unmark_isPrefix _ x)

theorem tagless_isPrefix (x : List Char) : tagless x <+: x := by
  unfold tagless
  split
  · exact List.nil_prefix
  · exact (Text.trimEnd_isPrefix _).trans (unmark_isPrefix _ x)

theorem isTicks_of_isPrefix (h : x <+: y) (hy : isTicks y = true) : isTicks x = true :=
  List.all_eq_true.2 fun c hc => List.all_eq_true.1 hy c (h.subset hc)

theorem tagless_of_ticks (h : isTicks x = true) : tagless x = [] := if_pos h

theorem untag_eq_tagless (hstart : x <+: trimStart s) (hend : trimEnd x = x) :
    (if isTicks x then [] else untag x) = tagless x := by
  unfold tagless untag unmark
  cases h : fenceTag.isSuffixOf? x with
  | none => rw [Option.getD_none, hend]
  | some rest =>
    have hrest : rest <+: x := ⟨fenceTag, List.append_eq_of_isSuffixOf?_eq_some h⟩
    dsimp only
    rw [Option.getD_some, Text.trim_of_prefix (hrest.trans hstart)]

/-- The text in a fence is trimmed, then the closing fence goes, then the tag. -/
theorem clean_of_fenced (h : trimStart s = openingFence ++ inner) : clean s = tagless (shut (trim inner)) := by
  have htrim : trim s = openingFence ++ trimEnd inner := by
    rw [trim, h]
    exact Text.trimEnd_append_of_getLast? (show openingFence.getLast? = some 'n' from rfl) (by decide) inner
  have hunfence : unfence (trim s) = shut (trim inner) := by
    rw [unfence, htrim, List.isPrefixOf?_eq_some_iff_append_eq.2 rfl]
    dsimp only
    rw [Text.trim_trimEnd]
    exact Text.trim_of_prefix ((unmark_isPrefix closingFence _).trans (Text.trimEnd_isPrefix _))
  have hstart : shut (trim inner) <+: trimStart inner := (shut_isPrefix _).trans (Text.trimEnd_isPrefix _)
  rw [clean, hunfence]
  exact untag_eq_tagless hstart (Text.trimEnd_trimEnd _)

theorem clean_of_bare (h : ¬ openingFence <+: trimStart s) : clean s = tagless (trim s) := by
  have hunfence : unfence (trim s) = trim s := by
    rw [unfence]
    cases hinner : openingFence.isPrefixOf? (trim s) with
    | none => rfl
    | some inner =>
      have hleads : openingFence <+: trim s := ⟨inner, List.append_eq_of_isPrefixOf?_eq_some hinner⟩
      exact absurd (hleads.trans (Text.trimEnd_isPrefix _)) h
  rw [clean, hunfence]
  exact untag_eq_tagless (Text.trimEnd_isPrefix _) (Text.trimEnd_trimEnd _)

/-! ## Growing -/

/-- A step further in keeps what it has of a text that grows, or the text
ended in half the tag and nothing else came. -/
theorem tagless_grows (h : x <+: y) :
    tagless x <+: tagless y ∨ ∃ a came missing, x = a ++ came ∧ Half fenceTag came missing ∧ y = x ++ missing := by
  by_cases hx : isTicks x = true
  · rw [tagless_of_ticks hx]
    exact .inl List.nil_prefix
  · have hy : ¬ isTicks y = true := fun hy => hx (isTicks_of_isPrefix h hy)
    rw [tagless, if_neg hx, tagless, if_neg hy]
    exact (unmark_grows fenceTag h).imp_left Text.trimEnd_prefix_trimEnd

theorem shut_fence_grows (b c : List Char) : shut (b ++ closingFence) <+: shut (b ++ c ++ closingFence) := by
  rw [shut, shut, unmark_append, unmark_append]
  exact Text.trimEnd_prefix_trimEnd (List.prefix_append b c)

/-- The same for the closing fence. Of the backticks at the end of a text the
last three go, so half the fence is there only if there are at most two. -/
theorem shut_grows (h : x <+: y) :
    shut x <+: shut y ∨ isTicks x = true ∨
      ∃ a came missing, x = a ++ came ∧ Half closingFence came missing ∧ a.getLast? ≠ some '`' ∧
        x ++ missing <+: y := by
  rcases unmark_grows closingFence h with hgrown | ⟨a, came, missing, rfl, hhalf, rfl⟩
  · exact .inl (Text.trimEnd_prefix_trimEnd hgrown)
  by_cases hlast : a.getLast? = some '`'
  · obtain ⟨a, rfl⟩ := List.getLast?_eq_some_iff.1 hlast
    rcases hhalf.fence_cases with ⟨rfl, rfl⟩ | ⟨rfl, rfl⟩
    · by_cases hbefore : a.getLast? = some '`'
      · obtain ⟨a, rfl⟩ := List.getLast?_eq_some_iff.1 hbefore
        have hgrown := shut_fence_grows a ['`', '`']
        simp only [closingFence_eq, List.append_assoc, List.cons_append, List.nil_append] at hgrown ⊢
        exact .inl hgrown
      · refine .inr (.inr ⟨a, ['`', '`'], ['`'], ?_, ⟨rfl, by decide, by decide⟩, hbefore, ?_⟩)
        · rw [List.append_assoc]; rfl
        · exact (List.prefix_append_right_inj _).2 ⟨['`'], rfl⟩
    · have hgrown := shut_fence_grows a ['`']
      simp only [closingFence_eq, List.append_assoc, List.cons_append, List.nil_append] at hgrown ⊢
      exact .inl hgrown
  · exact .inr (.inr ⟨a, came, missing, rfl, hhalf, hlast, List.prefix_rfl⟩)

/-! ## Back to the text

A step works on what the steps before it left. Nothing that goes at the end
can stand before what is missing of a mark, so the mark is cut where the text
itself ends. -/

theorem eq_nil_of_missing {rest : List Char} (h : x ++ missing <+: x ++ rest ++ t) (hmissing : missing ≠ [])
    (hrest : ∀ c ∈ rest, missing.head? ≠ some c) : rest = [] ∧ missing <+: t := by
  rw [List.append_assoc, List.prefix_append_right_inj] at h
  cases rest with
  | nil => exact ⟨rfl, h⟩
  | cons c rest =>
    obtain ⟨d, missing, rfl⟩ := List.exists_cons_of_ne_nil hmissing
    obtain ⟨rfl, -⟩ := List.cons_prefix_cons.1 h
    exact absurd rfl (hrest d (List.mem_cons_self ..))

theorem Half.head?_tag (h : Half fenceTag came missing) {c : Char} (hc : isBlank c = true ∨ c = '`') :
    missing.head? ≠ some c := by
  rintro hhead
  rcases h.tag_cases with ⟨-, rfl⟩ | ⟨-, rfl⟩ | ⟨-, rfl⟩ <;> cases hhead <;> revert hc <;> decide

theorem Half.head?_fence (h : Half closingFence came missing) {c : Char} (hc : isBlank c = true) :
    missing.head? ≠ some c := by
  rintro hhead
  rcases h.fence_cases with ⟨-, rfl⟩ | ⟨-, rfl⟩ <;> cases hhead <;> revert hc <;> decide

/-- What goes with the closing fence. -/
theorem exists_shut (b : List Char) :
    ∃ rest, (∀ c ∈ rest, isBlank c = true ∨ c = '`') ∧ b = shut (trimEnd b) ++ rest := by
  obtain ⟨behind, hbehind, hb⟩ := Text.exists_trimEnd b
  obtain ⟨between, hbetween, hunmarked⟩ := Text.exists_trimEnd (unmark closingFence (trimEnd b))
  have hblank : ∀ {blanks : List Char}, isBlankText blanks = true → ∀ c ∈ blanks, isBlank c = true ∨ c = '`' :=
    fun hblanks c hc => .inl (List.all_eq_true.1 hblanks c hc)
  rcases unmark_cases closingFence (trimEnd b) with hfence | hopen
  · refine ⟨between ++ closingFence ++ behind, ?_, ?_⟩
    · intro c hc
      rcases List.mem_append.1 hc with hc | hc
      · rcases List.mem_append.1 hc with hc | hc
        · exact hblank hbetween c hc
        · exact .inr (by simpa [closingFence_eq] using hc)
      · exact hblank hbehind c hc
    · conv_lhs => rw [hb, hfence, hunmarked]
      simp only [shut, List.append_assoc]
  · refine ⟨behind, hblank hbehind, ?_⟩
    rw [shut, hopen, Text.trimEnd_trimEnd]
    exact hb

/-- Leading parts of one text: if the first does not grow to the second, it falls back to it. -/
theorem falls_back {P : Prop} (hx : x <+: s) (hy : y <+: s) (h : x <+: y ∨ P) : x <+: y ∨ P ∧ y <+: x := by
  rcases List.prefix_or_prefix_of_prefix hx hy with hxy | hyx
  · exact .inl hxy
  · exact h.imp_right fun hp => ⟨hp, hyx⟩

theorem completes_of_bare (hs : ¬ openingFence <+: trimStart s) (ht : ¬ openingFence <+: trimStart (s ++ t)) :
    clean s <+: clean (s ++ t) ∨ (∃ a, Completes s t a) ∧ clean (s ++ t) <+: clean s := by
  rw [clean_of_bare hs, clean_of_bare ht]
  cases hblank : isBlankText s with
  | true =>
    rw [Text.trim_of_blank hblank]
    exact .inl List.nil_prefix
  | false =>
    obtain ⟨before, -, hbefore⟩ := Text.exists_trimStart s
    obtain ⟨behind, hbehind, hb⟩ := Text.exists_trimEnd (trimStart s)
    have htrim : trim (s ++ t) = trimEnd (trimStart s ++ t) := by rw [trim, Text.trimStart_append t hblank]
    have hgrown : trim s <+: trim (s ++ t) := by
      rw [htrim]
      exact Text.trimEnd_prefix_trimEnd (List.prefix_append ..)
    have hpart : trim (s ++ t) <+: trimStart s ++ t := htrim ▸ Text.trimEnd_isPrefix _
    refine falls_back (((tagless_isPrefix _).trans hgrown).trans hpart) ((tagless_isPrefix _).trans hpart) ?_
    refine (tagless_grows hgrown).imp_right ?_
    rintro ⟨a, came, missing, hx, hhalf, hy⟩
    have hmeet : trim s ++ missing <+: trim s ++ behind ++ t := by
      rw [← hy]
      exact hb ▸ hpart
    obtain ⟨rfl, hmissing⟩ := eq_nil_of_missing hmeet hhalf.missing
      fun c hc => hhalf.head?_tag (.inl (List.all_eq_true.1 hbehind c hc))
    refine ⟨before ++ a, came, missing, ?_, .tag hhalf, hmissing⟩
    rw [List.append_assoc, ← hx, trim, ← List.append_nil (trimEnd _), ← hb]
    exact hbefore

theorem isTicks_came (h : Half closingFence came missing) : isTicks came = true := by
  rcases h.fence_cases with ⟨rfl, -⟩ | ⟨rfl, -⟩ <;> rfl

theorem trimStart_openingFence (inner : List Char) : trimStart (openingFence ++ inner) = openingFence ++ inner :=
  Text.trimStart_of_head? rfl (show isBlank '`' = false by decide)

/-- A fence that holds something, cut behind it. -/
theorem halfMark_fence {before blanks : List Char} (hbefore : isBlankText before = true) (hnil : a ≠ [])
    (hstart : ∀ c, a.head? = some c → isBlank c = false) (hlast : a.getLast? ≠ some '`')
    (hhalf : Half closingFence came missing) :
    HalfMark (before ++ (openingFence ++ (blanks ++ a))) came missing := by
  have hopen : trimStart (before ++ (openingFence ++ (blanks ++ a))) = openingFence ++ (blanks ++ a) := by
    rw [Text.trimStart_append_blank _ hbefore, trimStart_openingFence]
  refine .fence hhalf hopen ?_ ?_
  · obtain ⟨c, a, rfl⟩ := List.exists_cons_of_ne_nil hnil
    simp [isBlankText, hstart c rfl]
  · rwa [List.getLast?_append_of_ne_nil _ hnil]

theorem trimStart_append_of_fenced (h : trimStart s = openingFence ++ inner) (t : List Char) :
    trimStart (s ++ t) = openingFence ++ (inner ++ t) := by
  have hsome : isBlankText s = false := by
    rw [Bool.eq_false_iff, Ne, ← Text.trimStart_eq_nil, h]
    exact List.append_ne_nil_of_left_ne_nil (by decide) _
  rw [Text.trimStart_append t hsome, h, List.append_assoc]

theorem completes_of_fenced (h : trimStart s = openingFence ++ inner) (t : List Char) :
    clean s <+: clean (s ++ t) ∨ (∃ a, Completes s t a) ∧ clean (s ++ t) <+: clean s := by
  rw [clean_of_fenced h, clean_of_fenced (trimStart_append_of_fenced h t)]
  cases hblank : isBlankText inner with
  | true =>
    rw [Text.trim_of_blank hblank]
    exact .inl List.nil_prefix
  | false =>
    obtain ⟨before, hbefore, hs⟩ := Text.exists_trimStart s
    obtain ⟨blanks, -, hinner⟩ := Text.exists_trimStart inner
    obtain ⟨behind, hbehind, hb⟩ := Text.exists_trimEnd (trimStart inner)
    have htrim : trim (inner ++ t) = trimEnd (trimStart inner ++ t) := by rw [trim, Text.trimStart_append t hblank]
    have hgrown : trim inner <+: trim (inner ++ t) := by
      rw [htrim]
      exact Text.trimEnd_prefix_trimEnd (List.prefix_append ..)
    have hpart : trim (inner ++ t) <+: trimStart inner ++ t := htrim ▸ Text.trimEnd_isPrefix _
    have hleft := ((tagless_isPrefix _).trans (shut_isPrefix _)).trans (hgrown.trans hpart)
    refine falls_back hleft (((tagless_isPrefix _).trans (shut_isPrefix _)).trans hpart) ?_
    have hcut : ∀ {a came : List Char}, trimStart inner = a ++ came →
        s = before ++ (openingFence ++ (blanks ++ a)) ++ came := by
      intro a came hcame
      conv_lhs => rw [hs, h, hinner, hcame]
      simp only [List.append_assoc]
    have hsilent : isTicks (trim inner) = true → tagless (shut (trim inner)) = [] := fun hticks =>
      tagless_of_ticks (isTicks_of_isPrefix (shut_isPrefix _) hticks)
    rcases shut_grows hgrown with hshut | hticks | ⟨a, came, missing, hx, hhalf, hlast, hy⟩
    · refine (tagless_grows hshut).imp_right ?_
      rintro ⟨a, came, missing, hx, hhalf, hy⟩
      obtain ⟨rest, hrest, hb⟩ := exists_shut (trimStart inner)
      have hmeet : shut (trim inner) ++ missing <+: shut (trim inner) ++ rest ++ t := by
        rw [← hy]
        exact (shut_isPrefix _).trans (hb ▸ hpart)
      obtain ⟨rfl, hmissing⟩ := eq_nil_of_missing hmeet hhalf.missing fun c hc => hhalf.head?_tag (hrest c hc)
      rw [List.append_nil] at hb
      exact ⟨_, came, missing, hcut (hb.trans hx), .tag hhalf, hmissing⟩
    · rw [hsilent hticks]
      exact .inl List.nil_prefix
    · by_cases hnil : a = []
      · rw [hsilent (by rw [hx, hnil]; exact isTicks_came hhalf)]
        exact .inl List.nil_prefix
      · have hmeet : trim inner ++ missing <+: trim inner ++ behind ++ t := hy.trans (hb ▸ hpart)
        obtain ⟨rfl, hmissing⟩ := eq_nil_of_missing hmeet hhalf.missing
          fun c hc => hhalf.head?_fence (List.all_eq_true.1 hbehind c hc)
        rw [List.append_nil] at hb
        have hstart : ∀ c, a.head? = some c → isBlank c = false := by
          intro c hc
          refine Text.isBlank_of_head?_trimStart (s := inner) ?_
          rw [hb, ← trim, hx, List.head?_append, hc, Option.some_or]
        exact .inr ⟨_, came, missing, hcut (hb.trans hx), halfMark_fence hbefore hnil hstart hlast hhalf, hmissing⟩

/-- The opening fence itself was not complete yet. -/
theorem completes_of_opening (hs : ¬ openingFence <+: trimStart s) (ht : openingFence <+: trimStart (s ++ t)) :
    clean s = [] ∨ ∃ a, Completes s t a ∧ trimStart a = closingFence := by
  rw [clean_of_bare hs]
  have hsilent : isTicks (trimStart s) = true → tagless (trim s) = [] := fun hticks =>
    tagless_of_ticks (isTicks_of_isPrefix (Text.trimEnd_isPrefix _) hticks)
  cases hblank : isBlankText s with
  | true => exact .inl (by rw [Text.trim_of_blank hblank]; rfl)
  | false =>
    obtain ⟨before, hbefore, hsplit⟩ := Text.exists_trimStart s
    rw [Text.trimStart_append t hblank] at ht
    have hpart : trimStart s <+: openingFence :=
      (List.prefix_or_prefix_of_prefix ht (List.prefix_append _ t)).resolve_left hs
    rcases List.prefix_or_prefix_of_prefix hpart (List.prefix_append closingFence fenceTag) with hticks | ⟨came, hcame⟩
    · exact .inl (hsilent (isTicks_of_isPrefix hticks rfl))
    · rw [← hcame, openingFence_eq, List.prefix_append_right_inj] at hpart
      obtain ⟨missing, hmark⟩ := hpart
      by_cases hnil : came = []
      · exact .inl (hsilent (by rw [← hcame, hnil]; rfl))
      · have hmissing : missing ≠ [] := by
          rintro rfl
          rw [List.append_nil] at hmark
          exact hs (by rw [← hcame, hmark]; exact List.prefix_rfl)
        rw [← hcame, openingFence_eq, ← hmark, List.append_assoc, List.prefix_append_right_inj,
          List.prefix_append_right_inj] at ht
        have hopen : trimStart (before ++ closingFence) = closingFence := by
          rw [Text.trimStart_append_blank _ hbefore]
          rfl
        refine .inr ⟨before ++ closingFence, ⟨came, missing, ?_, .tag ⟨hmark, hnil, hmissing⟩, ht⟩, hopen⟩
        rw [List.append_assoc, hcame]
        exact hsplit

/-- What a text is cleaned to grows with it, or half a mark was completed. -/
theorem clean_grows_or (s t : List Char) :
    clean s <+: clean (s ++ t) ∨ ∃ a, Completes s t a ∧ (clean (s ++ t) <+: clean s ∨ trimStart a = closingFence) := by
  by_cases hs : openingFence <+: trimStart s
  · obtain ⟨inner, hinner⟩ := hs
    exact (completes_of_fenced hinner.symm t).imp_right fun ⟨⟨a, ha⟩, hback⟩ => ⟨a, ha, .inl hback⟩
  · by_cases ht : openingFence <+: trimStart (s ++ t)
    · rcases completes_of_opening hs ht with hnil | ⟨a, ha, hopen⟩
      · rw [hnil]
        exact .inl List.nil_prefix
      · exact .inr ⟨a, ha, .inr hopen⟩
    · exact (completes_of_bare hs ht).imp_right fun ⟨⟨a, ha⟩, hback⟩ => ⟨a, ha, .inl hback⟩

/-! ## Half marks -/

theorem Half.tag_ends (h : Half fenceTag came missing) :
    came.head? = some 'j' ∧ ∃ c, came.getLast? = some c ∧ isBlank c = false ∧ c ≠ '`' ∧ c ≠ 'n' := by
  rcases h.tag_cases with ⟨rfl, -⟩ | ⟨rfl, -⟩ | ⟨rfl, -⟩
  · exact ⟨rfl, 'j', rfl, by decide⟩
  · exact ⟨rfl, 's', rfl, by decide⟩
  · exact ⟨rfl, 'o', rfl, by decide⟩

theorem getLast?_of_fenced (h : trimStart a = openingFence ++ inner) (hinner : isBlankText inner = false) :
    a.getLast? = inner.getLast? := by
  obtain ⟨before, -, ha⟩ := Text.exists_trimStart a
  have hnil : inner ≠ [] := by
    rintro rfl
    cases hinner
  rw [ha, h, List.getLast?_append_of_ne_nil _ (List.append_ne_nil_of_right_ne_nil _ hnil),
    List.getLast?_append_of_ne_nil _ hnil]

/-- In front of half a mark there is no other half that it could go on. -/
theorem not_completes_of_halfMark (h : HalfMark a came missing) (t b : List Char) : ¬ Completes a (came ++ t) b := by
  rintro ⟨came', missing', hsplit, h', hmissing⟩
  have hhead : ∀ c, came.head? = some c → missing' ≠ [] → missing'.head? = some c := by
    intro c hc hnil
    obtain ⟨d, missing', rfl⟩ := List.exists_cons_of_ne_nil hnil
    obtain ⟨came, rfl⟩ := List.head?_eq_some_iff.1 hc
    exact congrArg some (List.cons_prefix_cons.1 hmissing).1
  cases h with
  | tag hhalf =>
    have hj := hhead 'j' hhalf.tag_ends.1
    cases h' with
    | tag hhalf' => rcases hhalf'.tag_cases with ⟨-, rfl⟩ | ⟨-, rfl⟩ | ⟨-, rfl⟩ <;> revert hj <;> decide
    | fence hhalf' => rcases hhalf'.fence_cases with ⟨-, rfl⟩ | ⟨-, rfl⟩ <;> revert hj <;> decide
  | fence hhalf hopen hinner hlast =>
    have htick : missing' ≠ [] → missing'.head? = some '`' := by
      refine hhead '`' ?_
      rcases hhalf.fence_cases with ⟨rfl, -⟩ | ⟨rfl, -⟩ <;> rfl
    cases h' with
    | tag hhalf' => exact hhalf'.head?_tag (.inr rfl) (htick hhalf'.missing)
    | fence hhalf' =>
      rw [← getLast?_of_fenced hopen hinner, hsplit, List.getLast?_append_of_ne_nil _ hhalf'.came] at hlast
      rcases hhalf'.fence_cases with ⟨rfl, -⟩ | ⟨rfl, -⟩ <;> exact hlast rfl

/-! ## Completed marks -/

theorem unmark_of_getLast? {c : Char} (hmark : mark.getLast? = some c) (h : x.getLast? ≠ some c) :
    unmark mark x = x := by
  refine unmark_of_not_suffix ?_
  rintro ⟨rest, rfl⟩
  exact h (by rw [List.getLast?_append, hmark, Option.some_or])

theorem shut_of_getLast? {c : Char} (h : x.getLast? = some c) (hblank : isBlank c = false) (htick : c ≠ '`') :
    shut x = x := by
  rw [shut, unmark_of_getLast? (show closingFence.getLast? = some '`' from rfl) (by rw [h]; simpa using htick)]
  exact Text.trimEnd_of_getLast? h hblank

theorem not_isTicks {c : Char} (h : c ∈ x) (htick : c ≠ '`') : ¬ isTicks x = true := fun hall =>
  htick (by simpa using List.all_eq_true.1 hall c h)

theorem tagless_of_getLast? {c : Char} (h : x.getLast? = some c) (hblank : isBlank c = false) (hx : ¬ isTicks x = true)
    (hn : c ≠ 'n') : tagless x = x := by
  rw [tagless, if_neg hx, unmark_of_getLast? (show fenceTag.getLast? = some 'n' from rfl) (by rw [h]; simpa using hn)]
  exact Text.trimEnd_of_getLast? h hblank

theorem tagless_append_tag (x : List Char) :
    trimEnd (x ++ fenceTag) = x ++ fenceTag ∧ shut (x ++ fenceTag) = x ++ fenceTag ∧
      tagless (x ++ fenceTag) = trimEnd x := by
  have hlast : (x ++ fenceTag).getLast? = some 'n' := List.getLast?_append_of_ne_nil x (by decide)
  have hmem : 'n' ∈ x ++ fenceTag := List.mem_of_getLast? hlast
  refine ⟨Text.trimEnd_of_getLast? hlast (by decide), shut_of_getLast? hlast (by decide) (by decide), ?_⟩
  rw [tagless, if_neg (not_isTicks hmem (by decide)), unmark_append]

theorem not_prefix_of_shorter (hcame : came ≠ []) (hy : y <+: x) : ¬ x ++ came <+: y := fun h => by
  have := List.length_pos_iff.2 hcame
  have := (h.trans hy).length_le
  rw [List.length_append] at this
  omega

/-- Half a tag is part of the answer. -/
theorem tagless_append_half (h : Half fenceTag came missing) (x : List Char) :
    trimEnd (x ++ came) = x ++ came ∧ shut (x ++ came) = x ++ came ∧ tagless (x ++ came) = x ++ came := by
  obtain ⟨-, c, hc, hblank, htick, hn⟩ := h.tag_ends
  have hlast : (x ++ came).getLast? = some c := by rw [List.getLast?_append, hc, Option.some_or]
  refine ⟨Text.trimEnd_of_getLast? hlast hblank, shut_of_getLast? hlast hblank htick, ?_⟩
  exact tagless_of_getLast? hlast hblank (not_isTicks (List.mem_of_getLast? hlast) htick) hn

/-- The tag of a fence can only complete what was three backticks. -/
theorem eq_closingFence (h : ¬ openingFence <+: x) (hopened : openingFence <+: x ++ fenceTag) : x = closingFence := by
  have hcut : ∀ n < openingFence.length, openingFence.drop n <+: fenceTag → n = 3 := by decide
  obtain ⟨rest, hrest⟩ := (List.prefix_or_prefix_of_prefix hopened (List.prefix_append x fenceTag)).resolve_left h
  have hlt : x.length < openingFence.length := by
    have hnil : rest ≠ [] := by
      rintro rfl
      rw [List.append_nil] at hrest
      exact h (hrest ▸ List.prefix_rfl)
    have := List.length_pos_iff.2 hnil
    rw [← hrest, List.length_append]
    omega
  have hdrop : openingFence.drop x.length = rest := by rw [← hrest, List.drop_left]
  have htake : openingFence.take x.length = x := by rw [← hrest, List.take_left]
  rw [← hrest, List.prefix_append_right_inj] at hopened
  rw [← htake, hcut x.length hlt (hdrop ▸ hopened)]
  rfl

/-- A tag that comes to its end takes its first half out of the answer. -/
theorem tag_falls_back (h : Half fenceTag came missing) (a : List Char) :
    ¬ clean (a ++ came) <+: clean (a ++ fenceTag) := by
  have hstart : ∀ {u : List Char}, u.head? = some 'j' → ∀ b, trimStart (b ++ u) = trimStart b ++ u :=
    fun hu b => Text.trimStart_append_of_head? b hu (by decide)
  have hcame := hstart h.tag_ends.1
  have htag := hstart (show fenceTag.head? = some 'j' from rfl)
  by_cases hopen : openingFence <+: trimStart a
  · obtain ⟨inner, hinner⟩ := hopen
    have hopen := trimStart_append_of_fenced hinner.symm
    rw [clean_of_fenced (hopen came), trim, hcame, (tagless_append_half h _).1, (tagless_append_half h _).2.1,
      (tagless_append_half h _).2.2]
    rw [clean_of_fenced (hopen fenceTag), trim, htag, (tagless_append_tag _).1, (tagless_append_tag _).2.1,
      (tagless_append_tag _).2.2]
    exact not_prefix_of_shorter h.came (Text.trimEnd_isPrefix _)
  · by_cases hopened : openingFence <+: trimStart a ++ fenceTag
    · -- the tag of the opening fence: the backticks in front of it go too
      have hticks := eq_closingFence hopen hopened
      have hbare : ¬ openingFence <+: trimStart (a ++ came) := by
        rw [hcame, hticks, openingFence_eq, List.prefix_append_right_inj]
        rcases h.tag_cases with ⟨rfl, -⟩ | ⟨rfl, -⟩ | ⟨rfl, -⟩ <;> decide
      have hopen' : trimStart (a ++ fenceTag) = openingFence ++ [] := by
        rw [htag, hticks, List.append_nil, openingFence_eq]
      rw [clean_of_bare hbare, trim, hcame, (tagless_append_half h _).1, (tagless_append_half h _).2.2,
        clean_of_fenced hopen']
      exact not_prefix_of_shorter h.came List.nil_prefix
    · have hbare : ¬ openingFence <+: trimStart (a ++ came) := by
        rw [hcame]
        refine fun hleads => hopened (hleads.trans ?_)
        rw [List.prefix_append_right_inj]
        exact ⟨missing, h.mark⟩
      rw [clean_of_bare hbare, trim, hcame, (tagless_append_half h _).1, (tagless_append_half h _).2.2]
      rw [clean_of_bare (htag a ▸ hopened), trim, htag, (tagless_append_tag _).1, (tagless_append_tag _).2.2]
      exact not_prefix_of_shorter h.came (Text.trimEnd_isPrefix _)

theorem getLast?_came (h : Half closingFence came missing) : came.getLast? = some '`' := by
  rcases h.fence_cases with ⟨rfl, -⟩ | ⟨rfl, -⟩ <;> rfl

theorem exists_last_of_fenced (hinner : isBlankText inner = false) (hlast : inner.getLast? ≠ some '`') :
    ∃ x c, trimStart inner = x ++ [c] ∧ c ≠ '`' := by
  obtain ⟨blanks, -, hsplit⟩ := Text.exists_trimStart inner
  have hnil : trimStart inner ≠ [] := fun hnil => by
    rw [Text.trimStart_eq_nil.1 hnil] at hinner
    cases hinner
  rw [hsplit, List.getLast?_append_of_ne_nil _ hnil] at hlast
  obtain ⟨x, c, hx⟩ := (List.eq_nil_or_concat (trimStart inner)).resolve_left hnil
  rw [List.concat_eq_append] at hx
  refine ⟨x, c, hx, fun htick => hlast ?_⟩
  rw [hx, htick, List.getLast?_concat]

theorem tagless_append_half_fence (h : Half closingFence came missing) {c : Char} (hc : c ≠ '`') (x : List Char) :
    tagless (shut (x ++ [c] ++ came)) = x ++ [c] ++ came := by
  have hlast : (x ++ [c] ++ came).getLast? = some '`' := by
    rw [List.getLast?_append, getLast?_came h, Option.some_or]
  have hopened : unmark closingFence (x ++ [c] ++ came) = x ++ [c] ++ came := by
    refine unmark_of_not_suffix ?_
    rintro ⟨rest, hrest⟩
    have hends := congrArg List.reverse hrest
    rcases h.fence_cases with ⟨rfl, -⟩ | ⟨rfl, -⟩ <;> simp [closingFence_eq] at hends <;> exact hc hends.1.symm
  have hmem : c ∈ x ++ [c] ++ came := List.mem_append_left _ List.mem_concat_self
  rw [shut, hopened, Text.trimEnd_of_getLast? hlast (by decide)]
  exact tagless_of_getLast? hlast (by decide) (not_isTicks hmem hc) (by decide)

/-- A closing fence that comes to its end does the same. -/
theorem fence_falls_back (h : Half closingFence came missing) (hopen : trimStart a = openingFence ++ inner)
    (hinner : isBlankText inner = false) (hlast : inner.getLast? ≠ some '`') :
    ¬ clean (a ++ came) <+: clean (a ++ closingFence) := by
  have hopen := trimStart_append_of_fenced hopen
  have htrim : ∀ {u : List Char}, u.getLast? = some '`' → trim (inner ++ u) = trimStart inner ++ u := by
    intro u hu
    rw [trim, Text.trimStart_append u hinner]
    refine Text.trimEnd_of_getLast? (c := '`') ?_ (by decide)
    rw [List.getLast?_append, hu, Option.some_or]
  obtain ⟨x, c, hx, hc⟩ := exists_last_of_fenced hinner hlast
  rw [clean_of_fenced (hopen came), htrim (getLast?_came h), hx, tagless_append_half_fence h hc]
  rw [clean_of_fenced (hopen closingFence), htrim rfl, hx, shut, unmark_append]
  exact not_prefix_of_shorter h.came ((tagless_isPrefix _).trans (Text.trimEnd_isPrefix _))

/-- **A cleaned answer grows, but for half a mark at its end.** Whatever comes
behind a text, the cleaned text goes on from what it was, or the text ended in
half a mark that is complete now; then what was there before the half mark
still stays, and nothing comes in its place, unless it is an opening fence
that is complete. Every half mark is taken back when the other half comes. -/
theorem clean_grows (s : List Char) :
    (∀ t, clean s <+: clean (s ++ t) ∨ ∃ a, Completes s t a ∧ clean a <+: clean (s ++ t) ∧
      (clean (s ++ t) <+: clean s ∨ trimStart a = closingFence)) ∧
    ∀ a came missing, s = a ++ came → HalfMark a came missing → ¬ clean s <+: clean (s ++ missing) := by
  refine ⟨fun t => ?_, ?_⟩
  · refine (clean_grows_or s t).imp_right ?_
    rintro ⟨a, ⟨came, missing, rfl, hhalf, hmissing⟩, hback⟩
    refine ⟨a, ⟨came, missing, rfl, hhalf, hmissing⟩, ?_, hback⟩
    rw [List.append_assoc]
    exact (clean_grows_or a (came ++ t)).resolve_right
      fun ⟨b, hb, _⟩ => not_completes_of_halfMark hhalf t b hb
  · rintro a came missing rfl hhalf
    rw [List.append_assoc]
    cases hhalf with
    | tag h =>
      rw [h.mark]
      exact tag_falls_back h a
    | fence h hopen hinner hlast =>
      rw [h.mark]
      exact fence_falls_back h hopen hinner hlast

/-- Half a tag stands in the answer until the rest of it comes. -/
theorem half_tag_withdrawn : ¬ ∀ s t : List Char, clean s <+: clean (s ++ t) := fun h =>
  absurd (h "see jso".toList "n".toList) (by decide)

example : cleanAnswer "see jso" = "see jso" ∧ cleanAnswer "see json" = "see" := by decide

example : cleanAnswer "```json{}`" = "{}`" ∧ cleanAnswer "```json{}```" = "{}" := by decide

end ReplyStream.Draft
