/-
What a splitter has taken in and not told yet. Between two tokens it stands in
one piece, and what it holds back is an end that may still become the
delimiter, with everything in front of it passed (`Splitter.Holds`). Every
token keeps that (`Splitter.Holds.feed`).
-/
import ReplyStream.Proofs.Segment.Cut

namespace ReplyStream.Splitter

variable {s : Splitter} {input before rest : List Char}

/-- What has been read of the piece the splitter is in. -/
def soFar (s : Splitter) : List Char := if s.inBlock then s.block else s.text

/-- Only the piece the splitter is in has content. -/
structure Apart (s : Splitter) : Prop where
  block_nil : s.inBlock = false → s.block = []
  text_nil : s.inBlock = true → s.text = []

/-- Behind passed content an end that may still become the delimiter. -/
structure Holds (s : Splitter) : Prop extends Apart s where
  passed : Passed s.delimiter s.soFar s.held
  mayBecome : MayBecome s.delimiter s.held

theorem holds_new (d : Delimiters) : (new d).Holds := ⟨⟨fun _ => rfl, fun _ => rfl⟩, passed_nil _ _, Or.inl rfl⟩

theorem soFar_of_block (h : s.inBlock = true) : s.soFar = s.block := if_pos h

theorem soFar_of_gap (h : s.inBlock = false) : s.soFar = s.text := by
  rw [soFar, h, if_neg Bool.false_ne_true]

theorem delimiter_of_block (h : s.inBlock = true) : s.delimiter = s.delimiters.closing := if_pos h

theorem delimiter_of_gap (h : s.inBlock = false) : s.delimiter = s.delimiters.opening := by
  rw [delimiter, h, if_neg Bool.false_ne_true]

/-! ## Releasing -/

@[simp] theorem release_delimiters (s : Splitter) (cs : List Char) : (s.release cs).delimiters = s.delimiters := by
  unfold release
  split <;> rfl

@[simp] theorem release_inBlock (s : Splitter) (cs : List Char) : (s.release cs).inBlock = s.inBlock := by
  unfold release
  split <;> rfl

@[simp] theorem release_delimiter (s : Splitter) (cs : List Char) : (s.release cs).delimiter = s.delimiter := by
  simp [delimiter]

@[simp] theorem release_soFar (s : Splitter) (cs : List Char) : (s.release cs).soFar = s.soFar ++ cs := by
  unfold release soFar
  cases s.inBlock <;> simp

theorem Apart.release (h : s.Apart) (cs : List Char) : (s.release cs).Apart := by
  unfold Splitter.release
  cases hblock : s.inBlock with
  | true => exact ⟨fun hgap => (by simp at hgap), fun _ => h.text_nil hblock⟩
  | false => exact ⟨fun _ => h.block_nil hblock, fun hin => (by simp at hin)⟩

/-! ## Showing and turning -/

theorem showText_fst (s : Splitter) : s.showText.1 = { s with hasGrown := false } := by
  unfold showText
  split
  next => rfl
  next h =>
    obtain ⟨delimiters, inBlock, held, text, block, hasGrown⟩ := s
    cases Bool.eq_false_iff.2 h
    rfl

theorem showText_snd (s : Splitter) : s.showText.2 = if s.hasGrown then [⟨.text, s.text⟩] else [] := by
  unfold showText
  split <;> rfl

theorem turn_of_block (h : s.inBlock = true) :
    s.turn = ({ s with inBlock := false, block := [] }, [⟨.command, s.block⟩]) := if_pos h

theorem turn_of_gap (h : s.inBlock = false) :
    s.turn = ({ s with inBlock := true, text := [], hasGrown := false }, s.showText.2) := by
  rw [turn, h, if_neg Bool.false_ne_true]
  dsimp only
  rw [showText_fst]

theorem Apart.turn (h : s.Apart) : s.turn.1.Apart ∧ s.turn.1.soFar = [] := by
  cases hblock : s.inBlock with
  | true =>
    rw [turn_of_block hblock]
    exact ⟨⟨fun _ => rfl, fun hin => (by cases hin)⟩, h.text_nil hblock⟩
  | false =>
    rw [turn_of_gap hblock]
    exact ⟨⟨fun hgap => (by cases hgap), fun _ => rfl⟩, h.block_nil hblock⟩

/-! ## Reading -/

/-- The splitter behind a delimiter that was found with `before` in front. -/
theorem read_of_found (h : cut s.delimiter input = some (before, rest)) :
    s.read input = (((s.release before).turn.1.read rest).1,
      (s.release before).turn.2 ++ ((s.release before).turn.1.read rest).2) := by
  rw [read]
  split
  next hcut =>
    rw [h] at hcut
    cases hcut
    rfl
  next hcut =>
    rw [h] at hcut
    cases hcut

theorem read_of_not_found (h : cut s.delimiter input = none) :
    s.read input =
      ({ s.release (holdBack s.delimiter input).1 with held := (holdBack s.delimiter input).2 }, []) := by
  rw [read]
  split
  next hcut =>
    rw [h] at hcut
    cases hcut
  next => rfl

theorem Apart.read (h : s.Apart) (hpassed : Passed s.delimiter s.soFar input) : (s.read input).1.Holds := by
  induction s, input using read.induct with
  | case1 s input before rest hcut _ _ hturn _ _ _ ih =>
    obtain ⟨hapart, hsoFar⟩ := (h.release before).turn
    rw [read_of_found hcut]
    rw [hturn] at hapart hsoFar ⊢
    exact ih hapart (hsoFar ▸ passed_nil _ _)
  | case2 s input hcut _ _ _ =>
    rw [read_of_not_found hcut]
    obtain ⟨hblock, htext⟩ := h.release (holdBack s.delimiter input).1
    refine ⟨⟨hblock, htext⟩, ?_, ?_⟩
    · show Passed (s.release _).delimiter (s.release _).soFar _
      rw [release_delimiter, release_soFar]
      exact hpassed.release (absent_of_cut hcut)
    · show MayBecome (s.release _).delimiter _
      rw [release_delimiter]
      exact mayBecome_holdBack s.delimiter input

theorem feed_eq (s : Splitter) (token : List Char) :
    s.feed token =
      let next := { s with held := [] }.read (s.held ++ token)
      if next.1.inBlock then next else (next.1.showText.1, next.2 ++ next.1.showText.2) := rfl

theorem Holds.feed (h : s.Holds) (token : List Char) : (s.feed token).1.Holds := by
  have hapart : ({ s with held := [] } : Splitter).Apart := ⟨h.block_nil, h.text_nil⟩
  have hread : ({ s with held := [] }.read (s.held ++ token)).1.Holds := hapart.read (h.passed.append token)
  rw [feed_eq]
  dsimp only
  split
  · exact hread
  · rw [showText_fst]
    exact ⟨⟨hread.block_nil, hread.text_nil⟩, hread.passed, hread.mayBecome⟩

end ReplyStream.Splitter
