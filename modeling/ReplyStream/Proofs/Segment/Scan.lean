/-
The segments of a text do not depend on how it was cut into tokens
(`segments_follow_scan`). `Scan` reads the text in one go: a gap up to the
leftmost opening delimiter, a block up to the leftmost closing one behind it,
and so on. A splitter tells the blocks of the scan, and of each gap more and
more of its start while the gap comes in (`Streams`).

A run is followed from its end: what the splitter tells from some state on,
given the rest of the text (`Splitter.Tells`), is put behind what it told
until then. Each step of the splitter is one such step backwards, and the
passed content is what keeps the leftmost delimiter of the rest the leftmost
of the whole.
-/
import Mathlib.Data.List.Forall2
import ReplyStream.Proofs.Segment.Hold

namespace ReplyStream

open Text (isBlankText)

/-! ## The scan, and what is told of it -/

/-- The scan of a text, in a gap or in a block at first: its gaps and its
blocks in turn. The last gap runs to the end; an unclosed block is dropped. -/
inductive Scan (d : Delimiters) : Bool → List Char → List Segment → Prop where
  | lastGap {t : List Char} (h : Absent d.opening t) : Scan d false t [⟨.text, t⟩]
  | dropped {t : List Char} (h : Absent d.closing t) : Scan d true t []
  | gap {t before rest : List Char} {pieces : List Segment} (h : Leftmost d.opening t before rest)
      (hrest : Scan d true rest pieces) : Scan d false t (⟨.text, before⟩ :: pieces)
  | block {t before rest : List Char} {pieces : List Segment} (h : Leftmost d.closing t before rest)
      (hrest : Scan d false rest pieces) : Scan d true t (⟨.command, before⟩ :: pieces)

/-- The segments told of the pieces of a scan, when something of the first gap
has been shown already: of a gap longer and longer starts, each with more to
be seen, until nothing more is to be seen. -/
inductive Streams : List Char → List Segment → List Segment → Prop where
  | done : Streams [] [] []
  | shows {shown text gap : List Char} {pieces out : List Segment} (hshown : shown <+: text) (htext : text <+: gap)
      (hmore : isBlankText (text.drop shown.length) = false) (h : Streams text (⟨.text, gap⟩ :: pieces) out) :
      Streams shown (⟨.text, gap⟩ :: pieces) (⟨.text, text⟩ :: out)
  | leaves {shown gap : List Char} {pieces out : List Segment} (hshown : shown <+: gap)
      (hblank : isBlankText (gap.drop shown.length) = true) (h : Streams [] pieces out) :
      Streams shown (⟨.text, gap⟩ :: pieces) out
  | tells (block : List Char) {pieces out : List Segment} (h : Streams [] pieces out) :
      Streams [] (⟨.command, block⟩ :: pieces) (⟨.command, block⟩ :: out)

variable {d : Delimiters} {inBlock : Bool} {t input before rest shown content : List Char}
  {pieces out : List Segment}

theorem Scan.unique {pieces' : List Segment} (h : Scan d inBlock t pieces) (h' : Scan d inBlock t pieces') :
    pieces' = pieces := by
  induction h generalizing pieces' with
  | lastGap habsent =>
    cases h' with
    | lastGap => rfl
    | gap hleft => exact absurd habsent hleft.not_absent
  | dropped habsent =>
    cases h' with
    | dropped => rfl
    | block hleft => exact absurd habsent hleft.not_absent
  | gap hleft _ ih =>
    cases h' with
    | lastGap habsent => exact absurd habsent hleft.not_absent
    | gap hleft' hrest' =>
      obtain ⟨rfl, rfl⟩ := hleft.unique hleft'
      rw [ih hrest']
  | block hleft _ ih =>
    cases h' with
    | dropped habsent => exact absurd habsent hleft.not_absent
    | block hleft' hrest' =>
      obtain ⟨rfl, rfl⟩ := hleft.unique hleft'
      rw [ih hrest']

/-- What comes out for a piece: a block as a whole, and of a gap only starts
of it. -/
def Shows (piece : Segment) (part : List Segment) : Prop :=
  match piece.kind with
  | .command => part = [piece]
  | .text => ∀ segment ∈ part, segment.kind = .text ∧ segment.content <+: piece.content

theorem Streams.parts (h : Streams shown pieces out) :
    ∃ parts, out = parts.flatten ∧ List.Forall₂ Shows pieces parts := by
  induction h with
  | done => exact ⟨[], rfl, .nil⟩
  | @shows shown text gap pieces out _ htext _ _ ih =>
    obtain ⟨_, rfl, hparts⟩ := ih
    obtain ⟨part, parts, hfirst, hrest, rfl⟩ := List.forall₂_cons_left_iff.1 hparts
    refine ⟨(⟨.text, text⟩ :: part) :: parts, rfl, .cons ?_ hrest⟩
    exact List.forall_mem_cons.2 ⟨⟨rfl, htext⟩, hfirst⟩
  | leaves _ _ _ ih =>
    obtain ⟨parts, rfl, hparts⟩ := ih
    exact ⟨[] :: parts, rfl, .cons (List.forall_mem_nil _) hparts⟩
  | tells block _ ih =>
    obtain ⟨parts, rfl, hparts⟩ := ih
    exact ⟨[⟨.command, block⟩] :: parts, rfl, .cons rfl hparts⟩

theorem Streams.commands (h : Streams shown pieces out) :
    out.filter (·.kind = .command) = pieces.filter (·.kind = .command) := by
  induction h with
  | done => rfl
  | shows _ _ _ _ ih => exact ih
  | leaves _ _ _ ih => exact ih
  | tells block _ ih => exact congrArg (⟨.command, block⟩ :: ·) ih

theorem Scan.text_of_closing_nil (h : Scan d inBlock t pieces) (hempty : d.closing = []) :
    ∀ piece ∈ pieces, piece.kind = .text := by
  induction h with
  | lastGap => exact List.forall_mem_singleton.2 rfl
  | dropped => exact List.forall_mem_nil _
  | gap _ _ ih => exact List.forall_mem_cons.2 ⟨rfl, ih⟩
  | block hleft => exact absurd hempty hleft.nonempty

/-- The first gap starts with what is passed of it. -/
theorem Scan.first_gap (h : Scan d false (content ++ (input ++ t)) pieces)
    (hpassed : Passed d.opening content input) :
    ∃ gap pieces', pieces = ⟨.text, gap⟩ :: pieces' ∧ content <+: gap := by
  cases h with
  | lastGap => exact ⟨_, [], rfl, List.prefix_append content _⟩
  | gap hleft => exact ⟨_, _, rfl, hpassed.prefix_before hleft⟩

namespace Splitter

variable {s : Splitter}

/-! ## One step -/

/-- The flag says whether there is more to be seen than was shown. -/
structure Keeps (s : Splitter) (shown : List Char) : Prop extends Apart s where
  shown_text : shown <+: s.text
  grown : s.hasGrown = !isBlankText (s.text.drop shown.length)

/-- What a splitter tells when `t` is the rest of the text, what it has of the
current piece included. -/
def Tells (s : Splitter) (shown t : List Char) (out : List Segment) : Prop :=
  ∃ pieces, Scan s.delimiters s.inBlock t pieces ∧ Streams shown pieces out

/-- Out of `s` comes `s'`, and what `s'` tells of the rest goes behind what
came out. -/
structure Leads (s : Splitter) (shown whole : List Char) (out : List Segment) (s' : Splitter)
    (shown' rest : List Char) : Prop where
  keeps : s'.Keeps shown'
  tells : ∀ out', s'.Tells shown' rest out' → s.Tells shown whole (out ++ out')

theorem Leads.trans {s₁ s₂ : Splitter} {shown₁ shown₂ whole rest₁ rest₂ : List Char} {out₁ out₂ : List Segment}
    (h₁ : s.Leads shown whole out₁ s₁ shown₁ rest₁) (h₂ : s₁.Leads shown₁ rest₁ out₂ s₂ shown₂ rest₂) :
    s.Leads shown whole (out₁ ++ out₂) s₂ shown₂ rest₂ := by
  refine ⟨h₂.keeps, fun out' h => ?_⟩
  rw [List.append_assoc]
  exact h₁.tells _ (h₂.tells _ h)

theorem keeps_new (d : Delimiters) : (new d).Keeps [] := ⟨(holds_new d).toApart, List.prefix_rfl, rfl⟩

theorem Keeps.release (h : s.Keeps shown) (cs : List Char) : (s.release cs).Keeps shown := by
  refine ⟨h.toApart.release cs, ?_, ?_⟩
  all_goals unfold Splitter.release; split
  · exact h.shown_text
  · exact h.shown_text.trans (List.prefix_append s.text cs)
  · exact h.grown
  · rw [List.drop_append_of_le_length h.shown_text.length_le]
    simp [h.grown, isBlankText, Bool.not_and]

theorem tells_release (s : Splitter) (cs : List Char) :
    (s.release cs).Tells shown t out ↔ s.Tells shown t out := by
  unfold Tells
  rw [release_delimiters, release_inBlock]

theorem Keeps.isBlank_of_not_grown (h : s.Keeps shown) (hgrown : s.hasGrown = false) :
    isBlankText (s.text.drop shown.length) = true := by
  simpa [hgrown] using h.grown

theorem Keeps.not_isBlank_of_grown (h : s.Keeps shown) (hgrown : s.hasGrown = true) :
    isBlankText (s.text.drop shown.length) = false := by
  simpa [hgrown] using h.grown

theorem Keeps.streams_gap (h : s.Keeps shown) (hrest : Streams [] pieces out) :
    Streams shown (⟨.text, s.text⟩ :: pieces) (s.showText.2 ++ out) := by
  rw [showText_snd]
  cases hgrown : s.hasGrown with
  | false => exact .leaves h.shown_text (h.isBlank_of_not_grown hgrown) hrest
  | true =>
    refine .shows h.shown_text List.prefix_rfl (h.not_isBlank_of_grown hgrown) (.leaves List.prefix_rfl ?_ hrest)
    rw [List.drop_length]
    rfl

theorem Keeps.leads_showText (h : s.Keeps shown) (hgap : s.inBlock = false)
    (hpassed : Passed s.delimiter s.soFar input) (t : List Char) :
    ∃ shown', s.Leads shown (s.soFar ++ (input ++ t)) s.showText.2 s.showText.1 shown'
      (s.soFar ++ (input ++ t)) := by
  rw [soFar_of_gap hgap, delimiter_of_gap hgap] at hpassed
  rw [soFar_of_gap hgap, showText_snd, showText_fst]
  cases hgrown : s.hasGrown with
  | false =>
    exact ⟨shown, ⟨⟨h.block_nil, h.text_nil⟩, h.shown_text, hgrown ▸ h.grown⟩, fun _ htells => htells⟩
  | true =>
    refine ⟨s.text, ⟨⟨h.block_nil, h.text_nil⟩, List.prefix_rfl, ?_⟩, ?_⟩
    · rw [List.drop_length]
      rfl
    · rintro out' ⟨pieces, hscan, hstreams⟩
      obtain ⟨gap, pieces', rfl, hstart⟩ := Scan.first_gap (hgap ▸ hscan) hpassed
      exact ⟨_, hscan, .shows h.shown_text hstart (h.not_isBlank_of_grown hgrown) hstreams⟩

theorem Keeps.leads_turn (h : s.Keeps shown) (hleft : Leftmost s.delimiter t s.soFar rest) :
    s.Leads shown t s.turn.2 s.turn.1 [] (s.turn.1.soFar ++ rest) := by
  obtain ⟨hapart, hsoFar⟩ := h.toApart.turn
  rw [hsoFar, List.nil_append]
  cases hblock : s.inBlock with
  | true =>
    obtain rfl : shown = [] := List.prefix_nil.1 (h.text_nil hblock ▸ h.shown_text)
    rw [delimiter_of_block hblock, soFar_of_block hblock] at hleft
    rw [turn_of_block hblock] at hapart ⊢
    refine ⟨⟨hapart, h.shown_text, h.grown⟩, ?_⟩
    rintro out' ⟨pieces, hscan, hstreams⟩
    exact ⟨_, hblock ▸ .block hleft hscan, .tells s.block hstreams⟩
  | false =>
    rw [delimiter_of_gap hblock, soFar_of_gap hblock] at hleft
    rw [turn_of_gap hblock] at hapart ⊢
    refine ⟨⟨hapart, List.prefix_rfl, rfl⟩, ?_⟩
    rintro out' ⟨pieces, hscan, hstreams⟩
    exact ⟨_, hblock ▸ .gap hleft hscan, h.streams_gap hstreams⟩

theorem Keeps.leads_found (h : s.Keeps shown) (hleft : Leftmost s.delimiter t (s.soFar ++ before) rest) :
    s.Leads shown t (s.release before).turn.2 (s.release before).turn.1 []
      ((s.release before).turn.1.soFar ++ rest) := by
  rw [← release_soFar, ← release_delimiter s before] at hleft
  have hturn := (h.release before).leads_turn hleft
  exact ⟨hturn.keeps, fun out' htells => (tells_release s before).1 (hturn.tells out' htells)⟩

theorem Keeps.leads_read (h : s.Keeps shown) (hpassed : Passed s.delimiter s.soFar input) (t : List Char) :
    ∃ shown', s.Leads shown (s.soFar ++ (input ++ t)) (s.read input).2 (s.read input).1 shown'
      ((s.read input).1.soFar ++ ((s.read input).1.held ++ t)) := by
  induction s, input using read.induct generalizing shown with
  | case1 s input before rest hcut _ _ hturn _ _ _ ih =>
    obtain ⟨-, hsoFar⟩ := (h.toApart.release before).turn
    have hfound := h.leads_found (hpassed.leftmost (leftmost_of_cut hcut) t)
    rw [read_of_found hcut]
    rw [hturn] at hsoFar hfound ⊢
    obtain ⟨shown', hrest⟩ := ih hfound.keeps (hsoFar ▸ passed_nil _ _)
    exact ⟨shown', hfound.trans hrest⟩
  | case2 s input hcut _ _ _ =>
    rw [read_of_not_found hcut]
    obtain ⟨⟨hblock, htext⟩, hshown, hgrown⟩ := h.release (holdBack s.delimiter input).1
    refine ⟨shown, ⟨⟨hblock, htext⟩, hshown, hgrown⟩, fun out' htells => ?_⟩
    have hwhole : s.soFar ++ (input ++ t) = (s.release (holdBack s.delimiter input).1).soFar ++
        ((holdBack s.delimiter input).2 ++ t) := by
      rw [release_soFar, List.append_assoc, ← List.append_assoc (holdBack _ _).1, holdBack_append]
    rw [hwhole]
    exact (tells_release s _).1 htells

theorem Keeps.leads_feed (h : s.Keeps shown) (hholds : s.Holds) (token t : List Char) :
    ∃ shown', s.Leads shown (s.soFar ++ (s.held ++ (token ++ t))) (s.feed token).2 (s.feed token).1 shown'
      ((s.feed token).1.soFar ++ ((s.feed token).1.held ++ t)) := by
  have hempty : ({ s with held := [] } : Splitter).Keeps shown :=
    ⟨⟨h.block_nil, h.text_nil⟩, h.shown_text, h.grown⟩
  have hpassed : Passed s.delimiter s.soFar (s.held ++ token) := hholds.passed.append token
  obtain ⟨shown₁, hread⟩ := hempty.leads_read hpassed t
  have hnext : ({ s with held := [] }.read (s.held ++ token)).1.Holds := hempty.toApart.read hpassed
  rw [List.append_assoc] at hread
  rw [feed_eq]
  dsimp only
  split
  next => exact ⟨shown₁, hread.keeps, hread.tells⟩
  next hgap =>
    obtain ⟨shown₂, hshow⟩ := hread.keeps.leads_showText (Bool.eq_false_iff.2 hgap) hnext.passed t
    have hboth := hread.trans hshow
    rw [showText_fst] at hboth ⊢
    exact ⟨shown₂, hboth.keeps, hboth.tells⟩

/-! ## A whole run -/

theorem Keeps.tells_finish (h : s.Keeps shown) (hholds : s.Holds) :
    s.Tells shown (s.soFar ++ s.held) s.finish := by
  have habsent := hholds.passed.absent hholds.mayBecome.absent
  unfold finish Tells
  cases hblock : s.inBlock with
  | true =>
    obtain rfl : shown = [] := List.prefix_nil.1 (h.text_nil hblock ▸ h.shown_text)
    rw [delimiter_of_block hblock] at habsent
    exact ⟨[], .dropped habsent, .done⟩
  | false =>
    have hstreams := (h.release s.held).streams_gap .done
    rw [← soFar_of_gap (by rw [release_inBlock, hblock]), release_soFar, List.append_nil] at hstreams
    rw [delimiter_of_gap hblock] at habsent
    exact ⟨_, .lastGap habsent, hstreams⟩

theorem Keeps.tells_run (h : s.Keeps shown) (hholds : s.Holds) (count : Nat) (tokens : List (List Char)) :
    s.Tells shown (s.soFar ++ (s.held ++ tokens.flatten)) ((s.run count tokens).map (·.2)) := by
  induction tokens generalizing s shown count with
  | nil =>
    have hfinish : (s.run count []).map (·.2) = s.finish := by
      rw [run, List.map_map]
      exact List.map_id _
    rw [hfinish, List.flatten_nil, List.append_nil]
    exact h.tells_finish hholds
  | cons token tokens ih =>
    have hfeed : (s.run count (token :: tokens)).map (·.2) =
        (s.feed token).2 ++ ((s.feed token).1.run (count + 1) tokens).map (·.2) := by
      rw [run, List.map_append, List.map_map]
      exact congrArg (· ++ _) (List.map_id _)
    obtain ⟨shown', hstep⟩ := h.leads_feed hholds token tokens.flatten
    rw [hfeed, List.flatten_cons]
    exact hstep.tells _ (ih hstep.keeps (hholds.feed token) (count + 1))

end Splitter

/-- **However a text is cut into tokens, the segments follow its scan.** There
is one scan; its blocks come out as they are, in order, and what comes out of
a gap stands between the blocks around it. A delimiter that is empty is never
found. -/
theorem segments_follow_scan (d : Delimiters) (tokens : List (List Char)) :
    ∃ pieces, (∀ pieces', Scan d false tokens.flatten pieces' ↔ pieces' = pieces) ∧
      (segments d tokens).filter (·.kind = .command) = pieces.filter (·.kind = .command) ∧
      (∃ parts, segments d tokens = parts.flatten ∧ List.Forall₂ Shows pieces parts) ∧
      (d.opening = [] → pieces = [⟨.text, tokens.flatten⟩]) ∧
      (d.closing = [] → ∀ segment ∈ segments d tokens, segment.kind = .text) := by
  obtain ⟨pieces, hscan, hstreams⟩ : (Splitter.new d).Tells [] tokens.flatten (segments d tokens) :=
    (Splitter.keeps_new d).tells_run (Splitter.holds_new d) 0 tokens
  replace hscan : Scan d false tokens.flatten pieces := hscan
  refine ⟨pieces, ?_, hstreams.commands, hstreams.parts, ?_, ?_⟩
  · intro pieces'
    exact ⟨hscan.unique, fun heq => heq ▸ hscan⟩
  · intro hempty
    exact (hscan.unique (.lastGap fun hne => absurd hempty hne)).symm
  · intro hempty segment hmem
    cases hkind : segment.kind with
    | text => rfl
    | command =>
      have hpiece : segment ∈ pieces.filter (·.kind = .command) := by
        rw [← hstreams.commands]
        exact List.mem_filter.2 ⟨hmem, decide_eq_true hkind⟩
      have htext := hscan.text_of_closing_nil hempty segment (List.mem_of_mem_filter hpiece)
      exact hkind.symm.trans htext

/-! An opening delimiter that overlaps itself, cut twice. -/

example : segments ⟨['a', 'a', 'b'], ['b', 'a']⟩ [['x', 'a'], ['a', 'a'], ['b', 'c', 'b'], ['a', 'y']] =
    [⟨.text, ['x']⟩, ⟨.text, ['x', 'a']⟩, ⟨.command, ['c']⟩, ⟨.text, ['y']⟩] := by decide +kernel

end ReplyStream
