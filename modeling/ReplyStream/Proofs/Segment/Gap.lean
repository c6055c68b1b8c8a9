/-
What is shown of the text between two blocks while it comes in: longer and
longer starts of it, each with more to be seen than the one before, until there
is nothing more to be seen (`Unfolds`). Nothing behind the text is ever shown,
so not a single character of the delimiter that ends it; and where the tokens
were cut decides how often something is shown, but up to white space at the end
not what is shown last (`texts_unfold`).
-/
import ReplyStream.Proofs.Segment.Scan
import ReplyStream.Proofs.Text.Trim

namespace ReplyStream

open Text (isBlank isBlankText trimEnd)

/-- What is to be seen of a text. -/
def visible (s : List Char) : List Char := s.filter (!isBlank ·)

/-- The texts shown of a gap, one after another. -/
structure Unfolds (gap : List Char) (texts : List (List Char)) : Prop where
  starts : ∀ t ∈ texts, t <+: gap ∧ 0 < (visible t).length
  grows : texts.Pairwise fun t t' =>
    t <+: t' ∧ t.length < t'.length ∧ (visible t).length < (visible t').length
  whole : visible (texts.getLastD []) = visible gap
  silent : isBlankText gap = true → texts = []

/-- What comes out for a piece: a block as a whole, and of a gap texts that
unfold it. -/
def Unfolded (piece : Segment) (part : List Segment) : Prop :=
  match piece.kind with
  | .command => part = [piece]
  | .text => (∀ segment ∈ part, segment.kind = .text) ∧ Unfolds piece.content (part.map (·.content))

/-- What is shown last of a piece. -/
def lastShown (part : List Segment) : List Char := (part.map (·.content)).getLastD []

variable {s t shown gap : List Char} {texts : List (List Char)}

/-! ## What is to be seen -/

theorem visible_eq_nil : visible s = [] ↔ isBlankText s = true := by
  simp [visible, isBlankText]

theorem visible_append (s t : List Char) : visible (s ++ t) = visible s ++ visible t := List.filter_append ..

/-- Behind a start there is as much to be seen as behind what was dropped. -/
theorem visible_split (h : s <+: t) : visible t = visible s ++ visible (t.drop s.length) := by
  obtain ⟨rest, rfl⟩ := h
  rw [visible_append, List.drop_left]

theorem length_visible_lt (h : s <+: t) (hmore : isBlankText (t.drop s.length) = false) :
    (visible s).length < (visible t).length := by
  have hsome : visible (t.drop s.length) ≠ [] := fun hnone => by
    rw [visible_eq_nil.1 hnone] at hmore
    cases hmore
  have hpos := List.length_pos_iff.2 hsome
  rw [visible_split h, List.length_append]
  omega

theorem length_lt_of_more (hmore : isBlankText (t.drop s.length) = false) : s.length < t.length := by
  by_contra hle
  rw [List.drop_eq_nil_of_le (Nat.le_of_not_lt hle)] at hmore
  cases hmore

/-- More is to be seen in what starts with a text that had more. -/
theorem not_isBlank_of_prefix (hshown : shown <+: s) (hmore : isBlankText (s.drop shown.length) = false)
    (h : s <+: t) : isBlankText (t.drop shown.length) = false := by
  obtain ⟨rest, rfl⟩ := h
  rw [List.drop_append_of_le_length hshown.length_le]
  simp only [isBlankText, List.all_append, Bool.and_eq_false_iff] at hmore ⊢
  exact .inl hmore

theorem trimEnd_eq_of_prefix (h : t <+: gap) (hblank : isBlankText (gap.drop t.length) = true) :
    trimEnd t = trimEnd gap := by
  obtain ⟨rest, rfl⟩ := h
  rw [List.drop_left] at hblank
  exact (Text.trimEnd_append_blank t hblank).symm

/-! ## Texts that unfold a gap -/

/-- The texts shown of a gap of which something had been shown. -/
structure UnfoldsFrom (shown gap : List Char) (texts : List (List Char)) : Prop where
  starts : ∀ t ∈ texts, shown <+: t ∧ t <+: gap ∧ isBlankText (t.drop shown.length) = false
  grows : texts.Pairwise fun t t' => t <+: t' ∧ isBlankText (t'.drop t.length) = false
  last : texts.getLastD shown <+: gap
  whole : isBlankText (gap.drop (texts.getLastD shown).length) = true

theorem UnfoldsFrom.none (hshown : shown <+: gap) (hblank : isBlankText (gap.drop shown.length) = true) :
    UnfoldsFrom shown gap [] :=
  ⟨List.forall_mem_nil _, .nil, hshown, hblank⟩

theorem UnfoldsFrom.cons (h : UnfoldsFrom t gap texts) (hshown : shown <+: t) (ht : t <+: gap)
    (hmore : isBlankText (t.drop shown.length) = false) : UnfoldsFrom shown gap (t :: texts) where
  starts := by
    refine List.forall_mem_cons.2 ⟨⟨hshown, ht, hmore⟩, fun t' ht' => ?_⟩
    obtain ⟨hstart, hgap, -⟩ := h.starts t' ht'
    exact ⟨hshown.trans hstart, hgap, not_isBlank_of_prefix hshown hmore hstart⟩
  grows := List.pairwise_cons.2 ⟨fun t' ht' => ⟨(h.starts t' ht').1, (h.starts t' ht').2.2⟩, h.grows⟩
  last := by
    rw [List.getLastD_cons]
    exact h.last
  whole := by
    rw [List.getLastD_cons]
    exact h.whole

theorem UnfoldsFrom.unfolds (h : UnfoldsFrom [] gap texts) : Unfolds gap texts where
  starts t ht := by
    obtain ⟨hstart, hgap, hmore⟩ := h.starts t ht
    exact ⟨hgap, length_visible_lt hstart hmore⟩
  grows := h.grows.imp fun {t t'} hmore =>
    ⟨hmore.1, length_lt_of_more hmore.2, length_visible_lt hmore.1 hmore.2⟩
  whole := by
    rw [visible_split h.last, visible_eq_nil.2 h.whole, List.append_nil]
  silent hblank := by
    refine List.eq_nil_iff_forall_not_mem.2 fun t ht => ?_
    obtain ⟨-, hgap, hmore⟩ := h.starts t ht
    have hnone := not_isBlank_of_prefix List.nil_prefix hmore hgap
    rw [List.length_nil, List.drop_zero, hblank] at hnone
    cases hnone

/-- What comes out for a piece of which something had been shown. -/
def UnfoldedFrom (shown : List Char) (piece : Segment) (part : List Segment) : Prop :=
  match piece.kind with
  | .command => part = [piece]
  | .text => (∀ segment ∈ part, segment.kind = .text) ∧
      UnfoldsFrom shown piece.content (part.map (·.content))

theorem UnfoldedFrom.unfolded {piece : Segment} {part : List Segment} (h : UnfoldedFrom [] piece part) :
    Unfolded piece part := by
  unfold UnfoldedFrom at h
  unfold Unfolded
  split at h
  · exact h
  · exact ⟨h.1, h.2.unfolds⟩

/-- However often something was shown of a piece, what was shown last is the
piece up to white space at the end. -/
theorem UnfoldedFrom.trimEnd_eq {piece : Segment} {part : List Segment} (h : UnfoldedFrom [] piece part) :
    trimEnd (lastShown part) = trimEnd piece.content := by
  unfold UnfoldedFrom at h
  split at h
  · rw [h]
    rfl
  · exact trimEnd_eq_of_prefix h.2.last h.2.whole

theorem map_trimEnd_of_unfolded {pieces : List Segment} {parts : List (List Segment)}
    (h : List.Forall₂ (UnfoldedFrom []) pieces parts) :
    parts.map (fun part => trimEnd (lastShown part)) = pieces.map fun piece => trimEnd piece.content := by
  induction h with
  | nil => rfl
  | cons hpart _ ih => rw [List.map_cons, List.map_cons, hpart.trimEnd_eq, ih]

/-- What is told of a scan comes in parts, one for each piece, where something
of the first piece may have been shown. -/
theorem Streams.unfolded {pieces out : List Segment} (h : Streams shown pieces out) :
    (pieces = [] ∧ out = []) ∨ ∃ piece rest part parts, pieces = piece :: rest ∧
      out = (part :: parts).flatten ∧ UnfoldedFrom shown piece part ∧ List.Forall₂ (UnfoldedFrom []) rest parts := by
  have hrest : ∀ {pieces out : List Segment}, ((pieces = [] ∧ out = []) ∨
      ∃ piece rest part parts, pieces = piece :: rest ∧ out = (part :: parts).flatten ∧
        UnfoldedFrom [] piece part ∧ List.Forall₂ (UnfoldedFrom []) rest parts) →
      ∃ parts, out = parts.flatten ∧ List.Forall₂ (UnfoldedFrom []) pieces parts := by
    rintro pieces out (⟨rfl, rfl⟩ | ⟨piece, rest, part, parts, rfl, rfl, hpart, hparts⟩)
    · exact ⟨[], rfl, .nil⟩
    · exact ⟨part :: parts, rfl, .cons hpart hparts⟩
  induction h with
  | done => exact .inl ⟨rfl, rfl⟩
  | @shows shown text gap pieces out hshown htext hmore _ ih =>
    obtain ⟨hnil, -⟩ | ⟨piece, rest, part, parts, heq, rfl, hpart, hparts⟩ := ih
    · cases hnil
    · cases heq
      refine .inr ⟨_, _, ⟨.text, text⟩ :: part, parts, rfl, rfl, ?_, hparts⟩
      exact ⟨List.forall_mem_cons.2 ⟨rfl, hpart.1⟩, hpart.2.cons hshown htext hmore⟩
  | leaves hshown hblank _ ih =>
    obtain ⟨parts, rfl, hparts⟩ := hrest ih
    exact .inr ⟨_, _, [], parts, rfl, rfl, ⟨List.forall_mem_nil _, .none hshown hblank⟩, hparts⟩
  | tells block _ ih =>
    obtain ⟨parts, rfl, hparts⟩ := hrest ih
    exact .inr ⟨_, _, [⟨.command, block⟩], parts, rfl, rfl, rfl, hparts⟩

/-- The segments of a stream of tokens come in parts, one for each piece of the scan. -/
theorem exists_unfolded (d : Delimiters) (tokens : List (List Char)) :
    ∃ pieces parts, Scan d false tokens.flatten pieces ∧ segments d tokens = parts.flatten ∧
      List.Forall₂ (UnfoldedFrom []) pieces parts := by
  obtain ⟨pieces, hscan, hstreams⟩ : (Splitter.new d).Tells [] tokens.flatten (segments d tokens) :=
    (Splitter.keeps_new d).tells_run (Splitter.holds_new d) 0 tokens
  obtain ⟨rfl, hout⟩ | ⟨piece, rest, part, parts, rfl, hout, hpart, hparts⟩ := hstreams.unfolded
  · exact ⟨[], [], hscan, hout, .nil⟩
  · exact ⟨piece :: rest, part :: parts, hscan, hout, .cons hpart hparts⟩

/-- **What is shown of a text unfolds it**, gap by gap, and never goes beyond
the delimiter that ends a gap; and whichever way the text is cut into tokens,
each gap ends with the same text shown, up to white space at the end. -/
theorem texts_unfold (d : Delimiters) (tokens : List (List Char)) :
    ∃ pieces, (∀ pieces', Scan d false tokens.flatten pieces' ↔ pieces' = pieces) ∧
      ∃ parts, segments d tokens = parts.flatten ∧ List.Forall₂ Unfolded pieces parts ∧
        ∀ tokens' : List (List Char), tokens'.flatten = tokens.flatten →
          ∃ parts', segments d tokens' = parts'.flatten ∧ List.Forall₂ Unfolded pieces parts' ∧
            parts'.map (fun part => trimEnd (lastShown part)) = parts.map fun part => trimEnd (lastShown part) := by
  obtain ⟨pieces, parts, hscan, hout, hparts⟩ := exists_unfolded d tokens
  refine ⟨pieces, fun pieces' => ⟨hscan.unique, fun heq => heq ▸ hscan⟩, parts, hout,
    hparts.imp fun _ _ => UnfoldedFrom.unfolded, fun tokens' hsame => ?_⟩
  obtain ⟨pieces', parts', hscan', hout', hparts'⟩ := exists_unfolded d tokens'
  rw [hsame] at hscan'
  obtain rfl := hscan.unique hscan'
  refine ⟨parts', hout', hparts'.imp fun _ _ => UnfoldedFrom.unfolded, ?_⟩
  rw [map_trimEnd_of_unfolded hparts', map_trimEnd_of_unfolded hparts]

/-! A blank gap is not shown, and one that grows only by blanks not again. -/

example : segments ⟨['['], [']']⟩ [['[', 'a', ']', ' '], ['['], ['b', ']', 'x', ' '], [' '], ['y']] =
    [⟨.command, ['a']⟩, ⟨.command, ['b']⟩, ⟨.text, ['x', ' ']⟩, ⟨.text, ['x', ' ', ' ', 'y']⟩] := by decide +kernel

end ReplyStream
