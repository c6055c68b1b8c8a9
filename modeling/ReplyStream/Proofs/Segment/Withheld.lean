/-
A splitter holds back what it must and no more (`withholds_longest`).

Which delimiters a text completes is said of its bytes, without a word about
tokens, characters or splitters: one after another, each where it first occurs
behind the one before (`Delimiters.Completes`). Between two tokens a splitter is
behind the last of them, and has taken in all that was read since; that is
carried through a run (`Splitter.Stands`). What is said of the held end does not
need the run: an ending that starts the delimiter lies behind what is passed, or
the delimiter would begin there if its rest came (`Passed.suffix_of_unfinished`).
-/
import Mathlib.Logic.Relation
import Mathlib.Order.Bounds.Defs
import ReplyStream.Proofs.Segment.Hold
import ReplyStream.Proofs.Text.Occurrence

namespace ReplyStream

open Text (byteLength IsBoundary Spells MatchesAt OccursAt occursAt_iff)

variable {d : Delimiters} {inBlock : Bool} {delimiter content input ending before rest front : List Char}
  {text : String} {n i : Nat}

/-! ## The delimiters a text completes -/

/-- A gap or a block, and the byte it begins at. -/
structure Place where
  inBlock : Bool
  start : Nat

/-- The delimiter that ends a block, or a gap. -/
def Delimiters.sought (d : Delimiters) (inBlock : Bool) : List Char :=
  if inBlock then d.closing else d.opening

namespace Delimiters

/-- From the piece at a place on, the bytes of a text complete the delimiter
that ends it, and the next piece begins behind. -/
inductive Completes (d : Delimiters) (text : String) : Place → Place → Prop where
  | first {p : Place} {i : Nat} (hfrom : p.start ≤ i) (hat : OccursAt (d.sought p.inBlock) text i)
      (hfirst : ∀ j, p.start ≤ j → j < i → ¬ OccursAt (d.sought p.inBlock) text j) :
      Completes d text p ⟨!p.inBlock, i + byteLength (d.sought p.inBlock)⟩

/-- A place is behind the last delimiter that a text completes. -/
structure EndsIn (d : Delimiters) (text : String) (p : Place) : Prop where
  reached : Relation.ReflTransGen (d.Completes text) ⟨false, 0⟩ p
  absent : ∀ i, p.start ≤ i → ¬ OccursAt (d.sought p.inBlock) text i

theorem Completes.rightUnique (d : Delimiters) (text : String) : Relator.RightUnique (d.Completes text) := by
  rintro p q q' ⟨hfrom, hat, hfirst⟩ ⟨hfrom', hat', hfirst'⟩
  rename_i i i'
  obtain hlt | rfl | hlt := Nat.lt_trichotomy i i'
  · exact absurd hat (hfirst' i hfrom hlt)
  · rfl
  · exact absurd hat' (hfirst i' hfrom' hlt)

theorem Completes.append {p q : Place} (h : d.Completes text p q) (more : String) :
    d.Completes (text ++ more) p q := by
  obtain ⟨hfrom, hat, hfirst⟩ := h
  refine .first hfrom (hat.append more) fun j hj hlt hocc => hfirst j hj hlt ?_
  -- an occurrence in front of one in the text ends in the text
  exact (Text.matchesAt_append more (Nat.le_trans (by omega) hat.inText)).1 hocc

theorem reached_append {p q : Place} (h : Relation.ReflTransGen (d.Completes text) p q) (more : String) :
    Relation.ReflTransGen (d.Completes (text ++ more)) p q :=
  h.lift id fun _ _ hcompletes => hcompletes.append more

theorem EndsIn.eq_of_reached {p q : Place} (h : d.EndsIn text p) (hq : Relation.ReflTransGen (d.Completes text) p q) :
    q = p := by
  obtain rfl | ⟨_, ⟨hfrom, hat, -⟩, -⟩ := hq.cases_head
  · rfl
  · exact absurd hat (h.absent _ hfrom)

theorem EndsIn.unique {p q : Place} (h : d.EndsIn text p) (h' : d.EndsIn text q) : q = p := by
  -- the one of the two that is reached first has no next
  obtain hpq | hqp := Relation.ReflTransGen.total_of_right_unique (Completes.rightUnique d text) h.reached h'.reached
  · exact h.eq_of_reached hpq
  · exact (h'.eq_of_reached hqp).symm

/-- Among characters the first occurrence in a piece completes its delimiter. -/
theorem completes_of_leftmost (hleft : Leftmost (d.sought inBlock) content before rest) :
    d.Completes (String.ofList (front ++ content)) ⟨inBlock, byteLength front⟩
      ⟨!inBlock, byteLength (front ++ (before ++ d.sought inBlock))⟩ := by
  have hhere : OccursAt (d.sought inBlock) (String.ofList (front ++ content)) (byteLength (front ++ before)) :=
    (occursAt_iff hleft.nonempty).2 ⟨front ++ before, rest, by simp [hleft.here], rfl⟩
  have hfront : byteLength front ≤ byteLength (front ++ before) :=
    Text.byteLength_le_of_isPrefix (List.prefix_append front before)
  rw [← List.append_assoc, Text.byteLength_append _ (d.sought inBlock)]
  refine .first (p := ⟨inBlock, byteLength front⟩) hfront hhere fun j hj hlt hocc => ?_
  obtain ⟨before', rest', hsplit, rfl⟩ := hocc.split_behind hleft.nonempty hj
  have hstarts : before <+: before' :=
    List.prefix_of_prefix_length_le ⟨_, hleft.here.symm⟩ ⟨_, hsplit.symm⟩ (hleft.first before' rest' hsplit)
  have := Text.byteLength_le_of_isPrefix hstarts
  simp only [Text.byteLength_append] at hlt
  omega

end Delimiters

/-! ## What is held back behind passed content -/

/-- The end of a text is the beginning of a delimiter, and not all of it. -/
structure Unfinished (delimiter text ending : List Char) : Prop where
  ends : ending <:+ text
  starts : ending <+: delimiter
  proper : ending ≠ delimiter

/-- The same of bytes: the last `n` of a text, which has as many behind the byte
`start`, are the first of a delimiter that has more. -/
structure UnfinishedBytes (delimiter : List Char) (text : String) (start n : Nat) : Prop where
  behind : start + n ≤ text.utf8ByteSize
  proper : n < byteLength delimiter
  starts : MatchesAt delimiter text (text.utf8ByteSize - n) n

theorem size_front (front content : List Char) :
    (String.ofList (front ++ content)).utf8ByteSize = byteLength front + byteLength content := by
  rw [Text.utf8ByteSize_ofList, Text.byteLength_append]

/-- Bytes at the end that may become the delimiter are whole characters. -/
theorem UnfinishedBytes.exists_ending (hne : delimiter ≠ [])
    (h : UnfinishedBytes delimiter (String.ofList (front ++ content)) (byteLength front) n) :
    ∃ ending, Unfinished delimiter content ending ∧ byteLength ending = n := by
  obtain ⟨hbehind, hproper, hstarts⟩ := h
  rcases Nat.eq_zero_or_pos n with rfl | hpos
  · exact ⟨[], ⟨List.nil_suffix, List.nil_prefix, hne.symm⟩, rfl⟩
  obtain ⟨before, ending, hsplit, rfl, hending⟩ := hstarts.suffix hpos (by omega)
  rw [String.toList_ofList] at hsplit
  have hfront : byteLength front ≤ byteLength before := by
    have := congrArg byteLength hsplit
    rw [size_front] at hbehind
    simp only [Text.byteLength_append] at this
    omega
  obtain ⟨between, rfl, hcontent⟩ := Text.exists_between hsplit hfront
  refine ⟨ending, ⟨⟨between, hcontent.symm⟩, hending, ?_⟩, rfl⟩
  rintro rfl
  exact Nat.lt_irrefl _ hproper

theorem Unfinished.bytes (h : Unfinished delimiter content ending) (front : List Char) :
    UnfinishedBytes delimiter (String.ofList (front ++ content)) (byteLength front) (byteLength ending) := by
  obtain ⟨⟨between, rfl⟩, hstarts, hproper⟩ := h
  have hsize := size_front front (between ++ ending)
  rw [Text.byteLength_append between] at hsize
  have hplace : (String.ofList (front ++ (between ++ ending))).utf8ByteSize - byteLength ending =
      byteLength (front ++ between) := by
    rw [Text.byteLength_append]
    omega
  have hsplit : (String.ofList (front ++ (between ++ ending))).toList = (front ++ between) ++ (ending ++ []) := by
    simp
  refine ⟨by omega, Text.byteLength_lt_of_isPrefix hstarts hproper, ?_⟩
  rw [hplace]
  exact Text.matchesAt_of_split hsplit hstarts

theorem MayBecome.unfinished (h : MayBecome delimiter input) (hne : delimiter ≠ []) (content : List Char) :
    Unfinished delimiter (content ++ input) input := by
  have hends : input <:+ content ++ input := List.suffix_append content input
  rcases h with rfl | hstart
  · exact ⟨hends, List.nil_prefix, hne.symm⟩
  · obtain ⟨hstarts, hlt⟩ := isProperStart_iff.1 hstart
    exact ⟨hends, hstarts, fun heq => absurd hlt (heq ▸ Nat.lt_irrefl _)⟩

/-- What may become the delimiter lies behind what is passed: if the rest of it
came, the delimiter would begin there. -/
theorem Passed.suffix_of_unfinished (h : Passed delimiter content input)
    (hending : Unfinished delimiter (content ++ input) ending) : ending <:+ input := by
  obtain ⟨⟨before, hsplit⟩, ⟨t, rfl⟩, hproper⟩ := hending
  have hne : ending ++ t ≠ [] := fun hnil => hproper (by simp_all)
  have hlength : content.length ≤ before.length := by
    refine h t before [] hne ?_
    rw [List.append_nil, ← List.append_assoc, ← List.append_assoc, hsplit]
  refine List.suffix_of_suffix_length_le ⟨before, hsplit⟩ (List.suffix_append content input) ?_
  have := congrArg List.length hsplit
  simp only [List.length_append] at this
  omega

namespace Splitter

variable {s : Splitter}

/-! ## Reading -/

/-- The last delimiter completed so far ends where `front` does. What the
splitter has of the piece comes behind it, and then what is to be read. -/
def Stands (s : Splitter) (front input : List Char) : Prop :=
  Relation.ReflTransGen (s.delimiters.Completes (String.ofList (front ++ (s.soFar ++ input))))
    ⟨false, 0⟩ ⟨s.inBlock, byteLength front⟩

/-- From `s` with `input` to be read comes `s'`, which holds the end of it. -/
structure Reads (s : Splitter) (front input : List Char) (s' : Splitter) (front' : List Char) : Prop where
  stands : s'.Stands front' s'.held
  delimiters_eq : s'.delimiters = s.delimiters
  whole_eq : front' ++ (s'.soFar ++ s'.held) = front ++ (s.soFar ++ input)

theorem delimiter_eq_sought (s : Splitter) : s.delimiter = s.delimiters.sought s.inBlock := rfl

theorem stands_new (d : Delimiters) : (new d).Stands [] [] := .refl

theorem turn_delimiters (s : Splitter) : s.turn.1.delimiters = s.delimiters := by
  cases h : s.inBlock with
  | true => rw [turn_of_block h]
  | false => rw [turn_of_gap h]

theorem turn_inBlock (s : Splitter) : s.turn.1.inBlock = !s.inBlock := by
  cases h : s.inBlock with
  | true =>
    rw [turn_of_block h]
    rfl
  | false =>
    rw [turn_of_gap h]
    rfl

/-- The delimiter is found with `before` in front of it. -/
theorem Stands.found (h : s.Stands front input) (hapart : s.Apart) (hpassed : Passed s.delimiter s.soFar input)
    (hcut : cut s.delimiter input = some (before, rest)) :
    (s.release before).turn.1.Stands (front ++ ((s.soFar ++ before) ++ s.delimiter)) rest := by
  -- what was found in the input is the first of the piece, as nothing begins in what is passed
  have hleft : Leftmost (s.delimiters.sought s.inBlock) (s.soFar ++ input) (s.soFar ++ before) rest := by
    have := hpassed.leftmost (leftmost_of_cut hcut) []
    rwa [List.append_nil, List.append_nil] at this
  have hwhole : front ++ ((s.soFar ++ before) ++ s.delimiter) ++ rest = front ++ (s.soFar ++ input) := by
    rw [hleft.here, List.append_assoc, List.append_assoc]
    rfl
  unfold Stands
  rw [(hapart.release before).turn.2, List.nil_append, hwhole, turn_delimiters, turn_inBlock, release_delimiters,
    release_inBlock]
  exact h.tail (Delimiters.completes_of_leftmost hleft)

theorem Stands.read (h : s.Stands front input) (hapart : s.Apart) (hpassed : Passed s.delimiter s.soFar input) :
    ∃ front', s.Reads front input (s.read input).1 front' := by
  induction s, input using read.induct generalizing front with
  | case1 s input before rest hcut _ _ hturn _ _ _ ih =>
    obtain ⟨hapart', hsoFar⟩ := (hapart.release before).turn
    have hfound := h.found hapart hpassed hcut
    have hdelimiters : (s.release before).turn.1.delimiters = s.delimiters := by
      rw [turn_delimiters, release_delimiters]
    rw [read_of_found hcut]
    rw [hturn] at hapart' hsoFar hfound hdelimiters ⊢
    -- behind a delimiter nothing of the new piece has been taken in, so nothing of it is passed
    obtain ⟨front', hrest⟩ := ih hfound hapart' (hsoFar ▸ passed_nil _ _)
    refine ⟨front', hrest.stands, hrest.delimiters_eq.trans hdelimiters, ?_⟩
    rw [hrest.whole_eq, hsoFar, (leftmost_of_cut hcut).here]
    simp only [List.append_assoc, List.nil_append]
  | case2 s input hcut _ _ _ =>
    rw [read_of_not_found hcut]
    have hwhole : (s.release (holdBack s.delimiter input).1).soFar ++ (holdBack s.delimiter input).2 =
        s.soFar ++ input := by
      rw [release_soFar, List.append_assoc, holdBack_append]
    refine ⟨front, ?_, release_delimiters s _, congrArg (front ++ ·) hwhole⟩
    show Relation.ReflTransGen ((s.release _).delimiters.Completes
      (String.ofList (front ++ ((s.release _).soFar ++ (holdBack s.delimiter input).2)))) _ ⟨(s.release _).inBlock, _⟩
    rw [hwhole, release_delimiters, release_inBlock]
    exact h

theorem Stands.append (h : s.Stands front input) (token : List Char) :
    ({ s with held := [] } : Splitter).Stands front (input ++ token) := by
  have hwhole : String.ofList (front ++ (s.soFar ++ (input ++ token))) =
      String.ofList (front ++ (s.soFar ++ input)) ++ String.ofList token := by
    simp only [String.ofList_append, String.append_assoc]
  show Relation.ReflTransGen (s.delimiters.Completes (String.ofList (front ++ (s.soFar ++ (input ++ token))))) _ _
  rw [hwhole]
  exact Delimiters.reached_append h (String.ofList token)

theorem Stands.feed (h : s.Stands front s.held) (hholds : s.Holds) (token : List Char) :
    ∃ front', s.Reads front (s.held ++ token) (s.feed token).1 front' := by
  have hapart : ({ s with held := [] } : Splitter).Apart := ⟨hholds.block_nil, hholds.text_nil⟩
  obtain ⟨front', hread⟩ := (h.append token).read hapart (hholds.passed.append token)
  refine ⟨front', ?_⟩
  rw [feed_eq]
  dsimp only
  split
  · exact ⟨hread.stands, hread.delimiters_eq, hread.whole_eq⟩
  · rw [showText_fst]
    exact ⟨hread.stands, hread.delimiters_eq, hread.whole_eq⟩

/-! ## A run, between two tokens -/

/-- The splitter behind some tokens. -/
def after (s : Splitter) (tokens : List (List Char)) : Splitter :=
  tokens.foldl (fun s token => (s.feed token).1) s

/-- What comes out later comes out of the splitter behind the tokens. -/
theorem run_append (s : Splitter) (count : Nat) (tokens : List (List Char)) :
    ∃ told, ∀ rest, s.run count (tokens ++ rest) = told ++ (s.after tokens).run (count + tokens.length) rest := by
  induction tokens generalizing s count with
  | nil => exact ⟨[], fun _ => rfl⟩
  | cons token tokens ih =>
    obtain ⟨told, htold⟩ := ih (s.feed token).1 (count + 1)
    refine ⟨(s.feed token).2.map (count + 1, ·) ++ told, fun rest => ?_⟩
    have hcons : s.run count (token :: (tokens ++ rest)) =
        (s.feed token).2.map (count + 1, ·) ++ (s.feed token).1.run (count + 1) (tokens ++ rest) := rfl
    rw [List.cons_append, hcons, htold, List.append_assoc, Nat.add_right_comm]
    rfl

theorem Holds.after (h : s.Holds) (tokens : List (List Char)) : (s.after tokens).Holds := by
  induction tokens generalizing s with
  | nil => exact h
  | cons token tokens ih => exact ih (h.feed token)

theorem Stands.after (h : s.Stands front s.held) (hholds : s.Holds) (tokens : List (List Char)) :
    ∃ front', s.Reads front (s.held ++ tokens.flatten) (s.after tokens) front' := by
  induction tokens generalizing s front with
  | nil =>
    rw [List.flatten_nil, List.append_nil]
    exact ⟨front, h, rfl, rfl⟩
  | cons token tokens ih =>
    obtain ⟨front₁, hfeed⟩ := h.feed hholds token
    obtain ⟨front₂, hrest⟩ := ih hfeed.stands (hholds.feed token)
    refine ⟨front₂, hrest.stands, hrest.delimiters_eq.trans hfeed.delimiters_eq, ?_⟩
    have hwhole := congrArg (· ++ tokens.flatten) hfeed.whole_eq
    simp only [List.append_assoc] at hwhole
    rw [List.flatten_cons]
    exact hrest.whole_eq.trans hwhole

/-! ## Between two tokens -/

/-- What a splitter has of a text whose last completed delimiter ends at the
byte `start`: of that, what comes from the byte `stop` on is held back. -/
structure Withholds (s : Splitter) (text : String) (start stop : Nat) : Prop extends Apart s where
  released : Spells text start stop s.soFar
  held : Spells text stop text.utf8ByteSize s.held
  absent : ¬ s.delimiter <:+: s.soFar ++ s.held
  unfinished : Unfinished s.delimiter (s.soFar ++ s.held) s.held
  longest : ∀ ending, Unfinished s.delimiter (s.soFar ++ s.held) ending → ending <:+ s.held
  /-- Nor could more bytes be held back if characters might be cut. -/
  greatest : IsGreatest {n | UnfinishedBytes s.delimiter text start n} (byteLength s.held)
  fewer : byteLength s.held ≤ byteLength s.delimiter - 1
  /-- Whatever comes, the delimiter does not begin in what was released. -/
  settled : ∀ more i, start ≤ i → OccursAt s.delimiter (text ++ more) i → stop ≤ i
  /-- There is something to come with which it begins where the held end does. -/
  needed : ∃ more, OccursAt s.delimiter (text ++ more) stop

theorem Holds.absent (h : s.Holds) (hne : s.delimiter ≠ []) : ¬ s.delimiter <:+: s.soFar ++ s.held :=
  h.passed.absent h.mayBecome.absent hne

theorem Holds.endsIn (h : s.Holds) (hstands : s.Stands front s.held) (hne : s.delimiter ≠ []) :
    s.delimiters.EndsIn (String.ofList (front ++ (s.soFar ++ s.held))) ⟨s.inBlock, byteLength front⟩ := by
  refine ⟨hstands, fun i hi hocc => h.absent hne ?_⟩
  obtain ⟨before, rest, hsplit, -⟩ := hocc.split_behind hne hi
  rw [hsplit]
  exact List.infix_append' before _ rest

theorem Holds.settled (h : s.Holds) (hne : s.delimiter ≠ []) {more : String} (hfrom : byteLength front ≤ i)
    (hocc : OccursAt s.delimiter (String.ofList (front ++ (s.soFar ++ s.held)) ++ more) i) :
    byteLength (front ++ s.soFar) ≤ i := by
  rw [← String.ofList_toList (s := more), ← String.ofList_append, List.append_assoc, List.append_assoc] at hocc
  obtain ⟨before, rest, hsplit, rfl⟩ := hocc.split_behind hne hfrom
  obtain ⟨between, rfl, -⟩ := h.passed.split hne hsplit
  exact Text.byteLength_le_of_isPrefix ⟨between, List.append_assoc ..⟩

theorem Holds.withholds (h : s.Holds) (hne : s.delimiter ≠ []) (front : List Char) :
    s.Withholds (String.ofList (front ++ (s.soFar ++ s.held))) (byteLength front) (byteLength (front ++ s.soFar)) := by
  have hunfinished := h.mayBecome.unfinished hne s.soFar
  have hlongest : ∀ ending, Unfinished s.delimiter (s.soFar ++ s.held) ending → ending <:+ s.held :=
    fun _ hending => h.passed.suffix_of_unfinished hending
  constructor
  case toApart => exact h.toApart
  case released =>
    rw [Text.byteLength_append]
    exact Text.spells_of_split (by rw [String.toList_ofList, List.append_assoc])
  case held =>
    have hsplit : (String.ofList (front ++ (s.soFar ++ s.held))).toList = (front ++ s.soFar) ++ s.held ++ [] := by
      simp
    rw [Text.utf8ByteSize_ofList, ← List.append_assoc, Text.byteLength_append _ s.held, List.append_assoc]
    exact Text.spells_of_split hsplit
  case absent => exact h.absent hne
  case unfinished => exact hunfinished
  case longest => exact hlongest
  case greatest =>
    refine ⟨hunfinished.bytes front, fun n hn => ?_⟩
    obtain ⟨ending, hending, rfl⟩ := UnfinishedBytes.exists_ending hne hn
    exact Text.byteLength_le_of_isSuffix (hlongest ending hending)
  case fewer => exact Nat.le_sub_one_of_lt (Text.byteLength_lt_of_isPrefix hunfinished.starts hunfinished.proper)
  case settled => exact fun more i hfrom hocc => h.settled hne hfrom hocc
  case needed =>
    obtain ⟨t, ht⟩ := hunfinished.starts
    refine ⟨String.ofList t, (occursAt_iff hne).2 ⟨front ++ s.soFar, [], ?_, rfl⟩⟩
    simp [← ht]

/-- **What is held back is what must be.** After any tokens, whatever follows
them, a splitter is behind the last delimiter that their text completes; it has
put into the running text, or the block, all that was read since, but for the
longest ending that is a proper start of the delimiter looked for. That
delimiter does not occur in it, the ending has fewer bytes, and wherever the
text is cut, for a delimiter or for the ending, it is between characters. -/
theorem withholds_longest (d : Delimiters) (hopening : d.opening ≠ []) (hclosing : d.closing ≠ [])
    (read : List (List Char)) :
    let s := (new d).after read
    let text := String.ofList read.flatten
    ∃ start stop told,
      (∀ rest, segments d (read ++ rest) = told ++ (s.run read.length rest).map (·.2)) ∧
      s.delimiters = d ∧
      (∀ p, d.EndsIn text p ↔ p = ⟨s.inBlock, start⟩) ∧
      s.Withholds text start stop ∧
      ∀ inBlock i, OccursAt (d.sought inBlock) text i →
        IsBoundary text i ∧ IsBoundary text (i + byteLength (d.sought inBlock)) := by
  intro s text
  have hsought : ∀ inBlock, d.sought inBlock ≠ [] := fun inBlock => by cases inBlock <;> assumption
  obtain ⟨told, htold⟩ := run_append (new d) 0 read
  obtain ⟨front, hreads⟩ := (stands_new d).after (holds_new d) read
  have hdelimiters : s.delimiters = d := hreads.delimiters_eq
  have hne : s.delimiter ≠ [] := by
    rw [delimiter_eq_sought, hdelimiters]
    exact hsought s.inBlock
  have htext : String.ofList (front ++ (s.soFar ++ s.held)) = text := congrArg String.ofList hreads.whole_eq
  have hholds : s.Holds := (holds_new d).after read
  have hends := hholds.endsIn hreads.stands hne
  have hwithholds := hholds.withholds hne front
  rw [htext] at hends hwithholds
  refine ⟨byteLength front, byteLength (front ++ s.soFar), told.map (·.2), fun rest => ?_, hdelimiters,
    fun p => ⟨fun hp => ?_, ?_⟩, hwithholds, ?_⟩
  · rw [segments, htold, Nat.zero_add, List.map_append]
  · exact (hdelimiters ▸ hends).unique hp
  · rintro rfl
    exact hdelimiters ▸ hends
  · exact fun inBlock i hocc => hocc.boundaries (hsought inBlock)

/-- A closing delimiter that overlaps itself, read in two tokens: of the held
end only half is released when more of it comes, and that in whole characters. -/
theorem withholds_longest_overlapping :
    let d : Delimiters := ⟨['<'], ['é', 'a', 'é', 'b']⟩
    let read := [['x', '<', 'y', 'é', 'a'], ['é', 'a']]
    let text := String.ofList read.flatten
    d.opening ≠ [] ∧ d.closing ≠ [] ∧ d.EndsIn text ⟨true, 2⟩ ∧
      Spells text 2 6 ['y', 'é', 'a'] ∧ Spells text 6 9 ['é', 'a'] ∧
      IsGreatest {n | UnfinishedBytes d.closing text 2 n} 3 := by
  intro d read text
  have hs : (new d).after read = ⟨d, true, ['é', 'a'], [], ['y', 'é', 'a'], false⟩ := by decide +kernel
  obtain ⟨start, stop, -, -, -, hends, hwithholds, -⟩ := withholds_longest d (by decide) (by decide) read
  rw [hs] at hends hwithholds
  have hreleased : Spells text start stop ['y', 'é', 'a'] := hwithholds.released
  have hheld : Spells text stop text.utf8ByteSize ['é', 'a'] := hwithholds.held
  have htext : text.utf8ByteSize = 9 := by decide +kernel
  -- the sizes of the two parts tell where they lie
  obtain ⟨rfl, rfl⟩ : start = 2 ∧ stop = 6 := by
    have hleft := congrArg ByteArray.size hreleased.bytes
    have hright := congrArg ByteArray.size hheld.bytes
    simp only [ByteArray.size_extract, String.size_toByteArray, Text.size_utf8Encode, htext] at hleft hright
    have hya : byteLength ['y', 'é', 'a'] = 4 ∧ byteLength ['é', 'a'] = 3 := by decide +kernel
    omega
  exact ⟨by decide, by decide, (hends _).2 rfl, hreleased, htext ▸ hheld, hwithholds.greatest⟩

end Splitter

end ReplyStream
