/-
The parts a reply is cut into. What a link has not sent is cut into parts
that fit under the ceiling and a last piece that fits too: nothing is lost,
nothing is said twice, and the order stays (`split_cuts`).

A link stands between two parts of the reply: what lies before it, which
earlier links have claimed, and what it still has to send (`Link.At`,
`remainder_of_at`). Sending a part moves it on by that part (`At.advance`).
-/
import ReplyStream.Chain.Link

namespace ReplyStream

namespace Text

theorem dropBytes_of_append (s t : List Char) : dropBytes (byteLength s) (s ++ t) = t := by
  induction s with
  | nil =>
    cases t with
    | nil => rfl
    | cons c t =>
      have := c.utf8Size_pos
      simp only [List.nil_append, byteLength_nil, dropBytes]
      rw [if_neg (by omega)]
  | cons c s ih =>
    simp only [List.cons_append, byteLength_cons, dropBytes]
    rw [if_pos (by omega), Nat.add_sub_cancel_left]
    exact ih

theorem lt_utf8Size_of_takeBytes_nil {n : Nat} {c : Char} {s : List Char}
    (h : takeBytes n (c :: s) = []) : n < c.utf8Size := by
  simp only [takeBytes] at h
  split at h
  · cases h
  · omega

end Text

namespace Part

/-- One part behind another. -/
def append (a b : Part) : Part := ⟨a.reasoning ++ b.reasoning, a.answer ++ b.answer⟩

instance : Append Part := ⟨append⟩

/-- Parts in a row, as one. -/
def join : List Part → Part
  | [] => ⟨[], []⟩
  | part :: rest => part ++ join rest

/-- How many characters a part has. -/
def length (p : Part) : Nat := p.reasoning.length + p.answer.length

@[ext] theorem ext {a b : Part} (hr : a.reasoning = b.reasoning) (ha : a.answer = b.answer) : a = b := by
  cases a; cases b; cases hr; cases ha; rfl

@[simp] theorem append_reasoning (a b : Part) : (a ++ b).reasoning = a.reasoning ++ b.reasoning := rfl

@[simp] theorem append_answer (a b : Part) : (a ++ b).answer = a.answer ++ b.answer := rfl

@[simp] theorem join_nil : join [] = ⟨[], []⟩ := rfl

@[simp] theorem join_cons (part : Part) (rest : List Part) : join (part :: rest) = part ++ join rest := rfl

theorem append_assoc (a b c : Part) : a ++ b ++ c = a ++ (b ++ c) :=
  ext (List.append_assoc ..) (List.append_assoc ..)

@[simp] theorem append_nil (a : Part) : a ++ (⟨[], []⟩ : Part) = a :=
  ext (List.append_nil _) (List.append_nil _)

theorem join_append (l m : List Part) : join (l ++ m) = join l ++ join m := by
  induction l with
  | nil => rfl
  | cons part l ih => rw [List.cons_append, join_cons, join_cons, ih, append_assoc]

theorem join_concat (l : List Part) (part : Part) : join (l ++ [part]) = join l ++ part := by
  rw [join_append, join_cons, join_nil, append_nil]

theorem size_append (a b : Part) : (a ++ b).size = a.size + b.size := by
  rw [size, append_reasoning, append_answer, Text.byteLength_append, Text.byteLength_append, size, size]
  omega

/-! ## Carving -/

/-- At most the ceiling in bytes, or a single character that is wider. -/
def Fits (ceiling : Nat) (p : Part) : Prop :=
  p.size ≤ ceiling ∨ ∃ c : Char, ceiling < c.utf8Size ∧ (p = ⟨[c], []⟩ ∨ p = ⟨[], [c]⟩)

/-- Of too long a part something is taken, it fits, and the rest stays in order. -/
theorem carve_spec {rest : Part} {ceiling : Nat} (h : ceiling < rest.size) :
    ∃ behind, rest = rest.carve ceiling ++ behind ∧ (rest.carve ceiling).Fits ceiling ∧
      behind.length < rest.length := by
  obtain ⟨reasoning, answer⟩ := rest
  by_cases hnil : Text.takeBytes ceiling reasoning = [] ∧
      Text.takeBytes (ceiling - Text.byteLength (Text.takeBytes ceiling reasoning)) answer = []
  · cases reasoning with
    | cons c reasoning =>
      refine ⟨⟨reasoning, answer⟩, ?_, .inr ⟨c, Text.lt_utf8Size_of_takeBytes_nil hnil.1, .inl ?_⟩, ?_⟩
      · simp only [carve, if_pos hnil]; rfl
      · simp only [carve, if_pos hnil]
      · simp only [length, List.length_cons]; omega
    | nil =>
      cases answer with
      | nil => simp [size] at h
      | cons c answer =>
        have hnil' := hnil.2
        simp only [Text.takeBytes, Text.byteLength_nil, Nat.sub_zero] at hnil'
        refine ⟨⟨[], answer⟩, ?_, .inr ⟨c, Text.lt_utf8Size_of_takeBytes_nil hnil', .inr ?_⟩, ?_⟩
        · simp only [carve, if_pos hnil]; rfl
        · simp only [carve, if_pos hnil]; rfl
        · simp only [length, List.length_cons]; omega
  · have hcarve : Part.carve ⟨reasoning, answer⟩ ceiling =
        ⟨Text.takeBytes ceiling reasoning,
          Text.takeBytes (ceiling - Text.byteLength (Text.takeBytes ceiling reasoning)) answer⟩ := by
      simp only [carve, if_neg hnil]
    have hr := Text.takeBytes_append_dropBytes ceiling reasoning
    have ha := Text.takeBytes_append_dropBytes
      (ceiling - Text.byteLength (Text.takeBytes ceiling reasoning)) answer
    refine ⟨⟨Text.dropBytes ceiling reasoning,
      Text.dropBytes (ceiling - Text.byteLength (Text.takeBytes ceiling reasoning)) answer⟩, ?_, .inl ?_, ?_⟩
    · rw [hcarve]
      exact ext hr.symm ha.symm
    · have h₁ := Text.byteLength_takeBytes_le ceiling reasoning
      have h₂ := Text.byteLength_takeBytes_le
        (ceiling - Text.byteLength (Text.takeBytes ceiling reasoning)) answer
      rw [hcarve]
      simp only [size]
      omega
    · have hrl := congrArg List.length hr
      have hal := congrArg List.length ha
      simp only [List.length_append] at hrl hal
      have hpos : 0 < (Text.takeBytes ceiling reasoning).length ∨
          0 < (Text.takeBytes (ceiling - Text.byteLength (Text.takeBytes ceiling reasoning)) answer).length := by
        simpa only [List.length_pos_iff, Decidable.not_and_iff_or_not] using hnil
      simp only [length]
      omega

/-- The parts cut `rest` to pieces that fit: each part is carved from what
is still too long, and the last piece is what remains. -/
def Cuts (ceiling : Nat) : Part → List Part → Prop
  | rest, [] => rest.size ≤ ceiling
  | rest, part :: parts =>
    ceiling < rest.size ∧ part.Fits ceiling ∧ ∃ behind, rest = part ++ behind ∧ Cuts ceiling behind parts

end Part

/-- The texts of a reply. -/
def Reply.text (r : Reply) : Part := ⟨r.reasoning.toList, r.answer.toList⟩

namespace Link

/-- The link begins where `before` ends. -/
def At (l : Link) (before : Part) : Prop :=
  l.reasoning.start = Text.byteLength before.reasoning ∧ l.answer.start = Text.byteLength before.answer

theorem at_first : first.At ⟨[], []⟩ := ⟨rfl, rfl⟩

theorem remainder_of_at {l : Link} {r : Reply} {before rest : Part} (hl : l.At before)
    (hr : r.text = before ++ rest) : l.remainder r = rest := by
  have hreasoning : r.reasoning.toList = before.reasoning ++ rest.reasoning := congrArg Part.reasoning hr
  have hanswer : r.answer.toList = before.answer ++ rest.answer := congrArg Part.answer hr
  simp only [remainder, hl.1, hl.2, hreasoning, hanswer, Text.dropBytes_of_append]

theorem At.advance {l : Link} {before : Part} (h : l.At before) (part : Part) :
    (l.advance part).At (before ++ part) := by
  simp only [At, Link.advance, next, markSent, Span.resize, Span.point, Part.append_reasoning,
    Part.append_answer, Text.byteLength_append, h.1, h.2, and_self]

/-- What a link has to send is cut to pieces that fit, given a round for
each character. -/
theorem split_cuts {r : Reply} {ceiling : Nat} : ∀ {rounds : Nat} {l : Link} {before rest : Part},
    l.At before → r.text = before ++ rest → rest.length ≤ rounds →
      Part.Cuts ceiling rest (l.split r ceiling rounds).1
  | 0, _, _, rest, _, _, hlen => by
    have hempty : rest.reasoning = [] ∧ rest.answer = [] := by
      simp only [Part.length, Nat.le_zero, Nat.add_eq_zero_iff, List.length_eq_zero_iff] at hlen
      exact hlen
    simp only [split, Part.Cuts, Part.size, hempty.1, hempty.2, Text.byteLength_nil]
    omega
  | rounds + 1, l, before, rest, hl, hr, hlen => by
    have hrest := remainder_of_at hl hr
    simp only [split, exceeds, carve, hrest]
    split
    next hexceeds =>
      have hlt : ceiling < rest.size := of_decide_eq_true hexceeds
      obtain ⟨behind, hbehind, hfits, hless⟩ := Part.carve_spec hlt
      have hr' : r.text = (before ++ rest.carve ceiling) ++ behind := by
        rw [hr, Part.append_assoc, ← hbehind]
      exact ⟨hlt, hfits, behind, hbehind, split_cuts (hl.advance _) hr' (by omega)⟩
    next hfits =>
      simp only [Part.Cuts]
      simpa using hfits

end Link

end ReplyStream
