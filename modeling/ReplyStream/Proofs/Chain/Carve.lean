/-
What a link has left of a reply, and what it can carry of that, in the bytes
of the reply's texts. Wherever the link begins, be it beyond the end or inside
a character, nothing is cut but between characters of the texts (`Text.Cut`);
and what is carved is all that fits, the reasoning first, or a single
character where not even that fits (`Part.Carved`, `carve_exact`).
-/
import ReplyStream.Proofs.Chain.Parts
import ReplyStream.Proofs.Text.Boundary

namespace ReplyStream

namespace Text

/-- Of a text whose first `offset` bytes are claimed, `rest` is left, and
`part` is the front of that. An offset inside a character goes down to it. -/
structure Cut (text : String) (offset : Nat) (rest part : List Char) : Prop where
  floor : IsFloor text offset (floorBoundary text offset)
  claimed : Spells text 0 (floorBoundary text offset) (takeBytes offset text.toList)
  rest : Spells text (floorBoundary text offset) text.utf8ByteSize rest
  part : Spells text (floorBoundary text offset) (floorBoundary text offset + byteLength part) part

theorem cut_of_prefix {text : String} {offset : Nat} {part : List Char}
    (h : part <+: dropBytes offset text.toList) : Cut text offset (dropBytes offset text.toList) part := by
  obtain ⟨behind, hbehind⟩ := h
  refine ⟨isFloor_floorBoundary text offset, spells_takeBytes offset text, spells_dropBytes offset text, ?_⟩
  rw [← byteLength_takeBytes]
  exact spells_of_split (by rw [List.append_assoc, hbehind, takeBytes_append_dropBytes])

end Text

open Text (byteLength takeBytes Longest Cut)

namespace Part

variable {rest : Part} {ceiling : Nat}

/-- Something is left, but not even the first character fits. -/
def Stalls (ceiling : Nat) (rest : Part) : Prop :=
  rest ≠ ⟨[], []⟩ ∧ Longest ceiling rest.reasoning [] ∧ Longest ceiling rest.answer []

/-- The first character of the reasoning, or if there is none, of the answer. -/
def leader (rest : Part) : Part :=
  if rest.reasoning = [] then ⟨[], rest.answer.take 1⟩ else ⟨rest.reasoning.take 1, []⟩

/-- `part` is what is to be carved from `rest`. -/
structure Carved (ceiling : Nat) (rest part : Part) : Prop where
  reasoning : part.reasoning <+: rest.reasoning
  answer : part.answer <+: rest.answer
  longest : ¬ rest.Stalls ceiling → Longest ceiling rest.reasoning part.reasoning ∧
    Longest (ceiling - byteLength part.reasoning) rest.answer part.answer
  stalled : rest.Stalls ceiling → part = rest.leader
  fits : part.Fits ceiling
  size_eq_zero : part.size = 0 ↔ rest = ⟨[], []⟩

theorem size_eq_zero_iff {p : Part} : p.size = 0 ↔ p = ⟨[], []⟩ := by
  rw [size, Nat.add_eq_zero_iff, Text.byteLength_eq_zero, Text.byteLength_eq_zero]
  constructor
  · rintro ⟨hr, ha⟩
    exact ext hr ha
  · rintro rfl
    exact ⟨rfl, rfl⟩

theorem stalls_iff (rest : Part) (ceiling : Nat) : rest.Stalls ceiling ↔
    rest ≠ ⟨[], []⟩ ∧ takeBytes ceiling rest.reasoning = [] ∧
      takeBytes (ceiling - byteLength (takeBytes ceiling rest.reasoning)) rest.answer = [] := by
  have hreasoning := Text.longest_takeBytes ceiling rest.reasoning
  have hanswer := Text.longest_takeBytes ceiling rest.answer
  constructor
  · rintro ⟨hrest, hr, ha⟩
    have hr := hreasoning.unique hr
    refine ⟨hrest, hr, ?_⟩
    rw [hr]
    exact hanswer.unique ha
  · rintro ⟨hrest, hr, ha⟩
    rw [hr, Text.byteLength_nil, Nat.sub_zero] at ha
    exact ⟨hrest, hr ▸ hreasoning, ha ▸ hanswer⟩

theorem carve_of_stalls (h : rest.Stalls ceiling) : rest.carve ceiling = rest.leader := by
  obtain ⟨-, hnil⟩ := (stalls_iff rest ceiling).1 h
  obtain ⟨reasoning, answer⟩ := rest
  rw [carve, if_pos hnil]
  cases reasoning <;> rfl

theorem carve_of_not_stalls (h : ¬ rest.Stalls ceiling) : rest.carve ceiling =
    ⟨takeBytes ceiling rest.reasoning,
      takeBytes (ceiling - byteLength (takeBytes ceiling rest.reasoning)) rest.answer⟩ := by
  by_cases hrest : rest = ⟨[], []⟩
  · subst hrest
    rfl
  · rw [carve, if_neg fun hnil => h ((stalls_iff rest ceiling).2 ⟨hrest, hnil⟩)]

theorem exists_leader (h : rest.Stalls ceiling) : ∃ c : Char, ceiling < c.utf8Size ∧
    (rest.leader = ⟨[c], []⟩ ∧ [c] <+: rest.reasoning ∨ rest.leader = ⟨[], [c]⟩ ∧ [c] <+: rest.answer) := by
  obtain ⟨hrest, hr, ha⟩ := (stalls_iff rest ceiling).1 h
  obtain ⟨reasoning, answer⟩ := rest
  cases reasoning with
  | cons c reasoning =>
    exact ⟨c, Text.lt_utf8Size_of_takeBytes_nil hr, .inl ⟨rfl, List.prefix_append [c] reasoning⟩⟩
  | nil =>
    cases answer with
    | nil => exact absurd rfl hrest
    | cons c answer =>
      exact ⟨c, Text.lt_utf8Size_of_takeBytes_nil ha, .inr ⟨rfl, List.prefix_append [c] answer⟩⟩

theorem carved_of_stalls (h : rest.Stalls ceiling) : Carved ceiling rest (rest.carve ceiling) := by
  obtain ⟨c, hwide, hleader⟩ := exists_leader h
  have hsome : rest.leader.size ≠ 0 := by
    have := c.utf8Size_pos
    rcases hleader with ⟨hleader, -⟩ | ⟨hleader, -⟩ <;> rw [hleader] <;> simp [size] <;> omega
  rw [carve_of_stalls h]
  refine ⟨?_, ?_, fun hnot => absurd h hnot, fun _ => rfl, .inr ⟨c, hwide, ?_⟩, ?_⟩
  · rcases hleader with ⟨hleader, hfront⟩ | ⟨hleader, -⟩ <;> rw [hleader]
    · exact hfront
    · exact List.nil_prefix
  · rcases hleader with ⟨hleader, -⟩ | ⟨hleader, hfront⟩ <;> rw [hleader]
    · exact List.nil_prefix
    · exact hfront
  · exact hleader.imp And.left And.left
  · exact ⟨fun hzero => absurd hzero hsome, fun hrest => absurd hrest h.1⟩

theorem carved_of_not_stalls (h : ¬ rest.Stalls ceiling) : Carved ceiling rest (rest.carve ceiling) := by
  have hr := Text.longest_takeBytes ceiling rest.reasoning
  have ha := Text.longest_takeBytes (ceiling - byteLength (takeBytes ceiling rest.reasoning)) rest.answer
  rw [carve_of_not_stalls h]
  refine ⟨hr.leading, ha.leading, fun _ => ⟨hr, ha⟩, fun hstalls => absurd hstalls h, .inl ?_, ?_⟩
  · have := hr.fits
    have := ha.fits
    simp only [size]
    omega
  · rw [size_eq_zero_iff]
    constructor
    · intro hnil
      by_cases hrest : rest = ⟨[], []⟩
      · exact hrest
      · exact absurd ((stalls_iff rest ceiling).2 ⟨hrest, congrArg reasoning hnil, congrArg answer hnil⟩) h
    · rintro rfl
      rfl

theorem carved (rest : Part) (ceiling : Nat) : Carved ceiling rest (rest.carve ceiling) := by
  by_cases h : rest.Stalls ceiling
  · exact carved_of_stalls h
  · exact carved_of_not_stalls h

end Part

/-- **Carving is exact.** Whatever a link has claimed and whatever the
ceiling: what is left of the two texts, and what is carved from it, lies
between characters of them. The carved reasoning is the longest front of at
most the ceiling, the carved answer the longest of what room is left by that;
if so nothing would be carved, though something is left, it is the first
character. So it is no more than the ceiling or one character, and nothing
only if nothing is left. -/
theorem Link.carve_exact (l : Link) (r : Reply) (ceiling : Nat) :
    Cut r.reasoning l.reasoning.start (l.remainder r).reasoning (l.carve r ceiling).reasoning ∧
      Cut r.answer l.answer.start (l.remainder r).answer (l.carve r ceiling).answer ∧
      Part.Carved ceiling (l.remainder r) (l.carve r ceiling) := by
  have hcarved := Part.carved (l.remainder r) ceiling
  exact ⟨Text.cut_of_prefix hcarved.reasoning, Text.cut_of_prefix hcarved.answer, hcarved⟩

end ReplyStream
