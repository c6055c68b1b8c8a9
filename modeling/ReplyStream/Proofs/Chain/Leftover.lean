/-
What becomes of the bytes that a cut of the reasoning leaves over. The cut
falls between characters, so when the next character of the reasoning is wider
than the room that is left, a narrower one of the answer may still go there
(`Part.Slips`). This is the one way in which a part of the answer is sent
although reasoning is left (`Part.carve_slips_iff`); the events of a reply
carry the reasoning before the answer just when it never happens.
-/
import ReplyStream.Proofs.Chain.Rounds

namespace ReplyStream

namespace Text

variable {n : Nat} {s front behind : List Char} {c : Char}

/-- What is taken, is taken up to a character that does not fit. -/
theorem exists_dropBytes_cons (h : takeBytes n s ≠ s) :
    ∃ c behind, s = takeBytes n s ++ c :: behind ∧ n < byteLength (takeBytes n s) + c.utf8Size := by
  have hsplit := takeBytes_append_dropBytes n s
  have hlongest := longest_takeBytes n s
  cases hrest : dropBytes n s with
  | nil =>
    rw [hrest, List.append_nil] at hsplit
    exact absurd hsplit h
  | cons c behind =>
    rw [hrest] at hsplit
    refine ⟨c, behind, hsplit.symm, ?_⟩
    by_contra hfits
    have hfront : takeBytes n s ++ [c] <+: s := ⟨behind, by rw [List.append_assoc]; exact hsplit⟩
    have hle := (hlongest.longest _ hfront (by simp; omega)).length_le
    rw [List.length_append, List.length_singleton] at hle
    omega

theorem takeBytes_front (hfits : byteLength front ≤ n) (hwide : n < byteLength front + c.utf8Size) :
    takeBytes n (front ++ c :: behind) = front := by
  induction front generalizing n with
  | nil =>
    rw [byteLength_nil, Nat.zero_add] at hwide
    rw [List.nil_append, takeBytes, if_neg (by omega)]
  | cons d front ih =>
    rw [byteLength_cons] at hfits hwide
    rw [List.cons_append, takeBytes, if_pos (by omega), ih (by omega) (by omega)]

end Text

open Text (byteLength takeBytes)

namespace Part

variable {ceiling : Nat} {rest part behind : Part}

/-- The reasoning is to be cut in front of a character that is wider than the
room that is left, and the first character of the answer is not. -/
def Slips (ceiling : Nat) (rest : Part) : Prop :=
  ∃ (front : List Char) (c : Char) (behind : List Char) (d : Char) (more : List Char),
    rest.reasoning = front ++ c :: behind ∧ rest.answer = d :: more ∧
      byteLength front + d.utf8Size ≤ ceiling ∧ ceiling < byteLength front + c.utf8Size

/-- Some of the answer is carved although reasoning is left, just when it
slips into what the reasoning leaves over. -/
theorem carve_slips_iff (rest : Part) (ceiling : Nat) :
    (rest.carve ceiling).reasoning ≠ rest.reasoning ∧ (rest.carve ceiling).answer ≠ [] ↔ rest.Slips ceiling := by
  constructor
  · rintro ⟨hleft, hsome⟩
    by_cases hstalls : rest.Stalls ceiling
    · rw [carve_of_stalls hstalls, leader] at hleft hsome
      split at hleft
      next hnil => exact absurd hnil.symm hleft
      next hreasoning =>
        rw [if_neg hreasoning] at hsome
        exact absurd rfl hsome
    · rw [carve_of_not_stalls hstalls] at hleft hsome
      obtain ⟨c, behind, hreasoning, hwide⟩ := Text.exists_dropBytes_cons hleft
      cases hanswer : rest.answer with
      | nil => simp [hanswer, Text.takeBytes] at hsome
      | cons d more =>
        have hd : d.utf8Size ≤ ceiling - byteLength (takeBytes ceiling rest.reasoning) := by
          by_contra hnot
          simp [hanswer, Text.takeBytes, hnot] at hsome
        have hpos := d.utf8Size_pos
        exact ⟨_, c, behind, d, more, hreasoning, hanswer, by omega, hwide⟩
  · rintro ⟨front, c, behind, d, more, hreasoning, hanswer, hfits, hwide⟩
    have hfront : takeBytes ceiling rest.reasoning = front := by
      rw [hreasoning]
      exact Text.takeBytes_front (by omega) hwide
    have hsome : takeBytes (ceiling - byteLength front) rest.answer ≠ [] := by
      rw [hanswer, Text.takeBytes, if_pos (by omega)]
      exact List.cons_ne_nil _ _
    have hruns : ¬ rest.Stalls ceiling := by
      rw [stalls_iff]
      rintro ⟨-, -, hnil⟩
      rw [hfront] at hnil
      exact hsome hnil
    rw [carve_of_not_stalls hruns, hfront, hreasoning]
    refine ⟨fun heq => ?_, hsome⟩
    have hlen := congrArg List.length heq
    simp at hlen

/-- What fits leaves nothing over that could be slipped into. -/
theorem not_slips_of_size_le (h : rest.size ≤ ceiling) : ¬ rest.Slips ceiling := by
  rintro ⟨front, c, behind, d, more, hreasoning, hanswer, -, hwide⟩
  rw [size, hreasoning, Text.byteLength_append, Text.byteLength_cons] at h
  omega

/-- No character of the reasoning is wider than one of the answer. -/
def Graded (p : Part) : Prop := ∀ c ∈ p.reasoning, ∀ d ∈ p.answer, c.utf8Size ≤ d.utf8Size

theorem Graded.not_slips (h : rest.Graded) : ¬ rest.Slips ceiling := by
  rintro ⟨front, c, behind, d, more, hreasoning, hanswer, hfits, hwide⟩
  have hle := h c (by rw [hreasoning]; simp) d (by rw [hanswer]; simp)
  omega

theorem Graded.of_append (h : (part ++ behind).Graded) : behind.Graded :=
  fun c hc d hd => h c (List.mem_append_right _ hc) d (List.mem_append_right _ hd)

/-- No part of the answer stands before a part of the reasoning. -/
def ReasoningFirst (texts : List Part) : Prop := texts.Pairwise fun a b => b.reasoning ≠ [] → a.answer = []

instance (texts : List Part) : Decidable (ReasoningFirst texts) := inferInstanceAs (Decidable (List.Pairwise ..))

theorem join_reasoning_eq_nil {texts : List Part} :
    (join texts).reasoning = [] ↔ ∀ text ∈ texts, text.reasoning = [] := by
  induction texts with
  | nil => simp
  | cons text texts ih => simp [ih]

/-- A part that is carved keeps the order with what stands behind it, unless
the answer slips in. -/
theorem reasoningFirst_carve {texts : List Part} (h : rest = rest.carve ceiling ++ join texts) :
    ReasoningFirst (rest.carve ceiling :: texts) ↔ ¬ rest.Slips ceiling ∧ ReasoningFirst texts := by
  have hleft : (rest.carve ceiling).reasoning ≠ rest.reasoning ↔ (join texts).reasoning ≠ [] := by
    have hreasoning := congrArg reasoning h
    rw [append_reasoning] at hreasoning
    rw [not_iff_not]
    constructor
    · intro heq
      rw [heq] at hreasoning
      exact List.self_eq_append_right.1 hreasoning
    · intro hnil
      rw [hnil, List.append_nil] at hreasoning
      exact hreasoning.symm
  have hhead : (∀ b ∈ texts, b.reasoning ≠ [] → (rest.carve ceiling).answer = []) ↔ ¬ rest.Slips ceiling := by
    rw [← carve_slips_iff, hleft, Ne, join_reasoning_eq_nil, not_and, not_not]
    constructor
    · intro hall hsome
      obtain ⟨text, htext, hne⟩ := by simpa using hsome
      exact hall text htext hne
    · intro hall text htext hne
      exact hall fun hnil => hne (hnil text htext)
  rw [ReasoningFirst, List.pairwise_cons, hhead]
  rfl

end Part

namespace Link

variable {r : Reply} {ceiling : Nat} {l last : Link} {parts : List Part} {before rest : Part}

/-- A round carves what a link has to send, and leaves what stands behind it. -/
theorem exists_behind (hl : l.At before) (hr : r.text = before ++ rest) (h : l.exceeds r ceiling = true) :
    l.carve r ceiling = rest.carve ceiling ∧ ∃ behind, rest = rest.carve ceiling ++ behind ∧
      (l.advance (rest.carve ceiling)).At (before ++ rest.carve ceiling) ∧
      r.text = before ++ rest.carve ceiling ++ behind := by
  have hrest := remainder_of_at hl hr
  have hlong : ceiling < rest.size := hrest ▸ of_decide_eq_true h
  obtain ⟨behind, hbehind, -⟩ := Part.carve_spec hlong
  refine ⟨congrArg (Part.carve · ceiling) hrest, behind, hbehind, hl.advance _, ?_⟩
  rw [hr, Part.append_assoc, ← hbehind]

theorem Splits.join_eq (h : l.Splits r ceiling parts last) (hl : l.At before) (hr : r.text = before ++ rest) :
    Part.join (parts ++ [last.remainder r]) = rest := by
  induction h generalizing before rest with
  | done =>
    rw [List.nil_append, Part.join_cons, Part.join_nil, Part.append_nil]
    exact remainder_of_at hl hr
  | round hexceeds _ ih =>
    obtain ⟨hcarve, behind, hbehind, hl', hr'⟩ := exists_behind hl hr hexceeds
    rw [hcarve] at ih ⊢
    rw [List.cons_append, Part.join_cons, ih hl' hr', ← hbehind]

/-- The reasoning comes first in a split, unless some of the answer slips in
at one of its rounds. -/
theorem Splits.reasoningFirst_iff (h : l.Splits r ceiling parts last) (hl : l.At before)
    (hr : r.text = before ++ rest) :
    Part.ReasoningFirst (parts ++ [last.remainder r]) ↔
      ∀ k, ¬ (Part.join ((parts ++ [last.remainder r]).drop k)).Slips ceiling := by
  induction h generalizing before rest with
  | @done l hfits =>
    have hsize : (l.remainder r).size ≤ ceiling := by simpa [exceeds] using hfits
    have hjoin : ∀ k, (Part.join (([] ++ [l.remainder r]).drop k)).size ≤ ceiling := by
      intro k
      cases k with
      | zero => simpa using hsize
      | succ k => simp [Part.size]
    exact ⟨fun _ k => Part.not_slips_of_size_le (hjoin k), fun _ => List.pairwise_singleton _ _⟩
  | round hexceeds hsplits ih =>
    obtain ⟨hcarve, behind, hbehind, hl', hr'⟩ := exists_behind hl hr hexceeds
    rw [hcarve] at hsplits ih ⊢
    have hjoin := hsplits.join_eq hl' hr'
    rw [List.cons_append, Part.reasoningFirst_carve (by rw [hjoin, ← hbehind]), ih hl' hr']
    constructor
    · rintro ⟨hhead, htail⟩ k
      cases k with
      | zero => rwa [List.drop_zero, Part.join_cons, hjoin, ← hbehind]
      | succ k => exact htail k
    · intro hall
      refine ⟨?_, fun k => hall (k + 1)⟩
      have hhead := hall 0
      rwa [List.drop_zero, Part.join_cons, hjoin, ← hbehind] at hhead

end Link

namespace Publisher

variable {p : Publisher} {r : Reply} {parts : List Part} {last : Link}

theorem text_post_rest (p : Publisher) (r : Reply) : (p.post (.publish r [])).message.text = p.last.remainder r := by
  have : (p.post (.publish r [])).message.text = (p.tail p.previousId (p.last.remainder r) r).text := rfl
  rw [this, text_tail]

theorem texts_deliver (ids : Nat → String) (h : p.last.Splits r p.ceiling parts last) (n : Nat) :
    (deliver ids r n p parts).1.map (·.1.message.text) = parts ++ [last.remainder r] := by
  induction parts generalizing p n with
  | nil =>
    cases h
    rw [deliver, List.map_singleton, text_post_rest]
    rfl
  | cons part parts ih =>
    cases h with
    | round _ hrest =>
      rw [← (heard_part p r _ parts (ids n)).2] at hrest
      rw [deliver, List.map_cons, text_post_part, ih hrest, List.cons_append]

/-- What a publish of `r` sends, tried again or not, carries these texts: the
first of them if sends fail, and all of them when it goes through. -/
def SendsTexts (p : Publisher) (r : Reply) (texts : List Part) : Prop :=
  ∀ (σ : Type) (ids : Nat → String) (send : σ → Post → σ × Except TransportFault String) (limit : Nat) (s s' : σ)
    (log' : List Attempt) (p' : Publisher) (result : Except TransportFault String),
    persist (numbered ids send) limit (s, []) p r = ((s', log'), p', result) →
      (Attempt.accepted log').map (·.1.message.text) <+: texts ∧
        ∀ id, result = .ok id → (Attempt.accepted log').map (·.1.message.text) = texts

theorem sendsTexts_of_splits (h : p.last.Splits r p.ceiling parts last) :
    p.SendsTexts r (parts ++ [last.remainder r]) := by
  intro σ ids send limit s s' log' p' result hrun
  have hparts : p.last.parts r p.ceiling = parts := by
    obtain ⟨last', hsplits⟩ := p.last.splits_parts r p.ceiling
    exact (h.unique hsplits).1
  have hlast : (p.publishing r).1.last.Splits r (p.publishing r).1.ceiling parts last := by
    rwa [(publishing_due p r).2.2.1, (alike_publishing p r).ceiling]
  have htexts := texts_deliver ids hlast 0
  obtain ⟨hfront, hall⟩ := persist_delivers hrun
  simp only [Attempt.accepted, List.filterMap_nil, List.length_nil, List.nil_append] at hfront hall
  rw [delivery, hparts] at hfront hall
  rw [← htexts]
  exact ⟨hfront.map _, fun id hid => congrArg _ (hall id hid).1⟩

end Publisher

/-- **The reasoning comes first, but for what slips in.** Whatever a link has
claimed and whatever the ceiling, some of the answer is carved although
reasoning is left just when the reasoning is to be cut before a character that
does not fit, and the next one of the answer does. The events in which a reply
is published from its beginning carry the reasoning before the answer just
when that happens at none of them; and it never does when no character of the
reasoning is wider than one of the answer. -/
theorem reasoning_first_iff (r : Reply) :
    (∀ (l : Link) (ceiling : Nat),
      (l.carve r ceiling).reasoning ≠ (l.remainder r).reasoning ∧ (l.carve r ceiling).answer ≠ [] ↔
        (l.remainder r).Slips ceiling) ∧
    ∀ p : Publisher, p.last.At ⟨[], []⟩ → ∃ texts, p.SendsTexts r texts ∧ Part.join texts = r.text ∧
      (Part.ReasoningFirst texts ↔ ∀ k, ¬ (Part.join (texts.drop k)).Slips p.ceiling) ∧
      (r.text.Graded → Part.ReasoningFirst texts) := by
  refine ⟨fun l ceiling => Part.carve_slips_iff (l.remainder r) ceiling, fun p hfirst => ?_⟩
  obtain ⟨last, hsplits⟩ := p.last.splits_parts r p.ceiling
  have hr : r.text = (⟨[], []⟩ : Part) ++ r.text := rfl
  have hjoin := hsplits.join_eq hfirst hr
  have hiff := hsplits.reasoningFirst_iff hfirst hr
  refine ⟨_, Publisher.sendsTexts_of_splits hsplits, hjoin, hiff, fun hgraded => hiff.2 fun k => ?_⟩
  rw [← hjoin, ← List.take_append_drop k (p.last.parts r p.ceiling ++ _), Part.join_append] at hgraded
  exact hgraded.of_append.not_slips

/-- Reasoning in ASCII, and a wider answer. -/
def narrowThought : Reply := { Reply.empty with reasoning := "think", answer := "日本" }

theorem reasoning_first_iff_narrow :
    ∃ texts, (Publisher.new "!room" "relaybot" ⟨3, 100, "..."⟩).SendsTexts narrowThought texts ∧
      Part.ReasoningFirst texts := by
  obtain ⟨texts, hsends, -, -, hgraded⟩ :=
    (reasoning_first_iff narrowThought).2 (Publisher.new "!room" "relaybot" ⟨3, 100, "..."⟩) Link.at_first
  have hall : (narrowThought.text.reasoning.all fun c =>
      narrowThought.text.answer.all fun d => c.utf8Size ≤ d.utf8Size) = true := by decide +kernel
  simp only [List.all_eq_true, decide_eq_true_eq] at hall
  exact ⟨texts, hsends, hgraded hall⟩

/-- Reasoning with a wide character behind a narrow one, and a narrow answer. -/
def wideThought : Reply := { Reply.empty with reasoning := "aé", answer := "bc" }

/-- What is sent of it under a ceiling of two bytes. -/
def wideThoughtTexts : List Part :=
  (Attempt.accepted ((Publisher.new "!room" "relaybot" ⟨2, 100, "..."⟩).publish
    (numbered (fun n => toString n) sure) ((), []) wideThought).1.2).map (·.1.message.text)

/-- The answer begins beside the first character of the reasoning, in front of the second. -/
theorem wideThought_answers_first :
    (Link.first.carve wideThought 2).reasoning ≠ (Link.first.remainder wideThought).reasoning ∧
      (Link.first.carve wideThought 2).answer = ['b'] ∧
      wideThoughtTexts = [⟨['a'], ['b']⟩, ⟨['é'], []⟩, ⟨[], ['c']⟩] ∧
      ¬ Part.ReasoningFirst wideThoughtTexts := by
  decide +kernel

end ReplyStream
