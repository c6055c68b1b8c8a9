/-
What a draft comes to, whatever is done with it (`reply_after`): the answer
and the tool calls are those of the last snapshot, the reasoning is all that
came, and the placeholder stands there until the first real output.

What carries this is that the placeholder is the whole reasoning for as long
as it is kept (`Waits`), so that it can be taken out again.
-/
import Mathlib.Data.List.Induction
import ReplyStream.Proofs.Draft

namespace ReplyStream

attribute [ext] Reply

/-- Whether a delta is real output: reasoning, or an answer of which
something is left when it is cleaned. -/
def Delta.isOutput (delta : Delta) : Bool :=
  delta.reasoning.any (fun text => !text.isEmpty) ||
    delta.content.any (fun text => !(Draft.cleanAnswer text).isEmpty)

theorem Delta.reasoning_of_silent {delta : Delta} (h : delta.isOutput = false) : delta.reasoning.getD "" = "" := by
  cases hreasoning : delta.reasoning <;> simp_all [Delta.isOutput]

namespace Draft

variable {d : Draft}

/-! ## The parts of an update

What each of them makes of a draft whose placeholder waits. -/

/-- A placeholder that is kept is the reasoning. -/
def Waits (d : Draft) : Prop := ∀ text, d.placeholder = some text → d.reply.reasoning = text

/-- The reasoning without the placeholder. -/
def spoken (d : Draft) : String := if d.placeholder.isSome then "" else d.reply.reasoning

/-- The draft without the placeholder. -/
def bare (d : Draft) : Draft := { d with placeholder := none, reply.reasoning := d.spoken }

theorem waits_of_none (h : d.placeholder = none) : d.Waits := by
  intro text htext
  rw [h] at htext
  cases htext

theorem bare_of_none (h : d.placeholder = none) : d.bare = d := by
  obtain ⟨reply, placeholder, allowedTools⟩ := d
  cases h
  rfl

theorem clearPlaceholder_fst (h : d.Waits) : d.clearPlaceholder.1 = d.bare := by
  cases hplaceholder : d.placeholder with
  | none => rw [clearPlaceholder_of_none hplaceholder, bare_of_none hplaceholder]
  | some text => simp [clearPlaceholder, bare, spoken, hplaceholder, h text hplaceholder]

theorem appendReasoning_fst (h : d.Waits) (piece : Option String) :
    (d.appendReasoning piece).1 =
      if piece.any (fun text => !text.isEmpty) then { d.bare with reply.reasoning := d.spoken ++ piece.getD "" }
      else d := by
  cases piece with
  | none => rfl
  | some text =>
    unfold appendReasoning
    rw [clearPlaceholder_fst h]
    cases hempty : text.isEmpty with
    | true => simp [hempty]
    | false => simp [hempty, bare]

theorem setAnswer_fst (h : d.Waits) (snapshot : Option String) :
    (d.setAnswer snapshot).1 =
      { (if snapshot.any (fun text => !(cleanAnswer text).isEmpty) then d.bare else d) with
        reply.answer := (snapshot.map cleanAnswer).getD d.reply.answer } := by
  have hset : ∀ (d' : Draft) (answer : String) (changed : Bool),
      (if answer = d'.reply.answer then (d', changed) else ({ d' with reply.answer := answer }, true)).1 =
        { d' with reply.answer := answer } := by
    intro d' answer changed
    split
    next heq => rw [heq]
    next => rfl
  cases snapshot with
  | none => rfl
  | some text =>
    unfold setAnswer
    dsimp only
    rw [hset]
    cases hempty : (cleanAnswer text).isEmpty with
    | true => simp [hempty]
    | false => simp [hempty, clearPlaceholder_fst h]

theorem setToolCalls_fst (d : Draft) (snapshot : Option (List ToolCall)) :
    (d.setToolCalls snapshot).1 =
      { d with reply.toolCalls := (snapshot.map (filterCalls d.allowedTools)).getD d.reply.toolCalls } := by
  cases snapshot with
  | none => rfl
  | some calls =>
    unfold setToolCalls
    dsimp only
    split
    next heq => simp [heq]
    next => rfl

theorem setFinished_fst (d : Draft) (finished : Bool) :
    (d.setFinished finished).1 = { d with reply.isFinished := d.reply.isFinished || finished } := by
  obtain ⟨⟨reasoning, answer, toolCalls, isFinished, isCanceled⟩, placeholder, allowedTools⟩ := d
  cases finished <;> cases isFinished <;> rfl

theorem cancel_fst (h : d.reply.isCanceled = true → d.reply.isFinished = true) :
    d.cancel.1 = { d with reply := { d.reply with isFinished := true, isCanceled := true } } := by
  obtain ⟨⟨reasoning, answer, toolCalls, isFinished, isCanceled⟩, placeholder, allowedTools⟩ := d
  cases isCanceled with
  | false => rfl
  | true =>
    cases h rfl
    rfl

/-- Real output drives the placeholder out; what is not output leaves the
texts as they are. -/
theorem update_texts (h : d.Waits) (delta : Delta) :
    (d.update delta).1.placeholder = (if delta.isOutput then none else d.placeholder) ∧
      (d.update delta).1.reply.reasoning =
        (if delta.isOutput then d.spoken else d.reply.reasoning) ++ delta.reasoning.getD "" := by
  have hplaceholder : (d.update delta).1.placeholder =
      ((d.appendReasoning delta.reasoning).1.setAnswer delta.content).1.placeholder := by
    rw [update_fst, setFinished_placeholder, setToolCalls_placeholder]
  have hreasoning : (d.update delta).1.reply.reasoning =
      ((d.appendReasoning delta.reasoning).1.setAnswer delta.content).1.reply.reasoning :=
    String.toList_inj.1 (congrArg Part.reasoning (update_text d delta))
  rw [hplaceholder, hreasoning]
  cases hpiece : delta.reasoning.any (fun text => !text.isEmpty) with
  | true =>
    have houtput : delta.isOutput = true := by simp [Delta.isOutput, hpiece]
    have hbare :
        ({ d.bare with reply.reasoning := d.spoken ++ delta.reasoning.getD "" } : Draft).placeholder = none := rfl
    obtain ⟨hkept, hnone⟩ := setAnswer_of_none hbare delta.content
    rw [appendReasoning_fst h, if_pos hpiece, if_pos houtput, if_pos houtput]
    exact ⟨hnone, hkept⟩
  | false =>
    have hempty : delta.reasoning.getD "" = "" := by
      cases hreasoning : delta.reasoning <;> simp_all
    have houtput : delta.isOutput = delta.content.any (fun text => !(cleanAnswer text).isEmpty) := by
      simp only [Delta.isOutput, hpiece, Bool.false_or]
    rw [appendReasoning_fst h, hpiece, if_neg Bool.false_ne_true, setAnswer_fst h, houtput, hempty,
      String.append_empty]
    split
    · exact ⟨rfl, rfl⟩
    · exact ⟨rfl, rfl⟩

theorem Waits.appendReasoning (h : d.Waits) (piece : Option String) : (d.appendReasoning piece).1.Waits := by
  rw [appendReasoning_fst h]
  split
  · exact waits_of_none rfl
  · exact h

/-- The rest of a reply and the allowed tools behind an update. -/
theorem update_rest (h : d.Waits) (delta : Delta) :
    (d.update delta).1.reply.toolCalls =
        (delta.toolCalls.map (filterCalls d.allowedTools)).getD d.reply.toolCalls ∧
      (d.update delta).1.reply.isFinished = (d.reply.isFinished || delta.finished) ∧
      (d.update delta).1.reply.isCanceled = d.reply.isCanceled ∧
      (d.update delta).1.allowedTools = d.allowedTools := by
  obtain ⟨d₁, hd₁⟩ : ∃ d₁, d₁ = (d.appendReasoning delta.reasoning).1 := ⟨_, rfl⟩
  have hwaits : d₁.Waits := hd₁ ▸ h.appendReasoning delta.reasoning
  rw [update_fst, setFinished_fst, setToolCalls_fst, ← hd₁, setAnswer_fst hwaits]
  rw [appendReasoning_fst h] at hd₁
  subst hd₁
  split <;> split <;> exact ⟨rfl, rfl, rfl, rfl⟩

/-! ## All that is done -/

/-- What is done with a draft. A delta may come as a whole or as its parts. -/
inductive Act where
  | update (delta : Delta)
  | cancel
deriving DecidableEq

def act (d : Draft) : Act → Draft
  | .update delta => (d.update delta).1
  | .cancel => d.cancel.1

/-- The draft behind some acts. -/
def after (d : Draft) (acts : List Act) : Draft := acts.foldl act d

/-- A draft nothing has been done with: with or without a placeholder, for
all tools or only for some. -/
def fresh (placeholder : Option String) (allowed : Option (List String)) : Draft :=
  let d := (placeholder.map withPlaceholder).getD new
  (allowed.map d.withAllowedTools).getD d

namespace Act

/-- The deltas among some acts. -/
def deltas (acts : List Act) : List Delta :=
  acts.filterMap fun
    | .update delta => some delta
    | .cancel => none

@[simp] theorem deltas_update (acts : List Act) (delta : Delta) :
    deltas (acts ++ [.update delta]) = deltas acts ++ [delta] := by
  simp [deltas]

@[simp] theorem any_update (acts : List Act) (delta : Delta) (p : Delta → Bool) :
    (deltas (acts ++ [.update delta])).any p = ((deltas acts).any p || p delta) := by
  simp

@[simp] theorem deltas_cancel (acts : List Act) : deltas (acts ++ [.cancel]) = deltas acts := by
  simp [deltas]

/-- All reasoning that came. -/
def reasoning (acts : List Act) : String := String.join ((deltas acts).filterMap (·.reasoning))

/-- The reply that acts come to. -/
def total (placeholder : Option String) (allowed : Option (List String)) (acts : List Act) : Reply where
  reasoning :=
    match placeholder with
    | none => reasoning acts
    | some text => if (deltas acts).any Delta.isOutput then reasoning acts else text
  answer := (((deltas acts).filterMap (·.content)).getLast?.map cleanAnswer).getD ""
  toolCalls := (((deltas acts).filterMap (·.toolCalls)).getLast?.map (filterCalls allowed)).getD []
  isFinished := (deltas acts).any (·.finished) || acts.contains .cancel
  isCanceled := acts.contains .cancel

theorem reasoning_update (acts : List Act) (delta : Delta) :
    reasoning (acts ++ [.update delta]) = reasoning acts ++ delta.reasoning.getD "" := by
  unfold reasoning
  rw [deltas_update, List.filterMap_append, String.join_append]
  cases h : delta.reasoning <;> simp [h]

theorem reasoning_of_silent {acts : List Act} (h : (deltas acts).any Delta.isOutput = false) :
    reasoning acts = "" := by
  induction acts using List.reverseRecOn with
  | nil => rfl
  | append_singleton acts a ih =>
    cases a with
    | cancel =>
      rw [deltas_cancel] at h
      rw [reasoning, deltas_cancel]
      exact ih h
    | update delta =>
      rw [any_update, Bool.or_eq_false_iff] at h
      obtain ⟨hacts, hdelta⟩ := h
      rw [reasoning_update, ih hacts, Delta.reasoning_of_silent hdelta, String.append_empty]

/-- The last snapshot of some deltas is that of the last delta, if it has one. -/
theorem last_snapshot {α β : Type} (deltas : List Delta) (delta : Delta) (snapshot : Delta → Option α) (f : α → β)
    (b : β) :
    (((deltas ++ [delta]).filterMap snapshot).getLast?.map f).getD b =
      ((snapshot delta).map f).getD ((((deltas.filterMap snapshot).getLast?).map f).getD b) := by
  cases h : snapshot delta <;> simp [List.filterMap_append, h]

end Act

/-- Where a draft stands behind some acts. -/
structure Comes (placeholder : Option String) (allowed : Option (List String)) (acts : List Act) (d : Draft) :
    Prop where
  reply : d.reply = Act.total placeholder allowed acts
  placeholder : d.placeholder = if (Act.deltas acts).any Delta.isOutput then none else placeholder
  allowedTools : d.allowedTools = allowed

namespace Comes

variable {placeholder : Option String} {allowed : Option (List String)} {acts : List Act}

theorem fresh (placeholder : Option String) (allowed : Option (List String)) :
    Comes placeholder allowed [] (Draft.fresh placeholder allowed) := by
  cases placeholder <;> cases allowed <;> exact ⟨rfl, rfl, rfl⟩

theorem waits (h : Comes placeholder allowed acts d) : d.Waits := by
  intro text htext
  rw [h.placeholder] at htext
  split at htext
  · cases htext
  next hsilent =>
    subst htext
    rw [h.reply]
    exact if_neg hsilent

theorem spoken (h : Comes placeholder allowed acts d) : d.spoken = Act.reasoning acts := by
  unfold Draft.spoken
  rw [h.placeholder, h.reply]
  cases houtput : (Act.deltas acts).any Delta.isOutput with
  | true => cases placeholder <;> simp [Act.total, houtput]
  | false =>
    cases placeholder with
    | none => simp [Act.total]
    | some text => simp [Act.reasoning_of_silent houtput]

/-- The reasoning with what one more delta adds. -/
theorem reasoning_update (h : Comes placeholder allowed acts d) (delta : Delta) :
    (d.update delta).1.reply.reasoning = (Act.total placeholder allowed (acts ++ [.update delta])).reasoning := by
  rw [(update_texts h.waits delta).2, h.spoken, h.reply]
  simp only [Act.total, Act.any_update, Act.reasoning_update]
  cases placeholder with
  | none => simp only [ite_self]
  | some text =>
    cases hdelta : delta.isOutput with
    | true => simp only [Bool.or_true, if_true]
    | false =>
      rw [Delta.reasoning_of_silent hdelta]
      simp only [Bool.or_false, Bool.false_eq_true, if_false, String.append_empty]

theorem update (h : Comes placeholder allowed acts d) (delta : Delta) :
    Comes placeholder allowed (acts ++ [.update delta]) (d.update delta).1 := by
  obtain ⟨hcalls, hfinished, hcanceled, hallowed⟩ := update_rest h.waits delta
  refine ⟨?_, ?_, hallowed.trans h.allowedTools⟩
  · refine Reply.ext (h.reasoning_update delta) ?_ ?_ ?_ ?_
    · rw [update_answer, h.reply]
      simp only [Act.total, Act.deltas_update, Act.last_snapshot]
    · rw [hcalls, h.allowedTools, h.reply]
      simp only [Act.total, Act.deltas_update, Act.last_snapshot]
    · rw [hfinished, h.reply]
      simp [Act.total, Bool.or_right_comm]
    · rw [hcanceled, h.reply]
      simp [Act.total]
  · rw [(update_texts h.waits delta).1, h.placeholder, Act.any_update]
    cases delta.isOutput <;> simp

theorem cancel (h : Comes placeholder allowed acts d) :
    Comes placeholder allowed (acts ++ [.cancel]) d.cancel.1 := by
  have htotal : Act.total placeholder allowed (acts ++ [.cancel]) =
      { Act.total placeholder allowed acts with isFinished := true, isCanceled := true } := by
    simp [Act.total, Act.reasoning]
  have hended : d.reply.isCanceled = true → d.reply.isFinished = true := by
    rw [h.reply]
    exact fun hcanceled => Bool.or_eq_true_iff.2 (.inr hcanceled)
  rw [cancel_fst hended]
  refine ⟨?_, ?_, h.allowedTools⟩
  · rw [htotal, ← h.reply]
  · rw [Act.deltas_cancel]
    exact h.placeholder

end Comes

/-- **What a draft comes to.** Whatever is done with a draft, the reply is the
one its acts come to: all reasoning that came, or the placeholder as long as
there was no real output, the last answer, cleaned, and the last tool calls,
filtered. -/
theorem reply_after (placeholder : Option String) (allowed : Option (List String)) (acts : List Act) :
    ((fresh placeholder allowed).after acts).reply = Act.total placeholder allowed acts := by
  suffices h : Comes placeholder allowed acts ((fresh placeholder allowed).after acts) from h.reply
  induction acts using List.reverseRecOn with
  | nil => exact .fresh placeholder allowed
  | append_singleton acts a ih =>
    have hafter : (fresh placeholder allowed).after (acts ++ [a]) =
        ((fresh placeholder allowed).after acts).act a := List.foldl_append
    rw [hafter]
    cases a with
    | update delta => exact ih.update delta
    | cancel => exact ih.cancel

end Draft

end ReplyStream
