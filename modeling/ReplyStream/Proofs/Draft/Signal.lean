/-
What the change signal of a draft says. An update without a signal left the
draft as it was, and one with a signal changed the reply: the only signal for
nothing is that of a first piece of reasoning that is the placeholder's own
text (`signal_exact`). So an update that says again what the last one said,
give or take the blanks around the answer, is silent.

Each part of an update signals what it did to its own part of the reply. The
answer also signals when it drives the placeholder out; but as long as there
is a placeholder there is no answer yet (`Held`), so it has changed as well.
-/
import ReplyStream.Proofs.Draft.Total
import ReplyStream.Proofs.Text.Trim

namespace ReplyStream

/-- The same text, but for the blanks around it. -/
def SameButBlanks (text text' : String) : Prop :=
  ∃ before before' middle behind behind',
    (∀ blanks ∈ [before, before', behind, behind'], Text.isBlankText blanks = true) ∧
      text.toList = before ++ middle ++ behind ∧ text'.toList = before' ++ middle ++ behind'

/-- A delta that says what another one said, without its reasoning. -/
structure Delta.Repeats (again delta : Delta) : Prop where
  reasoning : again.reasoning = none ∨ again.reasoning = some ""
  content : Option.Rel SameButBlanks again.content delta.content
  toolCalls : again.toolCalls = delta.toolCalls
  finished : again.finished = delta.finished

namespace Draft

variable {d : Draft} {delta : Delta} {ceiling : Nat}

/-- The drafts there can be. The tools may be restricted at any time. -/
inductive Reached : Draft → Prop where
  | new : Reached new
  | withPlaceholder (text : String) : Reached (withPlaceholder text)
  | withAllowedTools {d : Draft} (names : List String) : Reached d → Reached (d.withAllowedTools names)
  | update {d : Draft} (delta : Delta) : Reached d → Reached (d.update delta).1
  | cancel {d : Draft} : Reached d → Reached d.cancel.1

/-- The first piece of reasoning is the text that the placeholder shows already. -/
def Echoes (d : Draft) (delta : Delta) : Prop :=
  ∃ text, text ≠ "" ∧ d.placeholder = some text ∧ delta.reasoning = some text

/-! ## A placeholder is all there is -/

theorem Held.cancel (h : d.Held ceiling) : d.cancel.1.Held ceiling := by
  unfold Draft.cancel
  split
  · exact h
  · exact h

theorem Reached.held (h : d.Reached) : ∃ ceiling, d.Held ceiling := by
  induction h with
  | new => exact ⟨0, held_of_none rfl⟩
  | withPlaceholder text => exact ⟨_, held_withPlaceholder (Nat.le_refl _)⟩
  | withAllowedTools names _ ih => exact ih
  | update delta _ ih =>
    obtain ⟨ceiling, hheld⟩ := ih
    exact ⟨ceiling, hheld.update delta⟩
  | cancel _ ih =>
    obtain ⟨ceiling, hheld⟩ := ih
    exact ⟨ceiling, hheld.cancel⟩

theorem Held.waits (h : d.Held ceiling) : d.Waits := fun text htext => (h text htext).1

/-! ## Without a signal nothing changes -/

theorem clearPlaceholder_silent (h : d.Waits) (hsilent : d.clearPlaceholder.2 = false) : d.clearPlaceholder.1 = d := by
  cases hplaceholder : d.placeholder with
  | none => rw [clearPlaceholder_of_none hplaceholder]
  | some text => simp [clearPlaceholder, hplaceholder, h text hplaceholder] at hsilent

theorem appendReasoning_silent {piece : Option String} (hsilent : (d.appendReasoning piece).2 = false) :
    (d.appendReasoning piece).1 = d := by
  unfold appendReasoning at hsilent ⊢
  cases piece with
  | none => rfl
  | some text =>
    dsimp only at hsilent ⊢
    split
    · rfl
    next hsome => simp [hsome] at hsilent

theorem setAnswer_silent (h : d.Waits) {snapshot : Option String} (hsilent : (d.setAnswer snapshot).2 = false) :
    (d.setAnswer snapshot).1 = d := by
  unfold setAnswer at hsilent ⊢
  cases snapshot with
  | none => rfl
  | some text =>
    dsimp only at hsilent ⊢
    cases hempty : (cleanAnswer text).isEmpty with
    | true =>
      rw [hempty, if_pos rfl] at hsilent
      rw [if_pos rfl]
      dsimp only at hsilent ⊢
      split
      · rfl
      next hchanged => simp [hchanged] at hsilent
    | false =>
      rw [hempty, if_neg Bool.false_ne_true] at hsilent
      rw [if_neg Bool.false_ne_true]
      split
      next hsame =>
        rw [if_pos hsame] at hsilent
        exact clearPlaceholder_silent h hsilent
      next hchanged =>
        rw [if_neg hchanged] at hsilent
        cases hsilent

theorem setToolCalls_silent {snapshot : Option (List ToolCall)} (hsilent : (d.setToolCalls snapshot).2 = false) :
    (d.setToolCalls snapshot).1 = d := by
  unfold setToolCalls at hsilent ⊢
  cases snapshot with
  | none => rfl
  | some calls =>
    dsimp only at hsilent ⊢
    split
    · rfl
    next hchanged => simp [hchanged] at hsilent

theorem setFinished_silent {finished : Bool} (hsilent : (d.setFinished finished).2 = false) :
    (d.setFinished finished).1 = d := by
  unfold setFinished at hsilent ⊢
  split
  next hchanged => simp [hchanged] at hsilent
  · rfl

theorem update_snd (d : Draft) (delta : Delta) : (d.update delta).2 =
    ((d.appendReasoning delta.reasoning).2 ||
      ((d.appendReasoning delta.reasoning).1.setAnswer delta.content).2 ||
      (((d.appendReasoning delta.reasoning).1.setAnswer delta.content).1.setToolCalls delta.toolCalls).2 ||
      ((((d.appendReasoning delta.reasoning).1.setAnswer delta.content).1.setToolCalls delta.toolCalls).1.setFinished
        delta.finished).2) := by
  simp only [update]

theorem update_silent (h : d.Waits) {delta : Delta} (hsilent : (d.update delta).2 = false) :
    (d.update delta).1 = d := by
  rw [update_snd, Bool.or_eq_false_iff, Bool.or_eq_false_iff, Bool.or_eq_false_iff] at hsilent
  obtain ⟨⟨⟨hreasoning, hanswer⟩, hcalls⟩, hfinished⟩ := hsilent
  rw [update_fst]
  rw [appendReasoning_silent hreasoning] at hanswer hcalls hfinished ⊢
  rw [setAnswer_silent h hanswer] at hcalls hfinished ⊢
  rw [setToolCalls_silent hcalls] at hfinished ⊢
  exact setFinished_silent hfinished

/-! ## With a signal something changes -/

theorem appendReasoning_signal (h : d.Waits) {delta : Delta} (hsignal : (d.appendReasoning delta.reasoning).2 = true) :
    (d.update delta).1.reply.reasoning ≠ d.reply.reasoning ∨ d.Echoes delta := by
  obtain ⟨text, hpiece, hsome⟩ : ∃ text, delta.reasoning = some text ∧ text ≠ "" := by
    cases hpiece : delta.reasoning with
    | none =>
      rw [hpiece] at hsignal
      cases hsignal
    | some text =>
      refine ⟨text, rfl, ?_⟩
      rintro rfl
      rw [hpiece] at hsignal
      cases hsignal
  have houtput : delta.isOutput = true := by simp [Delta.isOutput, hpiece, hsome]
  rw [(update_texts h delta).2, if_pos houtput, hpiece, Option.getD_some]
  cases hplaceholder : d.placeholder with
  | none =>
    left
    rw [spoken, hplaceholder]
    intro hsame
    have hnothing := congrArg String.toList hsame
    rw [String.toList_append] at hnothing
    exact hsome (String.toList_eq_nil_iff.1 (List.append_right_eq_self.1 hnothing))
  | some waiting =>
    rw [spoken, hplaceholder, h waiting hplaceholder]
    by_cases hsame : text = waiting
    · exact .inr ⟨text, hsome, hsame ▸ hplaceholder, hpiece⟩
    · exact .inl (by simpa using hsame)

/-- The answer that drives the placeholder out is the first. -/
theorem setAnswer_signal (h : d.Held ceiling) {snapshot : Option String} (hsignal : (d.setAnswer snapshot).2 = true) :
    (snapshot.map cleanAnswer).getD d.reply.answer ≠ d.reply.answer := by
  unfold setAnswer at hsignal
  cases snapshot with
  | none => cases hsignal
  | some text =>
    dsimp only at hsignal
    rw [Option.map_some, Option.getD_some]
    intro hsame
    cases hempty : (cleanAnswer text).isEmpty with
    | true =>
      rw [hempty, if_pos rfl] at hsignal
      dsimp only at hsignal
      rw [if_pos hsame] at hsignal
      cases hsignal
    | false =>
      rw [hempty, if_neg Bool.false_ne_true, clearPlaceholder_answer, if_pos hsame] at hsignal
      cases hplaceholder : d.placeholder with
      | none =>
        rw [clearPlaceholder_of_none hplaceholder] at hsignal
        cases hsignal
      | some waiting =>
        obtain ⟨-, hanswer, -⟩ := h waiting hplaceholder
        rw [hsame, hanswer] at hempty
        cases hempty

theorem setToolCalls_signal {snapshot : Option (List ToolCall)} (hsignal : (d.setToolCalls snapshot).2 = true) :
    (snapshot.map (filterCalls d.allowedTools)).getD d.reply.toolCalls ≠ d.reply.toolCalls := by
  unfold setToolCalls at hsignal
  cases snapshot with
  | none => cases hsignal
  | some calls =>
    dsimp only at hsignal
    split at hsignal
    · cases hsignal
    next hchanged => exact hchanged

theorem setFinished_signal {finished : Bool} (hsignal : (d.setFinished finished).2 = true) :
    (d.reply.isFinished || finished) ≠ d.reply.isFinished := by
  unfold setFinished at hsignal
  split at hsignal
  next hchanged => simp_all
  · cases hsignal

theorem update_signal (h : d.Held ceiling) {delta : Delta} (hsignal : (d.update delta).2 = true) :
    (d.update delta).1.reply ≠ d.reply ∨ d.Echoes delta := by
  by_contra! hnone
  obtain ⟨hsame, hecho⟩ := hnone
  obtain ⟨hcalls, hfinished, -, -⟩ := update_rest h.waits delta
  -- each part is silent, as its part of the reply is the same
  have hreasoning : (d.appendReasoning delta.reasoning).2 = false := by
    refine Bool.eq_false_iff.2 fun hpart => ?_
    rcases appendReasoning_signal h.waits hpart with hchanged | hfirst
    · exact hchanged (congrArg Reply.reasoning hsame)
    · exact hecho hfirst
  have hanswer : (d.setAnswer delta.content).2 = false := by
    refine Bool.eq_false_iff.2 fun hpart => setAnswer_signal h hpart ?_
    rw [← update_answer, hsame]
  have hcalls : (d.setToolCalls delta.toolCalls).2 = false := by
    refine Bool.eq_false_iff.2 fun hpart => setToolCalls_signal hpart ?_
    rw [← hcalls, hsame]
  have hfinished : (d.setFinished delta.finished).2 = false := by
    refine Bool.eq_false_iff.2 fun hpart => setFinished_signal hpart ?_
    rw [← hfinished, hsame]
  rw [update_snd, appendReasoning_silent hreasoning, setAnswer_silent h.waits hanswer, setToolCalls_silent hcalls,
    hreasoning, hanswer, hcalls, hfinished] at hsignal
  cases hsignal

theorem update_signal_of_echoes {delta : Delta} (h : d.Echoes delta) : (d.update delta).2 = true := by
  obtain ⟨text, hsome, -, hpiece⟩ := h
  have hgrown : (d.appendReasoning delta.reasoning).2 = true := by
    rw [hpiece, appendReasoning]
    dsimp only
    rw [if_neg (by simpa using hsome)]
  rw [update_snd, hgrown, Bool.true_or, Bool.true_or, Bool.true_or]

/-! ## Saying it again -/

theorem cleanAnswer_of_sameButBlanks {text text' : String} (h : SameButBlanks text text') :
    cleanAnswer text = cleanAnswer text' := by
  obtain ⟨before, before', middle, behind, behind', hblank, htext, htext'⟩ := h
  have htrim : Text.trim text.toList = Text.trim text'.toList := by
    rw [htext, htext', Text.trim_surrounded (hblank before (by simp)) (hblank behind (by simp)),
      Text.trim_surrounded (hblank before' (by simp)) (hblank behind' (by simp))]
  rw [cleanAnswer, cleanAnswer, clean, clean, htrim]

theorem content_of_repeats {again delta : Delta} (h : again.Repeats delta) :
    again.content.map cleanAnswer = delta.content.map cleanAnswer := by
  have hcontent := h.content
  revert hcontent
  generalize again.content = content, delta.content = content'
  rintro (hsame | -)
  · exact congrArg some (cleanAnswer_of_sameButBlanks hsame)
  · rfl

theorem isOutput_of_repeats {again delta : Delta} (h : again.Repeats delta) (houtput : again.isOutput = true) :
    delta.isOutput = true := by
  have hany : again.content.any (fun text => !(cleanAnswer text).isEmpty) =
      delta.content.any (fun text => !(cleanAnswer text).isEmpty) := by
    have hmap := congrArg (Option.any fun text : String => !text.isEmpty) (content_of_repeats h)
    rwa [Option.any_map, Option.any_map] at hmap
  have hreasoning : again.reasoning.any (fun text => !text.isEmpty) = false := by
    rcases h.reasoning with hnone | hempty
    · rw [hnone, Option.any_none]
    · rw [hempty, Option.any_some, String.isEmpty_iff.2 rfl, Bool.not_true]
  rw [Delta.isOutput, hreasoning, Bool.false_or, hany] at houtput
  rw [Delta.isOutput, houtput, Bool.or_true]

theorem reply_of_repeats (h : d.Waits) (h' : (d.update delta).1.Waits) {again : Delta} (hagain : again.Repeats delta) :
    ((d.update delta).1.update again).1.reply = (d.update delta).1.reply := by
  obtain ⟨hcalls, hfinished, -, hallowed⟩ := update_rest h delta
  obtain ⟨hcalls', hfinished', hcanceled', -⟩ := update_rest h' again
  refine Reply.ext ?_ ?_ ?_ ?_ hcanceled'
  · have hempty : again.reasoning.getD "" = "" := by
      rcases hagain.reasoning with hnone | hempty
      · rw [hnone, Option.getD_none]
      · rw [hempty, Option.getD_some]
    rw [(update_texts h' again).2, hempty, String.append_empty]
    split
    next houtput =>
      have hgone : (d.update delta).1.placeholder = none := by
        rw [(update_texts h delta).1, if_pos (isOutput_of_repeats hagain houtput)]
      rw [spoken, hgone, Option.isSome_none, if_neg Bool.false_ne_true]
    next => rfl
  · rw [update_answer, content_of_repeats hagain, update_answer]
    cases delta.content.map cleanAnswer <;> rfl
  · rw [hcalls', hagain.toolCalls, hallowed, hcalls]
    cases delta.toolCalls.map (filterCalls d.allowedTools) <;> rfl
  · rw [hfinished', hagain.finished, hfinished, Bool.or_assoc, Bool.or_self]

/-- **The signal is exact.** Whatever has been done with a draft: an update or
a cancellation without a signal leaves it as it was, placeholder and all, and
one with a signal changes the reply, except that the first reasoning may be the
placeholder's text. Saying again what was said last is silent. -/
theorem signal_exact (h : d.Reached) :
    (∀ delta, ((d.update delta).2 = false → (d.update delta).1 = d) ∧
      ((d.update delta).2 = true ↔ (d.update delta).1.reply ≠ d.reply ∨ d.Echoes delta)) ∧
    ((d.cancel.2 = false → d.cancel.1 = d) ∧ (d.cancel.2 = true ↔ d.cancel.1.reply ≠ d.reply)) ∧
    ∀ delta again, again.Repeats delta → (d.update delta).1.update again = ((d.update delta).1, false) := by
  obtain ⟨ceiling, hheld⟩ := h.held
  refine ⟨fun delta => ⟨update_silent hheld.waits, update_signal hheld, ?_⟩, ?_, fun delta again hagain => ?_⟩
  · rintro (hchanged | hecho)
    · by_contra hsilent
      exact hchanged (congrArg Draft.reply (update_silent hheld.waits (Bool.eq_false_iff.2 hsilent)))
    · exact update_signal_of_echoes hecho
  · unfold cancel
    cases hcanceled : d.reply.isCanceled with
    | true => simp
    | false =>
      refine ⟨nofun, fun _ hsame => ?_, fun _ => rfl⟩
      have := congrArg Reply.isCanceled hsame
      rw [hcanceled] at this
      cases this
  · have hheld' := hheld.update delta
    have hsilent : ((d.update delta).1.update again).2 = false := by
      refine Bool.eq_false_iff.2 fun hsignal => ?_
      rcases update_signal hheld' hsignal with hchanged | ⟨text, hsome, -, hpiece⟩
      · exact hchanged (reply_of_repeats hheld.waits hheld'.waits hagain)
      · rcases hagain.reasoning with hnone | hempty
        · rw [hnone] at hpiece
          cases hpiece
        · rw [hempty] at hpiece
          exact hsome (Option.some.inj hpiece).symm
    exact Prod.ext (update_silent hheld'.waits hsilent) hsilent

/-! ## A first thought -/

/-- A draft that waits, and the reasoning that is the placeholder's text. -/
def waiting : Draft := withPlaceholder "Thinking..."

def firstThought : Delta := ⟨some "Thinking...", none, none, false⟩

theorem signal_exact_waiting :
    waiting.Reached ∧ (waiting.update firstThought).2 = true ∧
      (waiting.update firstThought).1.reply = waiting.reply ∧
      (waiting.update ⟨none, some " ", none, false⟩).1 = waiting ∧
      (waiting.update ⟨none, some "Here", none, false⟩).1.update ⟨some "", some "Here \n", none, false⟩ =
        ((waiting.update ⟨none, some "Here", none, false⟩).1, false) := by
  have hreached : waiting.Reached := .withPlaceholder _
  obtain ⟨hupdate, -, hagain⟩ := signal_exact hreached
  have hecho : waiting.Echoes firstThought := ⟨"Thinking...", by decide, rfl, rfl⟩
  refine ⟨hreached, (hupdate _).2.2 (.inr hecho), by decide, (hupdate _).1 (by decide), ?_⟩
  refine hagain _ _ ⟨.inr rfl, ?_, rfl, rfl⟩
  exact .some ⟨[], [], "Here".toList, " \n".toList, [], by decide, by decide, by decide⟩

end Draft

end ReplyStream
