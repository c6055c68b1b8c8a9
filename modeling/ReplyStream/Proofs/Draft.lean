/-
A draft as deltas are folded in. Its answer is the last snapshot, cleaned;
its reasoning grows, once the placeholder has gone. So when each snapshot
begins with the one before, every reply follows those before it
(`Draft.pairwise_changes`): a placeholder fits in one event and leaves nothing
behind that a later publish would not write anew.
-/
import Mathlib.Data.List.Chain
import ReplyStream.Proofs.Chain.Carries

namespace ReplyStream

namespace Reply

variable {ceiling : Nat} {r r' r'' : Reply}

theorem GrowsTo.size_le (h : r.GrowsTo r') : r.text.size ≤ r'.text.size := by
  obtain ⟨more, hmore⟩ := h.text
  rw [hmore, Part.size_append]
  exact Nat.le_add_right _ _

theorem Follows.trans (h : r.Follows ceiling r') (h' : r'.Follows ceiling r'') : r.Follows ceiling r'' := by
  rcases h with h | h
  · rcases h' with h' | h'
    · exact .inl (h.trans h')
    · have hsize := h.size_le
      exact .inr (by omega)
  · exact .inr h

theorem Follows.of_text (h : r.Follows ceiling r') (ht : r''.text = r'.text) : r.Follows ceiling r'' := by
  rcases h with h | h
  · refine .inl ⟨?_, ?_⟩
    · rw [show r''.reasoning.toList = r'.reasoning.toList from congrArg Part.reasoning ht]
      exact h.reasoning
    · rw [show r''.answer.toList = r'.answer.toList from congrArg Part.answer ht]
      exact h.answer
  · exact .inr h

theorem Follows.refl (ceiling : Nat) (r : Reply) : r.Follows ceiling r := .inl ⟨List.prefix_rfl, List.prefix_rfl⟩

end Reply

namespace Draft

variable {ceiling : Nat} {d : Draft} {delta : Delta} {deltas : List Delta}

/-- Folds deltas in. -/
def fold (d : Draft) (deltas : List Delta) : Draft := deltas.foldl (fun d delta => (d.update delta).1) d

/-- The replies behind the deltas that changed something, in order. -/
def changes (d : Draft) : List Delta → List Reply
  | [] => []
  | delta :: deltas =>
    match d.update delta with
    | (d, true) => d.reply :: changes d deltas
    | (d, false) => changes d deltas

theorem changes_cons (d : Draft) (delta : Delta) (deltas : List Delta) :
    d.changes (delta :: deltas) = d.changes [delta] ++ (d.update delta).1.changes deltas := by
  simp only [changes]
  cases d.update delta with
  | mk d' changed => cases changed <;> rfl

/-- While there is a placeholder it is all there is, and fits in one event. -/
def Held (ceiling : Nat) (d : Draft) : Prop :=
  ∀ text, d.placeholder = some text →
    d.reply.reasoning = text ∧ d.reply.answer = "" ∧ Text.byteLength text.toList ≤ ceiling

/-- The answers the model gives, cleaned. -/
def snapshots (deltas : List Delta) : List (List Char) :=
  (deltas.filterMap (·.content)).map fun text => clean text.toList

theorem update_fst (d : Draft) (delta : Delta) : (d.update delta).1 =
    ((((d.appendReasoning delta.reasoning).1.setAnswer delta.content).1.setToolCalls delta.toolCalls).1.setFinished
      delta.finished).1 := by
  simp only [update]

@[simp] theorem setToolCalls_text (d : Draft) (calls : Option (List ToolCall)) :
    (d.setToolCalls calls).1.reply.text = d.reply.text := by
  unfold setToolCalls
  split
  · rfl
  · dsimp only
    split <;> rfl

@[simp] theorem setToolCalls_placeholder (d : Draft) (calls : Option (List ToolCall)) :
    (d.setToolCalls calls).1.placeholder = d.placeholder := by
  unfold setToolCalls
  split
  · rfl
  · dsimp only
    split <;> rfl

@[simp] theorem setFinished_text (d : Draft) (finished : Bool) :
    (d.setFinished finished).1.reply.text = d.reply.text := by
  unfold setFinished
  split <;> rfl

@[simp] theorem setFinished_placeholder (d : Draft) (finished : Bool) :
    (d.setFinished finished).1.placeholder = d.placeholder := by
  unfold setFinished
  split <;> rfl

/-- The texts are settled by the first two steps of an update. -/
theorem update_text (d : Draft) (delta : Delta) : (d.update delta).1.reply.text =
    ((d.appendReasoning delta.reasoning).1.setAnswer delta.content).1.reply.text := by
  rw [update_fst, setFinished_text, setToolCalls_text]

theorem clearPlaceholder_of_none (h : d.placeholder = none) : d.clearPlaceholder = (d, false) := by
  simp only [clearPlaceholder, h]

@[simp] theorem clearPlaceholder_placeholder (d : Draft) : d.clearPlaceholder.1.placeholder = none := by
  unfold clearPlaceholder
  split
  next h => exact h
  next text h => split <;> rfl

@[simp] theorem clearPlaceholder_answer (d : Draft) : d.clearPlaceholder.1.reply.answer = d.reply.answer := by
  unfold clearPlaceholder
  split
  · rfl
  · split <;> rfl

theorem appendReasoning_answer (d : Draft) (piece : Option String) :
    (d.appendReasoning piece).1.reply.answer = d.reply.answer := by
  unfold appendReasoning
  split
  · rfl
  · split
    · rfl
    · exact clearPlaceholder_answer d

theorem setAnswer_answer (d : Draft) (snapshot : Option String) :
    (d.setAnswer snapshot).1.reply.answer = (snapshot.map cleanAnswer).getD d.reply.answer := by
  unfold setAnswer clearPlaceholder
  grind

theorem appendReasoning_of_none (h : d.placeholder = none) (piece : Option String) :
    (d.appendReasoning piece).1.reply.reasoning = d.reply.reasoning ++ piece.getD "" ∧
      (d.appendReasoning piece).1.placeholder = none := by
  unfold appendReasoning
  rw [clearPlaceholder_of_none h]
  cases piece with
  | none => exact ⟨(String.append_empty).symm, h⟩
  | some text =>
    by_cases hempty : text.isEmpty = true
    · obtain rfl := String.isEmpty_iff.1 hempty
      exact ⟨(String.append_empty).symm, h⟩
    · dsimp only
      rw [if_neg hempty]
      exact ⟨rfl, h⟩

theorem setAnswer_of_none (h : d.placeholder = none) (snapshot : Option String) :
    (d.setAnswer snapshot).1.reply.reasoning = d.reply.reasoning ∧ (d.setAnswer snapshot).1.placeholder = none := by
  unfold setAnswer
  rw [clearPlaceholder_of_none h]
  grind

theorem held_of_none (h : d.placeholder = none) : d.Held ceiling := by
  intro text htext
  rw [h] at htext
  cases htext

theorem Held.appendReasoning (h : d.Held ceiling) (piece : Option String) :
    (d.appendReasoning piece).1.Held ceiling := by
  unfold Draft.appendReasoning
  split
  · exact h
  · split
    · exact h
    · exact held_of_none (clearPlaceholder_placeholder d)

theorem Held.setAnswer (h : d.Held ceiling) (snapshot : Option String) : (d.setAnswer snapshot).1.Held ceiling := by
  cases hplaceholder : d.placeholder with
  | none => exact held_of_none (setAnswer_of_none hplaceholder snapshot).2
  | some text =>
    obtain ⟨-, hanswer, -⟩ := h text hplaceholder
    unfold Draft.setAnswer
    split
    · exact h
    next text' =>
      dsimp only
      cases hempty : (cleanAnswer text').isEmpty with
      | true =>
        rw [if_pos rfl]
        dsimp only
        rw [if_pos ((String.isEmpty_iff.1 hempty).trans hanswer.symm)]
        exact h
      | false =>
        refine held_of_none ?_
        simp only [Bool.false_eq_true, if_false]
        split
        · exact clearPlaceholder_placeholder d
        · exact clearPlaceholder_placeholder d

/-! ## Updates -/

theorem update_answer (d : Draft) (delta : Delta) :
    (d.update delta).1.reply.answer = (delta.content.map cleanAnswer).getD d.reply.answer := by
  rw [String.toList_inj.1 (congrArg Part.answer (update_text d delta)), setAnswer_answer, appendReasoning_answer]

theorem update_of_none (h : d.placeholder = none) (delta : Delta) :
    (d.update delta).1.reply.reasoning = d.reply.reasoning ++ delta.reasoning.getD "" := by
  obtain ⟨hreasoning, hplaceholder⟩ := appendReasoning_of_none h delta.reasoning
  rw [String.toList_inj.1 (congrArg Part.reasoning (update_text d delta)), (setAnswer_of_none hplaceholder _).1,
    hreasoning]

theorem Held.update (h : d.Held ceiling) (delta : Delta) : (d.update delta).1.Held ceiling := by
  intro text htext
  rw [update_fst, setFinished_placeholder, setToolCalls_placeholder] at htext
  have hheld := (h.appendReasoning delta.reasoning).setAnswer delta.content text htext
  rw [String.toList_inj.1 (congrArg Part.reasoning (update_text d delta)),
    String.toList_inj.1 (congrArg Part.answer (update_text d delta))]
  exact hheld

theorem update_follows (h : d.Held ceiling)
    (hsnapshot : ∀ text, delta.content = some text → d.reply.answer.toList <+: clean text.toList) :
    d.reply.Follows ceiling (d.update delta).1.reply := by
  cases hplaceholder : d.placeholder with
  | none =>
    refine .inl ⟨?_, ?_⟩
    · rw [update_of_none hplaceholder, String.toList_append]
      exact List.prefix_append ..
    · rw [update_answer]
      cases hcontent : delta.content with
      | none => exact List.prefix_rfl
      | some text =>
        have := hsnapshot text hcontent
        simpa [cleanAnswer] using this
  | some text =>
    obtain ⟨hreasoning, hanswer, hsize⟩ := h text hplaceholder
    right
    simp only [Part.size, Reply.text, hreasoning, hanswer]
    exact hsize

/-! ## The end of a draft -/

theorem finish_reply (d : Draft) : d.finish.reply = { d.reply with isFinished := true } := by
  unfold finish setFinished
  cases hfinished : d.reply.isFinished with
  | true =>
    simp only [Bool.not_true, Bool.and_false, Bool.false_eq_true, if_false]
    rw [← hfinished]
  | false => rfl

theorem cancel_reply (d : Draft) :
    d.cancel.1.reply.text = d.reply.text ∧ d.cancel.1.reply.toolCalls = d.reply.toolCalls ∧
      d.cancel.1.reply.isCanceled = true := by
  unfold cancel
  split
  next hcanceled => exact ⟨rfl, rfl, hcanceled⟩
  · exact ⟨rfl, rfl, rfl⟩

/-! ## Folding -/

/-- Behind a delta the snapshots go on as they did before it. -/
theorem isChain_snapshots (h : List.IsChain (· <+: ·) (d.reply.answer.toList :: snapshots (delta :: deltas))) :
    (∀ text, delta.content = some text → d.reply.answer.toList <+: clean text.toList) ∧
      List.IsChain (· <+: ·) ((d.update delta).1.reply.answer.toList :: snapshots deltas) := by
  rw [update_answer]
  cases hcontent : delta.content with
  | none =>
    have hsnapshots : snapshots (delta :: deltas) = snapshots deltas := by simp [snapshots, hcontent]
    rw [hsnapshots] at h
    exact ⟨nofun, h⟩
  | some text =>
    have hsnapshots : snapshots (delta :: deltas) = clean text.toList :: snapshots deltas := by
      simp [snapshots, hcontent]
    rw [hsnapshots, List.isChain_cons_cons] at h
    refine ⟨fun text' htext => by cases htext; exact h.1, ?_⟩
    simpa [cleanAnswer] using h.2

/-- Every change follows those before it, and the reply at the end follows all. -/
theorem pairwise_changes (h : d.Held ceiling)
    (hsnapshots : List.IsChain (· <+: ·) (d.reply.answer.toList :: snapshots deltas)) :
    (d.reply :: (d.changes deltas ++ [(d.fold deltas).reply])).Pairwise (Reply.Follows ceiling) := by
  induction deltas generalizing d with
  | nil => exact List.pairwise_pair.2 (Reply.Follows.refl ceiling d.reply)
  | cons delta deltas ih =>
    obtain ⟨hsnapshot, hsnapshots'⟩ := isChain_snapshots hsnapshots
    have hstep := update_follows h hsnapshot
    have hrest := ih (h.update delta) hsnapshots'
    have hfirst : ∀ r ∈ (d.update delta).1.changes deltas ++ [(d.fold (delta :: deltas)).reply],
        d.reply.Follows ceiling r := fun r hr => hstep.trans ((List.pairwise_cons.1 hrest).1 r hr)
    have hfold : d.fold (delta :: deltas) = (d.update delta).1.fold deltas := rfl
    rw [hfold] at hfirst ⊢
    cases hupdate : d.update delta with
    | mk d' changed =>
      rw [hupdate] at hstep hrest hfirst
      simp only [changes, hupdate]
      cases changed with
      | true =>
        refine List.pairwise_cons.2 ⟨fun r hr => ?_, hrest⟩
        rcases List.mem_cons.1 hr with rfl | hr
        · exact hstep
        · exact hfirst r hr
      | false => exact List.pairwise_cons.2 ⟨hfirst, (List.pairwise_cons.1 hrest).2⟩

theorem held_withPlaceholder {text : String} (h : Text.byteLength text.toList ≤ ceiling) :
    (withPlaceholder text).Held ceiling := by
  intro text' htext
  obtain rfl := Option.some.inj htext
  exact ⟨rfl, rfl, h⟩

theorem isChain_snapshots_of_prefix {all : List Delta} (htaken : deltas <+: all)
    (h : List.IsChain (· <+: ·) (snapshots all)) : List.IsChain (· <+: ·) ([] :: snapshots deltas) := by
  obtain ⟨rest, rfl⟩ := htaken
  rw [snapshots, List.filterMap_append, List.map_append] at h
  exact List.isChain_cons.2 ⟨fun _ _ => List.nil_prefix, h.left_of_append⟩

end Draft

end ReplyStream
