/-
The account of a turn that returned: the chain was opened, some of the replies
that were accumulated were flushed in their order, then the last reply, and
nothing is left to happen (`run_accounts`). How the deltas, the window and the
sends came to lie in time decides which replies were flushed, and nothing
else.
-/
import ReplyStream.Proofs.Draft
import ReplyStream.Proofs.Turn.Publish
import ReplyStream.Turn.Run

namespace ReplyStream

/-- What the model gives, up to faults. -/
def ModelStream.deltas (stream : ModelStream) : List Delta := stream.items.filterMap (·.2.toOption)

namespace Turn

variable {start : Wire × Publisher} {acc : List Reply} {t t' : Turn}

/-! ## The model's deltas -/

/-- The deltas a turn takes, of the items that are left. -/
def taken (cancelAt : Option Nat) : List (Nat × Except ModelFault Delta) → Turn → List Delta
  | [], _ => []
  | (delay, item) :: rest, t =>
    match t.waitFor (some (t.now + delay)) cancelAt, item with
    | (t, .due), .ok delta => delta :: if delta.finished then [] else taken cancelAt rest (t.take delta).1
    | _, _ => []

theorem Running.waitFor (h : Running start acc t) (time cancelAt : Option Nat) :
    Running start acc (t.waitFor time cancelAt).1 ∧ (t.waitFor time cancelAt).1.draft = t.draft := by
  unfold Turn.waitFor
  split
  · exact ⟨h, rfl⟩
  · exact h.passTo _
  · exact h.passTo _
  · split
    · exact h.passTo _
    · exact h.passTo _

/-- A delta that changes something schedules a reply. -/
theorem Running.take (h : Running start acc t) (delta : Delta) :
    Running start (acc ++ t.draft.changes [delta]) (t.take delta).1 ∧
      (t.take delta).1.draft = (t.draft.update delta).1 := by
  simp only [Turn.take, Draft.changes]
  cases t.draft.update delta with
  | mk draft changed =>
    cases changed with
    | true => exact (h.set_draft draft).schedule draft.reply
    | false =>
      rw [List.append_nil]
      exact ⟨h.set_draft draft, rfl⟩

/-- How taking the model's deltas can end: with all of them, with one that
says it is the last, or because the turn is canceled. -/
def Ends (items : List (Nat × Except ModelFault Delta)) (deltas : List Delta) (draft draft' : Draft) : Prop :=
  (draft' = draft.fold deltas ∧ (deltas = items.filterMap (·.2.toOption) ∨
    ∃ delta, deltas.getLast? = some delta ∧ delta.finished = true)) ∨
  draft' = (draft.fold deltas).cancel.1

theorem Ends.cons {items : List (Nat × Except ModelFault Delta)} {deltas : List Delta} {delta : Delta}
    {draft draft' : Draft} (h : Ends items deltas (draft.update delta).1 draft') (delay : Nat) :
    Ends ((delay, .ok delta) :: items) (delta :: deltas) draft draft' := by
  rcases h with ⟨hfold, hall | ⟨last, hlast, hfinished⟩⟩ | hcanceled
  · exact .inl ⟨hfold, .inl (congrArg (delta :: ·) hall)⟩
  · exact .inl ⟨hfold, .inr ⟨last, by rw [List.getLast?_cons, hlast]; rfl, hfinished⟩⟩
  · exact .inr hcanceled

theorem consume_running (h : Running start acc t) {hangs : Bool} {cancelAt : Option Nat}
    {items : List (Nat × Except ModelFault Delta)} (hconsume : consume hangs cancelAt items t = (t', some (.ok ()))) :
    Running start (acc ++ t.draft.changes (taken cancelAt items t)) t' ∧
      (taken cancelAt items t) <+: items.filterMap (·.2.toOption) ∧
      Ends items (taken cancelAt items t) t.draft t'.draft := by
  induction items generalizing t acc with
  | nil =>
    simp only [taken, Draft.changes, List.append_nil]
    obtain ⟨hwaited, hdraft⟩ := h.waitFor (if hangs then none else some t.now) cancelAt
    simp only [consume] at hconsume
    cases hwait : t.waitFor (if hangs then none else some t.now) cancelAt with
    | mk u waited =>
      rw [hwait] at hconsume hwaited hdraft
      cases waited with
      | due =>
        cases hconsume
        exact ⟨hwaited, List.prefix_rfl, .inl ⟨hdraft, .inl rfl⟩⟩
      | canceled =>
        cases hconsume
        refine ⟨hwaited.set_draft _, List.prefix_rfl, .inr ?_⟩
        exact congrArg (·.cancel.1) hdraft
      | never => cases hconsume
  | cons item items ih =>
    obtain ⟨delay, item⟩ := item
    obtain ⟨hwaited, hdraft⟩ := h.waitFor (some (t.now + delay)) cancelAt
    simp only [consume] at hconsume
    simp only [taken]
    cases hwait : t.waitFor (some (t.now + delay)) cancelAt with
    | mk u waited =>
      rw [hwait] at hconsume hwaited hdraft
      cases waited with
      | never => cases hconsume
      | canceled =>
        cases hconsume
        simp only [Draft.changes, List.append_nil]
        refine ⟨hwaited.set_draft _, List.nil_prefix, .inr ?_⟩
        exact congrArg (·.cancel.1) hdraft
      | due =>
        cases item with
        | error fault => cases hconsume
        | ok delta =>
          obtain ⟨htaken, hdraft'⟩ := hwaited.take delta
          rw [show u.draft = t.draft from hdraft] at htaken hdraft'
          simp only [List.filterMap_cons, Except.toOption] at hconsume ⊢
          cases hfinished : delta.finished with
          | true =>
            rw [hfinished] at hconsume
            cases hconsume
            exact ⟨htaken, ⟨_, rfl⟩, .inl ⟨hdraft', .inr ⟨delta, rfl, hfinished⟩⟩⟩
          | false =>
            rw [hfinished] at hconsume
            obtain ⟨hrunning, hread, hends⟩ := ih htaken hconsume
            rw [hdraft', List.append_assoc, ← Draft.changes_cons] at hrunning
            rw [hdraft'] at hends
            exact ⟨hrunning, List.cons_prefix_cons.2 ⟨rfl, hread⟩, hends.cons delay⟩

/-! ## The end -/

/-- The end of a turn publishes its last reply and asks for the events. -/
theorem finalize_finishes (h : Running start acc t) :
    ∃ u : Turn, Finished start acc t.draft.finish.reply u ∧
      t.finalize = ({ u with failures := [] },
        ⟨u.office.publisher.eventIds, t.draft.finish.reply.isCanceled, u.failures⟩) := by
  obtain ⟨hfinished, -⟩ := flushNow_flushes (h.set_draft t.draft.finish) t.draft.finish.reply
  obtain ⟨v, hv⟩ : ∃ v : Turn, v = ({ t with draft := t.draft.finish } : Turn).flushNow t.draft.finish.reply := ⟨_, rfl⟩
  rw [← hv] at hfinished
  obtain ⟨u, hrequest, hanswered, hfailures⟩ := request_answers (q := .links) (t := v)
    ⟨hfinished.ordered, .inr hfinished.keeper, hfinished.idle⟩ rfl
  refine ⟨u, ?_, ?_⟩
  · obtain ⟨flushed, w, p, faults, fault, hflushed, hsublist, hflush, hfailures'⟩ := hfinished.flushed
    exact {
      flushed := ⟨flushed, w, p, faults, fault, hflushed, hsublist, by
        rw [hanswered.wire, hanswered.publisher]
        exact hflush, hfailures.trans hfailures'⟩
      ordered := hanswered.ready.ordered
      keeper := hanswered.quiet hfinished.keeper
      idle := hanswered.ready.idle }
  · simp only [finalize]
    rw [← hv, hrequest, ← hanswered.publisher]
    rfl

/-- How a turn went that returned: the first event was sent, replies that were
accumulated on the way were flushed in their order and then the last one,
and nothing goes on behind that. -/
structure Account (t₀ : Turn) (stream : ModelStream) (first : String) (deltas : List Delta) (final : Reply) (t : Turn)
    (outcome : Outcome) : Prop where
  flushed : ∃ w₁ p₁ flushed w₂ p₂ faults fault,
    t₀.office.publisher.openUp (Wire.post t₀.office.publisher.room) t₀.wire.timeless = (w₁, p₁, .ok first) ∧
    p₁.flushAll (Wire.post t₀.office.publisher.room) w₁ flushed = (w₂, p₂, faults) ∧
    p₂.flush (Wire.post t₀.office.publisher.room) w₂ final = (t.wire.timeless, t.office.publisher, fault) ∧
    flushed.Sublist (t₀.draft.changes deltas) ∧ outcome.failures = faults ++ fault.toList
  taken : deltas <+: stream.deltas
  ends : ∃ last, Ends stream.items deltas t₀.draft last ∧ final = last.finish.reply
  eventIds : outcome.eventIds = t.office.publisher.eventIds
  isCanceled : outcome.isCanceled = final.isCanceled
  quiet : t.next = none

theorem begin_running {room : String} {c : Config} {draft : Draft} {wire : Wire} {first : String}
    (hbegin : (Turn.new room c draft wire).begin = (t, .ok first)) :
    ∃ w₁ p₁, (Publisher.new room c.identity.agentId c.publishing).openUp (Wire.post room) wire.timeless =
        (w₁, p₁, .ok first) ∧ Running (w₁, p₁) [] t ∧ t.draft = draft ∧ p₁.room = room := by
  cases hopen : (Publisher.new room c.identity.agentId c.publishing).openUp (Wire.post room) wire.timeless with
  | mk w₁ rest =>
    obtain ⟨p₁, result⟩ := rest
    have hready : (Turn.new room c draft wire).Ready [] :=
      ⟨Throttle.Ordered.new _, .inr rfl, ⟨rfl, rfl, rfl⟩⟩
    obtain ⟨u, hrequest, hanswered, hfailures⟩ := request_answers (q := .opening) (a := .opened result) hready (by
      show Publisher.respond (Wire.post room) wire.timeless (.new room c.identity.agentId c.publishing) .opening = _
      simp only [Publisher.respond, hopen]
      rfl)
    simp only [begin, hrequest] at hbegin
    cases result with
    | error fault => cases hbegin
    | ok id =>
      cases hbegin
      have hkeeper : t.throttle.keeper = none := hanswered.quiet rfl
      have hnot := Throttle.isFlushing_eq_false hkeeper
      refine ⟨w₁, p₁, rfl, ⟨?_, hanswered.frame.closed, hanswered.frame.calls⟩, hanswered.frame.draft, ?_⟩
      · exact {
          frame := .refl t
          ordered := hanswered.ready.ordered
          idle := fun _ => hanswered.ready.idle
          asked := fun hflushing => absurd (hnot.symm.trans hflushing) (by simp)
          reported := fun hreporting => by
            rw [hanswered.ready.idle.reporting] at hreporting
            cases hreporting
          told := by
            refine ⟨[], ?_, ?_⟩
            · rw [settled_of_not_flushing hnot, hanswered.wire, hanswered.publisher, hfailures]
              rfl
            · rw [hanswered.pending]
              exact List.Sublist.refl [] }
      · exact (Publisher.openUp_room hopen).trans rfl

/-- **The account of a turn.** -/
theorem run_accounts {room : String} {c : Config} {draft : Draft} {wire : Wire} {stream : ModelStream}
    {cancelAt : Option Nat} {outcome : Outcome}
    (hrun : (Turn.new room c draft wire).run stream cancelAt = (t, some (.ok outcome))) :
    ∃ t₁ first final, (Turn.new room c draft wire).begin = (t₁, .ok first) ∧
      Account (Turn.new room c draft wire) stream first (taken cancelAt stream.items t₁) final t outcome := by
  simp only [run] at hrun
  cases hbegin : (Turn.new room c draft wire).begin with
  | mk t₁ result =>
    cases result with
    | error fault => rw [hbegin] at hrun; cases hrun
    | ok first =>
      obtain ⟨w₁, p₁, hopen, hrunning, hdraft, hroom⟩ := begin_running hbegin
      cases hconsume : consume stream.hangs cancelAt stream.items t₁ with
      | mk t₂ result =>
        simp only [hbegin, hconsume] at hrun
        match result with
        | none => cases hrun
        | some (.error cause) => cases hrun
        | some (.ok ()) =>
          obtain ⟨hrunning', hread, hends⟩ := consume_running hrunning hconsume
          obtain ⟨u, hfinished, hfinalize⟩ := finalize_finishes hrunning'
          dsimp only at hrun
          rw [hfinalize] at hrun
          obtain ⟨ht, houtcome⟩ := Prod.mk.inj hrun
          have ht' : ∃ tally, t = { u with failures := [], tally } := by
            rw [← ht]
            split
            · exact ⟨_, rfl⟩
            · exact ⟨_, rfl⟩
          obtain ⟨tally, rfl⟩ := ht'
          cases houtcome
          obtain ⟨flushed, w₂, p₂, faults, fault, hflushed, hsublist, hflush, hfailures⟩ := hfinished.flushed
          rw [hdraft, List.nil_append] at hsublist
          rw [hdraft] at hends
          refine ⟨t₁, first, t₂.draft.finish.reply, rfl, ?_⟩
          exact {
            flushed := by
              refine ⟨w₁, p₁, flushed, w₂, p₂, faults, fault, hopen, ?_, ?_, hsublist, hfailures⟩
              · rw [hroom] at hflushed
                exact hflushed
              · rw [Publisher.flushAll_room hflushed, hroom] at hflush
                exact hflush
            taken := hread
            ends := ⟨_, hends, rfl⟩
            eventIds := rfl
            isCanceled := rfl
            quiet := (hfinished.idle.congr rfl rfl).next_eq_none hfinished.keeper }

end Turn

end ReplyStream
