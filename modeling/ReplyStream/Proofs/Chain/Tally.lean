/-
The books of a publisher balance. Every post it sends is counted once, as a new
event or as a replacement, and once more when it fails; every link but the last
is counted when its event is continued; and every new event that was accepted
is one of the chain, unless it tells of a fault that found no event to replace
(`Publisher.Balanced`).

One post keeps this, whatever comes of it (`Balanced.heard`), so errands do
(`Balanced.run`), and requests of any kind in any order, wherever sends fail
(`tally_balances`).
-/
import ReplyStream.Proofs.Chain.Resume
import ReplyStream.Proofs.Chain.Sound

namespace ReplyStream

namespace Attempt

/-- Whether the post was to be an event of its own. -/
def isNew (a : Attempt) : Bool := a.1.target.isNone

def isAccepted (a : Attempt) : Bool := a.2.isOk

end Attempt

namespace Publisher

variable {p q : Publisher}

/-! ## One post -/

/-- The books, with the posts that were sent and the number of reports that
became events of their own. -/
structure Balanced (p : Publisher) (tried : List Attempt) (strays : Nat) : Prop where
  newEvents : p.tally.newEvents = tried.countP (·.isNew)
  replacements : p.tally.replacements = tried.countP (!·.isNew)
  failures : p.tally.failures = tried.countP (!·.isAccepted)
  continuations : p.tally.continuations = p.chain.length - 1
  events : tried.countP (fun a => a.isNew && a.isAccepted) = p.eventIds.length + strays

theorem balanced_new (room agent : String) (c : Config.Publishing) : (new room agent c).Balanced [] 0 :=
  ⟨rfl, rfl, rfl, rfl, rfl⟩

/-- A report that is accepted while the chain has no first event is an event of
its own. -/
def stray (p : Publisher) (e : Errand) (result : Except TransportFault String) : Nat :=
  if e.isReport && p.firstId.isNone && result.isOk then 1 else 0

theorem stray_of_not_report {e : Errand} (h : e.isReport = false) (result : Except TransportFault String) :
    p.stray e result = 0 := by
  rw [stray, h]
  rfl

/-- The tally with one more post that is being sent. -/
def Tally.posted (t : Tally) (isNew : Bool) : Tally :=
  { t with
    newEvents := t.newEvents + if isNew then 1 else 0
    replacements := t.replacements + if !isNew then 1 else 0 }

theorem counted_eq_posted (p : Publisher) (post : Post) :
    p.counted post = { p with tally := p.tally.posted post.target.isNone } := by
  unfold counted
  cases post.target <;> rfl

/-- An accepted post counts a continued link for each link it adds behind the
first one, and nothing else. -/
theorem heard_continuations (p : Publisher) (e : Errand) (id : String) :
    ∃ more, (p.heard e (.ok id)).1.tally =
        ⟨p.tally.newEvents, p.tally.replacements, p.tally.failures, p.tally.continuations + more⟩ ∧
      (p.heard e (.ok id)).1.chain.length - 1 = p.chain.length - 1 + more := by
  cases e with
  | opening =>
    refine ⟨0, ?_, ?_⟩
    · simp only [heard, opened]
      split <;> rfl
    · simp only [heard, opened]
      split
      next hchain => simp [hchain]
      next hchain => simp [hchain]
  | publish reply parts =>
    cases parts with
    | nil =>
      refine ⟨0, rfl, ?_⟩
      simp only [heard, withLast, List.length_append, List.length_dropLast, List.length_singleton]
      omega
    | cons part parts =>
      refine ⟨1, rfl, ?_⟩
      simp only [heard, withLast, List.length_append, List.length_dropLast, List.length_cons, List.length_nil]
      omega
  | report text => exact ⟨0, rfl, rfl⟩

theorem fills_heard_publish (p : Publisher) (reply : Reply) (parts : List Part) (id : String) :
    p.Fills (p.heard (.publish reply parts) (.ok id)).1 id := by
  cases parts with
  | nil => exact ⟨_, [], rfl, rfl, by simp⟩
  | cons part parts =>
    refine ⟨_, _, rfl, rfl, fun l hl => ?_⟩
    obtain rfl := List.mem_singleton.1 hl
    rfl

/-- An accepted post is a new event just when the chain has one more, or when it
is a report that found none to replace. -/
theorem heard_eventIds {e : Errand} (he : p.Apt e) (id : String) :
    (p.heard e (.ok id)).1.eventIds.length + p.stray e (.ok id) =
      p.eventIds.length + if (p.post e).target.isNone then 1 else 0 := by
  cases e with
  | opening =>
    have hfirst := he rfl
    rw [stray_of_not_report rfl]
    show _ = p.eventIds.length + 1
    simp only [heard, opened, eventIds]
    split
    next hchain => simp [hchain]
    next first rest hchain =>
      rw [firstId, hchain] at hfirst
      have hnone : first.eventId = none := hfirst
      simp [hchain, hnone]
  | publish reply parts =>
    rw [stray_of_not_report rfl, (p.fills_heard_publish reply parts id).eventIds]
    have htarget : (p.post (.publish reply parts)).target = p.last.eventId := by
      cases parts <;> rfl
    rw [htarget]
    cases p.last.eventId <;> simp
  | report text =>
    show p.eventIds.length + p.stray (.report text) (.ok id) = _ + if p.firstId.isNone then 1 else 0
    simp [stray, Errand.isReport, Except.isOk, Except.toBool]

/-- The books balance behind a post, whatever comes of it. -/
theorem Balanced.heard {tried : List Attempt} {strays : Nat} (h : p.Balanced tried strays) {e : Errand}
    (he : p.Apt e) (result : Except TransportFault String) :
    ((p.counted (p.post e)).heard e result).1.Balanced (tried ++ [(p.post e, result)])
      (strays + p.stray e result) := by
  rw [counted_eq_posted]
  have hnew : Attempt.isNew (p.post e, result) = (p.post e).target.isNone := rfl
  cases result with
  | error fault =>
    refine ⟨?_, ?_, ?_, h.continuations, ?_⟩
    · rw [List.countP_append, List.countP_singleton, ← h.newEvents, hnew]
      rfl
    · rw [List.countP_append, List.countP_singleton, ← h.replacements, hnew]
      rfl
    · rw [List.countP_append, ← h.failures]
      rfl
    · have hrefused : Attempt.isAccepted (p.post e, .error fault) = false := rfl
      have hstray : p.stray e (.error fault) = 0 := by simp [stray, Except.isOk, Except.toBool]
      rw [List.countP_append, List.countP_singleton, hrefused, Bool.and_false, if_neg Bool.false_ne_true, h.events,
        hstray]
      rfl
  | ok id =>
    let q : Publisher := { p with tally := p.tally.posted (p.post e).target.isNone }
    obtain ⟨more, htally, hlength⟩ := q.heard_continuations e id
    have hevents : (q.heard e (.ok id)).1.eventIds.length + p.stray e (.ok id) =
        p.eventIds.length + if (p.post e).target.isNone then 1 else 0 := heard_eventIds (p := q) he id
    refine ⟨?_, ?_, ?_, ?_, ?_⟩
    · rw [htally, List.countP_append, List.countP_singleton, ← h.newEvents, hnew]
      rfl
    · rw [htally, List.countP_append, List.countP_singleton, ← h.replacements, hnew]
      rfl
    · rw [htally, List.countP_append, ← h.failures]
      rfl
    · rw [htally, hlength]
      exact congrArg (· + more) h.continuations
    · have haccepted : Attempt.isAccepted (p.post e, .ok id) = true := rfl
      rw [List.countP_append, List.countP_singleton, haccepted, Bool.and_true, h.events, hnew]
      show _ = (q.heard e (.ok id)).1.eventIds.length + _
      omega

/-! ## Errands -/

section Run

variable {σ : Type} {send : σ → Post → σ × Except TransportFault String}

/-- The same way to send, with a note of every post and what came of it. -/
def noted (send : σ → Post → σ × Except TransportFault String) (s : σ × List Attempt) (post : Post) :
    (σ × List Attempt) × Except TransportFault String :=
  let (s', result) := send s.1 post
  ((s', s.2 ++ [(post, result)]), result)

theorem Balanced.run {s s' : σ × List Attempt} {p p' : Publisher} {e : Errand} {strays : Nat}
    {result : Except TransportFault String} (h : p.Balanced s.2 strays) (he : p.Apt e)
    (hrun : p.run (noted send) s e = (s', p', result)) : p'.Balanced s'.2 (strays + p.stray e result) := by
  obtain ⟨s₁, answer, hsend, hcases⟩ := run_cases hrun
  have hone := h.heard he answer
  have hnoted : s₁.2 = s.2 ++ [(p.post e, answer)] := by
    cases hsend
    rfl
  rw [← hnoted] at hone
  rcases hcases with ⟨p₁, e₁, hheard, hrest⟩ | ⟨rfl, hheard⟩
  · obtain ⟨hnext, hfirst, hapt⟩ := isReport_of_heard_next hheard
    rw [hheard, stray_of_not_report hfirst] at hone
    have hall := Balanced.run hone hapt hrest
    rw [stray_of_not_report hnext] at hall
    rw [stray_of_not_report hfirst]
    exact hall
  · rw [hheard] at hone
    rw [result_of_heard_ended hheard]
    exact hone
termination_by e.posts
decreasing_by exact posts_lt_of_heard_next hheard

/-! ## Requests -/

theorem Balanced.publishing {tried : List Attempt} {strays : Nat} (h : p.Balanced tried strays) (r : Reply) :
    (p.publishing r).1.Balanced tried strays := by
  simp only [Publisher.publishing]
  split
  next hempty =>
    have hchain : p.chain = [] := List.isEmpty_iff.1 hempty
    have hids : ({ p with chain := [.first] } : Publisher).eventIds = p.eventIds := by
      rw [eventIds, eventIds, hchain]
      rfl
    refine ⟨h.newEvents, h.replacements, h.failures, ?_, ?_⟩
    · rw [h.continuations, hchain]
      rfl
    · rw [hids]
      exact h.events
  next => exact h

/-- Whether the request is a report that is delivered while the chain has no
first event: one. -/
def strayOf (send : σ → Post → σ × Except TransportFault String) (s : σ) (p : Publisher) : Request → Nat
  | .report text => if p.firstId.isNone && (p.report send s text).2.2.isOk then 1 else 0
  | .opening | .publish _ | .links => 0

/-- How many reports are delivered while the chain has no first event, in a row
of requests. -/
def strayReports (send : σ → Post → σ × Except TransportFault String) : σ → Publisher → List Request → Nat
  | _, _, [] => 0
  | s, p, q :: rest =>
    let (s', p', _) := p.respond send s q
    p.strayOf send s q + strayReports send s' p' rest

theorem Balanced.respond {s s' : σ × List Attempt} {p' : Publisher} {q : Request} {strays : Nat}
    {answer : Request.Answer} (h : p.Balanced s.2 strays) (hrun : p.respond (noted send) s q = (s', p', answer)) :
    p'.Balanced s'.2 (strays + p.strayOf (noted send) s q) := by
  cases q with
  | opening =>
    simp only [Publisher.respond, openUp] at hrun
    split at hrun
    next id hid =>
      cases hrun
      exact h
    next hfirst =>
      cases hopen : p.run (noted send) s .opening
      rw [hopen] at hrun
      cases hrun
      exact h.run (fun _ => hfirst) hopen
  | publish reply =>
    cases hpublish : p.publish (noted send) s reply
    simp only [Publisher.respond, hpublish] at hrun
    cases hrun
    exact (h.publishing reply).run apt_publish hpublish
  | report text =>
    cases hreport : p.report (noted send) s text
    simp only [Publisher.respond, hreport] at hrun
    cases hrun
    have hall := h.run apt_report hreport
    rw [strayOf, hreport]
    exact hall
  | links =>
    cases hrun
    exact h

theorem Balanced.respondAll {requests : List Request} {s s' : σ × List Attempt} {p p' : Publisher} {strays : Nat}
    (h : p.Balanced s.2 strays) (hrun : p.respondAll (noted send) s requests = (s', p')) :
    p'.Balanced s'.2 (strays + p.strayReports (noted send) s requests) := by
  induction requests generalizing s p strays with
  | nil =>
    cases hrun
    exact h
  | cons q requests ih =>
    cases hone : p.respond (noted send) s q with
    | mk s₁ rest =>
      simp only [Publisher.respondAll, hone] at hrun
      have hall := ih (h.respond hone) hrun
      rw [Nat.add_assoc] at hall
      simp only [strayReports, hone]
      exact hall

/-- A record of what was accepted holds what was accepted of all attempts. -/
theorem respondAll_recorded {room : String} {sent : σ → List Sent} (logs : Logs room send sent) {s s' : σ}
    {tried : List Attempt} {p p' : Publisher} {requests : List Request}
    (h : p.respondAll (noted send) (s, []) requests = ((s', tried), p')) :
    sent s' = sent s ++ (Attempt.accepted tried).map fun x => entry room x.1 x.2 := by
  refine respondAll_preserves (I := fun t => sent t.1 = sent s ++ (Attempt.accepted t.2).map fun x => entry room x.1 x.2) ?_ ?_ h
  · rintro ⟨t, done⟩ ⟨t', done'⟩ post answer hkept hsend
    cases hpost : send t post with
    | mk t₁ result =>
      simp only [noted, hpost] at hsend
      cases hsend
      simp only at hkept ⊢
      cases answer with
      | error fault => simp [logs.refused hpost, hkept]
      | ok id => simp [logs.accepted hpost, hkept, Attempt.accepted, Except.toOption, entry]
  · simp [Attempt.accepted]

end Run

theorem length_eventIds (p : Publisher) : p.eventIds.length = p.chain.countP (·.eventId.isSome) :=
  List.length_filterMap_eq_countP ..

end Publisher

/-- **The books balance.** Whatever is asked of a publisher, in any order, for
any replies, and wherever sends fail: what it counts as new events and as
replacements is what the transport has accepted and what has failed; it counts
as replacements just the posts that had an event to replace, and as continued
all links of the chain but the last. Each new event that was accepted is one of
the chain, but for the reports that were delivered while the chain had no first
event. A transport that keeps a record has all that was accepted in it, and
nothing else. -/
theorem tally_balances {σ : Type} (send : σ → Post → σ × Except TransportFault String) (s : σ)
    (room agent : String) (c : Config.Publishing) (requests : List Request) :
    let p := Publisher.new room agent c
    let run := p.respondAll (Publisher.noted send) (s, []) requests
    let tried := run.1.2
    let tally := run.2.tally
    tally.newEvents + tally.replacements = tried.countP (·.isAccepted) + tally.failures ∧
      tally.failures = tried.countP (!·.isAccepted) ∧
      tally.replacements = tried.countP (·.1.target.isSome) ∧
      tally.continuations = run.2.chain.length - 1 ∧
      tried.countP (fun a => a.1.target.isNone && a.isAccepted) =
        run.2.chain.countP (·.eventId.isSome) + p.strayReports (Publisher.noted send) (s, []) requests ∧
      ∀ sent, Logs room send sent →
        sent run.1.1 = sent s ++ (Attempt.accepted tried).map fun x => Publisher.entry room x.1 x.2 := by
  intro p run tried tally
  have h : run.2.Balanced tried (0 + p.strayReports (Publisher.noted send) (s, []) requests) :=
    (Publisher.balanced_new room agent c).respondAll (s := (s, [])) rfl
  rw [Nat.zero_add] at h
  have hkinds : tried.length = tried.countP (·.isNew) + tried.countP (!·.isNew) := by
    simpa using tried.length_eq_countP_add_countP (·.isNew)
  have hresults : tried.length = tried.countP (·.isAccepted) + tried.countP (!·.isAccepted) := by
    simpa using tried.length_eq_countP_add_countP (·.isAccepted)
  refine ⟨?_, h.failures, ?_, h.continuations, ?_, fun sent logs => Publisher.respondAll_recorded logs rfl⟩
  · rw [h.newEvents, h.replacements, h.failures, ← hkinds, ← hresults]
  · rw [h.replacements]
    simp [Attempt.isNew]
  · rw [← Publisher.length_eventIds]
    exact h.events

end ReplyStream
