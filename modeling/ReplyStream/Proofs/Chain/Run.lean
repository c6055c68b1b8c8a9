/-
Errands that are carried out, and requests served one after the other. An
errand appends to the record of what was sent and changes a publisher only
in its chain and its tally (`Publisher.run_appends`). A publish keeps what
the chain carries, wherever a send fails, and shows the reply when none does
(`Publisher.Carries.run`); so do rows of requests (`Publisher.Carries.respondAll`).
-/
import Mathlib.Data.List.Chain
import ReplyStream.Chain.Office
import ReplyStream.Proofs.Chain.Carries

namespace ReplyStream

/-- Whether an errand is to tell of a fault. -/
def Errand.isReport : Errand → Bool
  | .report _ => true
  | .opening | .publish .. => false

/-- Whether a request is to tell of a fault. -/
def Request.isReport : Request → Bool
  | .report _ => true
  | .opening | .publish _ | .links => false

/-- The reply that is to be published. -/
def Request.reply? : Request → Option Reply
  | .publish reply => some reply
  | .opening | .report _ | .links => none

namespace Publisher

/-- Two publishers that differ at most in their chains and their tallies; the
later chain begins where the earlier one does. -/
structure Alike (p q : Publisher) : Prop where
  room : q.room = p.room
  agent : q.agent = p.agent
  ceiling : q.ceiling = p.ceiling
  thinking : q.thinking = p.thinking
  begins : ∀ id, p.firstId = some id → q.firstId = some id

theorem Alike.refl (p : Publisher) : p.Alike p := ⟨rfl, rfl, rfl, rfl, fun _ h => h⟩

theorem Alike.trans {p q q' : Publisher} (h : p.Alike q) (h' : q.Alike q') : p.Alike q' :=
  ⟨h'.room.trans h.room, h'.agent.trans h.agent, h'.ceiling.trans h.ceiling, h'.thinking.trans h.thinking,
    fun id hid => h'.begins id (h.begins id hid)⟩

theorem counted_eq (p : Publisher) (post : Post) : ∃ tally, p.counted post = { p with tally } := by
  unfold counted
  split
  · exact ⟨_, rfl⟩
  · exact ⟨_, rfl⟩

theorem Carries.retally {p : Publisher} {sent : List Sent} {r : Reply} {full : List (String × Part)}
    (h : p.Carries sent r full) (tally : Tally) : ({ p with tally } : Publisher).Carries sent r full where
  ids := h.ids
  grows := h.grows
  starts := h.starts
  cut := h.cut
  fits := h.fits
  long := h.long
  shows := by
    rw [pieces_of_agent (p := p) (q := { p with tally }) rfl]
    exact h.shows
  distinct := h.distinct
  known := h.known
  placed := h.placed
  uncut := h.uncut
  hidden := h.hidden

theorem firstId_withLast {p : Publisher} {l : Link} {links : List Link}
    (hl : ∀ id, p.last.eventId = some id → l.eventId = some id) {id : String} (h : p.firstId = some id) :
    (p.withLast (l :: links)).firstId = some id := by
  simp only [firstId, withLast, last] at h hl ⊢
  cases hchain : p.chain with
  | nil => rw [hchain] at h; cases h
  | cons l' rest =>
    rw [hchain] at h hl
    cases rest with
    | nil => exact hl id h
    | cons l'' rest => exact h

theorem filled_eventId {p : Publisher} (part : Part) (new : String) {id : String} (h : p.last.eventId = some id) :
    (p.filled part new).eventId = some id := by
  simp only [filled, Link.markSent, h]
  rfl

theorem firstId_opened (p : Publisher) (id : String) : (p.opened id).firstId = some id := by
  unfold opened
  split <;> rfl

/-- The errand opens no chain that is open. -/
def Apt (p : Publisher) (e : Errand) : Prop := e = .opening → p.firstId = none

theorem apt_publish {p : Publisher} {r : Reply} {parts : List Part} : p.Apt (.publish r parts) :=
  fun h => by cases h

theorem apt_report {p : Publisher} {text : String} : p.Apt (.report text) := fun h => by cases h

theorem alike_heard {p : Publisher} {e : Errand} (he : p.Apt e) (post : Post)
    (result : Except TransportFault String) : p.Alike ((p.counted post).heard e result).1 := by
  obtain ⟨tally, htally⟩ := counted_eq p post
  rw [htally]
  cases result with
  | error fault => exact ⟨rfl, rfl, rfl, rfl, fun _ h => h⟩
  | ok id =>
    cases e with
    | opening =>
      have hbegins : ∀ id', p.firstId ≠ some id' := by
        intro id' hid'
        rw [he rfl] at hid'
        cases hid'
      simp only [heard, opened]
      split
      · exact ⟨rfl, rfl, rfl, rfl, fun id' hid' => absurd hid' (hbegins id')⟩
      · exact ⟨rfl, rfl, rfl, rfl, fun id' hid' => absurd hid' (hbegins id')⟩
    | publish reply parts =>
      cases parts with
      | nil =>
        refine ⟨rfl, rfl, rfl, rfl, fun id' hid' => ?_⟩
        exact firstId_withLast (p := { p with tally }) (fun _ => filled_eventId _ id) hid'
      | cons part parts =>
        refine ⟨rfl, rfl, rfl, rfl, fun id' hid' => ?_⟩
        refine firstId_withLast (p := { p with tally }) (l := { p.filled part id with continued := true })
          (fun _ => filled_eventId (p := p) part id) hid'
    | report text => exact ⟨rfl, rfl, rfl, rfl, fun _ h => h⟩

section Run

variable {σ : Type} {room : String} {send : σ → Post → σ × Except TransportFault String} {sent : σ → List Sent}

/-- The first post of an errand, and what comes of it: more to send, or the end. -/
theorem run_cases {s s' : σ} {p p' : Publisher} {e : Errand} {result : Except TransportFault String}
    (h : p.run send s e = (s', p', result)) :
    ∃ s₁ answer, send s (p.post e) = (s₁, answer) ∧
      ((∃ p₁ e₁, (p.counted (p.post e)).heard e answer = (p₁, .next e₁) ∧
          p₁.run send s₁ e₁ = (s', p', result)) ∨
        (s₁ = s' ∧ (p.counted (p.post e)).heard e answer = (p', .ended result))) := by
  rw [run] at h
  refine ⟨_, _, rfl, ?_⟩
  simp only at h
  split at h
  next p₁ e₁ hheard => exact .inl ⟨p₁, e₁, hheard, h⟩
  next p₁ ended hheard =>
    cases h
    exact .inr ⟨rfl, hheard⟩

theorem entry_post_isReport (room id : String) (p : Publisher) (e : Errand) :
    (entry room (p.post e) id).isReport = e.isReport := by
  cases e with
  | opening => simp only [post, entry_isReport]; rfl
  | publish reply parts =>
    cases parts with
    | nil => simp only [post, entry_isReport]; rfl
    | cons part parts => simp only [post, entry_isReport]; rfl
  | report text => simp only [post, entry_isReport]; rfl

theorem isReport_of_heard_next {p q : Publisher} {e f : Errand} {result : Except TransportFault String}
    (h : p.heard e result = (q, .next f)) : f.isReport = false ∧ e.isReport = false ∧ q.Apt f := by
  unfold heard at h
  split at h
  · cases h
  · split at h <;> cases h
    exact ⟨rfl, rfl, apt_publish⟩

theorem isOk_of_heard_next {p q : Publisher} {e f : Errand} {result : Except TransportFault String}
    (h : p.heard e result = (q, .next f)) : result.isOk = true := by
  cases result with
  | ok id => rfl
  | error fault => cases h

theorem result_of_heard_ended {p q : Publisher} {e : Errand} {answer result : Except TransportFault String}
    (h : p.heard e answer = (q, .ended result)) : result = answer := by
  unfold heard at h
  split at h
  · cases h
    rfl
  · split at h <;> cases h <;> rfl

/-- What is sent of an errand: posts of publishers that differ at most in
their chains, and reports only of reports. -/
def Posted (room : String) (p : Publisher) (report : Bool) (x : Sent) : Prop :=
  ∃ (q : Publisher) (f : Errand) (id : String), p.Alike q ∧ f.isReport = report ∧ x = entry room (q.post f) id

theorem Posted.isReport_eq {p : Publisher} {report : Bool} {x : Sent} (h : Posted room p report x) :
    x.isReport = report := by
  obtain ⟨q, f, id, -, hreport, rfl⟩ := h
  rw [entry_post_isReport, hreport]

theorem Posted.of_alike {p q : Publisher} {report : Bool} {x : Sent} (hpq : p.Alike q)
    (h : Posted room q report x) : Posted room p report x := by
  obtain ⟨q', f, id, halike, hreport, hx⟩ := h
  exact ⟨q', f, id, hpq.trans halike, hreport, hx⟩

/-- An errand adds what was accepted of it to the record. -/
theorem run_appends (logs : Logs room send sent) {s s' : σ} {p p' : Publisher} {e : Errand}
    {result : Except TransportFault String} (he : p.Apt e) (h : p.run send s e = (s', p', result)) :
    p.Alike p' ∧ ∃ new, sent s' = sent s ++ new ∧ ∀ x ∈ new, Posted room p e.isReport x := by
  obtain ⟨s₁, answer, hsend, hcases⟩ := run_cases h
  have hone : ∃ new, sent s₁ = sent s ++ new ∧ ∀ x ∈ new, Posted room p e.isReport x := by
    cases answer with
    | error fault => exact ⟨[], by rw [logs.refused hsend, List.append_nil], by simp⟩
    | ok id =>
      refine ⟨[entry room (p.post e) id], logs.accepted hsend, ?_⟩
      intro x hx
      obtain rfl := List.mem_singleton.1 hx
      exact ⟨p, e, id, .refl p, rfl, rfl⟩
  have halike := alike_heard he (p.post e) answer
  rcases hcases with ⟨p₁, e₁, hheard, hrun⟩ | ⟨rfl, hheard⟩
  · obtain ⟨new, hnew, hposted⟩ := hone
    obtain ⟨hnext, hfirst, hapt⟩ := isReport_of_heard_next hheard
    obtain ⟨halike', new', hnew', hposted'⟩ := run_appends logs hapt hrun
    rw [hheard] at halike
    refine ⟨halike.trans halike', new ++ new', by rw [hnew', hnew, List.append_assoc], ?_⟩
    intro x hx
    rcases List.mem_append.1 hx with hx | hx
    · exact hposted x hx
    · rw [hfirst, ← hnext]
      exact (hposted' x hx).of_alike halike
  · rw [hheard] at halike
    exact ⟨halike, hone⟩
termination_by e.posts
decreasing_by exact posts_lt_of_heard_next hheard

/-- What every send keeps, an errand keeps. -/
theorem run_preserves {I : σ → Prop} (hsend : ∀ {s s' post answer}, I s → send s post = (s', answer) → I s')
    {s s' : σ} {p p' : Publisher} {e : Errand} {result : Except TransportFault String} (hs : I s)
    (h : p.run send s e = (s', p', result)) : I s' := by
  obtain ⟨s₁, answer, hpost, hcases⟩ := run_cases h
  have hs₁ := hsend hs hpost
  rcases hcases with ⟨p₁, e₁, hheard, hrun⟩ | ⟨rfl, -⟩
  · exact run_preserves hsend hs₁ hrun
  · exact hs₁
termination_by e.posts
decreasing_by exact posts_lt_of_heard_next hheard

/-- The first post of an errand is refused, and the errand is over, or it is
accepted and heard of. -/
theorem run_refused_or_accepted (logs : Logs room send sent) {s s' : σ} {p p' : Publisher} {e : Errand}
    {result : Except TransportFault String} (h : p.run send s e = (s', p', result)) :
    (∃ fault tally, result = .error fault ∧ sent s' = sent s ∧ p' = { p with tally }) ∨
      ∃ s₁ id tally, sent s₁ = sent s ++ [entry room (p.post e) id] ∧
        ((∃ p₁ e₁, ({ p with tally } : Publisher).heard e (.ok id) = (p₁, .next e₁) ∧
            p₁.run send s₁ e₁ = (s', p', result)) ∨
          (s₁ = s' ∧ ({ p with tally } : Publisher).heard e (.ok id) = (p', .ended result))) := by
  obtain ⟨tally, htally⟩ := counted_eq p (p.post e)
  obtain ⟨s₁, answer, hsend, hcases⟩ := run_cases h
  rw [htally] at hcases
  cases answer with
  | error fault =>
    rcases hcases with ⟨p₁, e₁, hheard, -⟩ | ⟨rfl, hheard⟩
    · cases hheard
    · cases hheard
      exact .inl ⟨fault, _, rfl, logs.refused hsend, rfl⟩
  | ok id => exact .inr ⟨s₁, id, tally, logs.accepted hsend, hcases⟩

/-- A publish keeps what the chain carries, wherever a send fails, and when
none does the events show the reply. -/
theorem Carries.run (logs : Logs room send sent) {r : Reply} {base ours ours' : List Sent} {parts : List Part}
    {s s' : σ} {p p' : Publisher} {result : Except TransportFault String} {full : List (String × Part)} {rest : Part}
    (h : p.run send s (.publish r parts) = (s', p', result)) (hours : sent s = base ++ ours)
    (hours' : sent s' = base ++ ours') (hdistinct : Sent.DistinctIds ours') (hcarries : p.Carries ours r full)
    (hr : r.text = Part.join (full.map (·.2)) ++ rest) (hcuts : Part.Cuts p.ceiling rest parts) :
    ∃ more, p'.Carries ours' r (full ++ more) ∧ ∀ id, result = .ok id → p'.Shows ours' r (full ++ more) := by
  induction parts generalizing s p ours full rest with
  | nil =>
    refine ⟨[], ?_⟩
    rw [List.append_nil]
    rcases run_refused_or_accepted logs h with ⟨fault, tally, rfl, hsent, rfl⟩ | ⟨s₁, id, tally, hsent, hcases⟩
    · rw [hours', hours] at hsent
      obtain rfl := List.append_cancel_left hsent
      exact ⟨hcarries.retally _, by simp⟩
    · rcases hcases with ⟨p₁, e₁, hheard, -⟩ | ⟨rfl, hheard⟩
      · cases hheard
      cases hheard
      rw [hours', hours, List.append_assoc] at hsent
      obtain rfl := List.append_cancel_left hsent
      have hfits : (p.last.remainder r).size ≤ p.ceiling := by
        rw [hcarries.remainder_eq hr]
        exact hcuts
      have hshows := (hcarries.retally tally).send_rest (s := entry room (p.post (.publish r [])) id) hfits rfl
        (by rw [post_rest hcarries.grows, entry_bare]; rfl) hdistinct
      exact ⟨hshows.toCarries, fun _ _ => hshows⟩
  | cons part parts ih =>
    rcases run_refused_or_accepted logs h with ⟨fault, tally, rfl, hsent, rfl⟩ | ⟨s₁, id, tally, hsent, hcases⟩
    · rw [hours', hours] at hsent
      obtain rfl := List.append_cancel_left hsent
      refine ⟨[], ?_⟩
      rw [List.append_nil]
      exact ⟨hcarries.retally _, by simp⟩
    · rcases hcases with ⟨p₁, e₁, hheard, hrun⟩ | ⟨-, hheard⟩
      · cases hheard
        rw [hours, List.append_assoc] at hsent
        obtain ⟨-, new, hnew, -⟩ := run_appends logs apt_publish hrun
        rw [hnew, hsent, List.append_assoc] at hours'
        obtain rfl := List.append_cancel_left hours'
        have hpart := (hcarries.retally tally).send_part (s := entry room (p.post (.publish r (part :: parts))) id)
          hr hcuts rfl (by rw [post_part, entry_bare]; rfl) hdistinct.of_append
        obtain ⟨hlong, hfits, behind, hbehind, hcuts'⟩ := hcuts
        have hr' : r.text = Part.join ((full ++ [((entry room (p.post (.publish r (part :: parts))) id).place,
            part)]).map (·.2)) ++ behind := by
          rw [List.map_append, List.map_cons, List.map_nil, Part.join_concat, Part.append_assoc, ← hbehind]
          exact hr
        obtain ⟨more, hmore⟩ := ih hrun hsent hpart hr' hcuts'
        rw [List.append_assoc full] at hmore
        exact ⟨_, hmore⟩
      · cases hheard

/-! ## Publishing, opening, reporting -/

/-- A chain without links carries the same when it gets its first. -/
theorem Carries.begun {p : Publisher} {sent : List Sent} {r : Reply} {full : List (String × Part)}
    (h : p.Carries sent r full) :
    (if p.chain.isEmpty then { p with chain := [.first] } else p : Publisher).Carries sent r full := by
  split
  next hempty =>
    have hchain : p.chain = [] := List.isEmpty_iff.1 hempty
    have hids := h.ids
    have hknown := h.known
    rw [hchain] at hids
    obtain rfl : full = [] := by
      cases full with
      | nil => rfl
      | cons c full => cases hids
    exact {
      ids := rfl
      grows := rfl
      starts := Link.at_first
      cut := h.cut
      fits := h.fits
      long := h.long
      shows := rfl
      distinct := List.nodup_nil
      known := by simp [eventIds, Link.first]
      placed := by
        intro s hs
        have hplace := h.placed s hs
        simp only [eventIds, hchain, List.filterMap_nil, List.not_mem_nil] at hplace
      uncut := h.uncut
      hidden := h.hidden }
  · exact h

/-- A publish keeps what the chain carries, and when it goes through the
events show the reply. -/
theorem Carries.publish (logs : Logs room send sent) {s s' : σ} {p p' : Publisher} {r : Reply}
    {result : Except TransportFault String} {base ours ours' : List Sent} {full : List (String × Part)}
    (h : p.Carries ours r full) (hrun : p.publish send s r = (s', p', result)) (hours : sent s = base ++ ours)
    (hours' : sent s' = base ++ ours') (hdistinct : Sent.DistinctIds ours') :
    ∃ more, p'.Carries ours' r (full ++ more) ∧ ∀ id, result = .ok id → p'.Shows ours' r (full ++ more) := by
  have hbegun := h.begun
  simp only [Publisher.publish, publishing] at hrun
  generalize (if p.chain.isEmpty then { p with chain := [.first] } else p : Publisher) = q at hrun hbegun
  obtain ⟨rest, hrest⟩ := hbegun.cut
  have hcuts : Part.Cuts q.ceiling rest (q.last.split r q.ceiling rest.length).1 :=
    Link.split_cuts hbegun.starts hrest (Nat.le_refl _)
  rw [hbegun.remainder_eq hrest] at hrun
  exact hbegun.run logs hrun hours hours' hdistinct hrest hcuts

theorem Carries.openUp (logs : Logs room send sent) {s s' : σ} {p p' : Publisher} {r : Reply}
    {result : Except TransportFault String} {base ours ours' : List Sent} {full : List (String × Part)}
    (h : p.Carries ours r full) (hrun : p.openUp send s = (s', p', result)) (hours : sent s = base ++ ours)
    (hours' : sent s' = base ++ ours') (hdistinct : Sent.DistinctIds ours') : p'.Carries ours' r full := by
  unfold Publisher.openUp at hrun
  split at hrun
  next id hid =>
    cases hrun
    obtain rfl : ours' = ours := List.append_cancel_left (hours'.symm.trans hours)
    exact h
  next hfirst =>
    obtain ⟨tally, htally⟩ := counted_eq p (p.post .opening)
    obtain ⟨s₁, answer, hsend, hcases⟩ := run_cases hrun
    rw [htally] at hcases
    cases answer with
    | error fault =>
      rcases hcases with ⟨p₁, e₁, hheard, -⟩ | ⟨rfl, hheard⟩
      · cases hheard
      · cases hheard
        rw [logs.refused hsend] at hours'
        obtain rfl : ours' = ours := List.append_cancel_left (hours'.symm.trans hours)
        exact h.retally _
    | ok id =>
      rcases hcases with ⟨p₁, e₁, hheard, -⟩ | ⟨rfl, hheard⟩
      · cases hheard
      · cases hheard
        have hsent := logs.accepted hsend
        rw [hours', hours, List.append_assoc] at hsent
        obtain rfl := List.append_cancel_left hsent
        exact (h.retally tally).send_opening (s := entry room (p.post .opening) id) hfirst rfl rfl rfl hdistinct

theorem Carries.report (logs : Logs room send sent) {s s' : σ} {p p' : Publisher} {r : Reply} {text : String}
    {result : Except TransportFault String} {base ours ours' : List Sent} {full : List (String × Part)}
    (h : p.Carries ours r full) (hrun : p.report send s text = (s', p', result)) (hours : sent s = base ++ ours)
    (hours' : sent s' = base ++ ours') : p'.Carries ours' r full := by
  obtain ⟨tally, htally⟩ := counted_eq p (p.post (.report text))
  obtain ⟨s₁, answer, hsend, hcases⟩ := run_cases hrun
  rw [htally] at hcases
  cases answer with
  | error fault =>
    rcases hcases with ⟨p₁, e₁, hheard, -⟩ | ⟨rfl, hheard⟩
    · cases hheard
    · cases hheard
      rw [logs.refused hsend] at hours'
      obtain rfl : ours' = ours := List.append_cancel_left (hours'.symm.trans hours)
      exact h.retally _
  | ok id =>
    rcases hcases with ⟨p₁, e₁, hheard, -⟩ | ⟨rfl, hheard⟩
    · cases hheard
    · cases hheard
      have hsent := logs.accepted hsend
      rw [hours', hours, List.append_assoc] at hsent
      obtain rfl := List.append_cancel_left hsent
      have hreport : (entry room (p.post (.report text)) id).isReport = true :=
        entry_post_isReport room id p (.report text)
      exact (h.retally tally).send_report hreport (entry_isContinued ..)

end Run

/-! ## Requests -/

section Requests

variable {σ : Type}

/-- Serves a request, with the given way to send a post. -/
def respond (send : σ → Post → σ × Except TransportFault String) (s : σ) (p : Publisher) :
    Request → σ × Publisher × Request.Answer
  | .opening =>
    let (s, p, result) := p.openUp send s
    (s, p, .opened result)
  | .publish reply =>
    let (s, p, result) := p.publish send s reply
    (s, p, .published (result.map fun _ => ()))
  | .report text =>
    let (s, p, _) := p.report send s text
    (s, p, .reported)
  | .links => (s, p, .links p.chain)

/-- Serves one request after the other. -/
def respondAll (send : σ → Post → σ × Except TransportFault String) :
    σ → Publisher → List Request → σ × Publisher
  | s, p, [] => (s, p)
  | s, p, q :: rest =>
    let (s, p, _) := p.respond send s q
    respondAll send s p rest

variable {room : String} {send : σ → Post → σ × Except TransportFault String} {sent : σ → List Sent}

theorem alike_publishing (p : Publisher) (r : Reply) : p.Alike (p.publishing r).1 := by
  simp only [publishing]
  split
  next hempty => exact ⟨rfl, rfl, rfl, rfl, by simp [firstId, List.isEmpty_iff.1 hempty]⟩
  next => exact .refl p

theorem publish_appends (logs : Logs room send sent) {s s' : σ} {p p' : Publisher} {r : Reply}
    {result : Except TransportFault String} (h : p.publish send s r = (s', p', result)) :
    p.Alike p' ∧ ∃ new, sent s' = sent s ++ new ∧ ∀ x ∈ new, Posted room p false x := by
  obtain ⟨halike, new, hnew, hposted⟩ := run_appends logs apt_publish h
  have hbegun := alike_publishing p r
  exact ⟨hbegun.trans halike, new, hnew, fun x hx => (hposted x hx).of_alike hbegun⟩

/-- Serving a request is nothing to do, or an errand: of a publisher that has
begun its chain if a reply is published. -/
theorem respond_cases {s s' : σ} {p p' : Publisher} {q : Request} {answer : Request.Answer}
    (h : p.respond send s q = (s', p', answer)) :
    (s' = s ∧ p' = p) ∨
      ∃ p₁ e result, p₁.run send s e = (s', p', result) ∧ p₁.Apt e ∧ e.isReport = q.isReport ∧
        (p₁ = p ∨ ∃ r, p₁ = (p.publishing r).1) := by
  cases q with
  | opening =>
    simp only [respond, openUp] at h
    split at h
    next id hid =>
      cases h
      exact .inl ⟨rfl, rfl⟩
    next hfirst =>
      cases hrun : p.run send s .opening
      rw [hrun] at h
      cases h
      exact .inr ⟨p, .opening, _, hrun, fun _ => hfirst, rfl, .inl rfl⟩
  | publish reply =>
    cases hrun : p.publish send s reply
    simp only [respond, hrun] at h
    cases h
    exact .inr ⟨(p.publishing reply).1, (p.publishing reply).2, _, hrun, apt_publish, rfl, .inr ⟨reply, rfl⟩⟩
  | report text =>
    cases hrun : p.report send s text
    simp only [respond, hrun] at h
    cases h
    exact .inr ⟨p, .report text, _, hrun, apt_report, rfl, .inl rfl⟩
  | links =>
    cases h
    exact .inl ⟨rfl, rfl⟩

theorem respond_appends (logs : Logs room send sent) {s s' : σ} {p p' : Publisher} {q : Request}
    {answer : Request.Answer} (h : p.respond send s q = (s', p', answer)) :
    p.Alike p' ∧ ∃ new, sent s' = sent s ++ new ∧ ∀ x ∈ new, Posted room p q.isReport x := by
  rcases respond_cases h with ⟨rfl, rfl⟩ | ⟨p₁, e, result, hrun, hapt, hreport, hbegun⟩
  · exact ⟨.refl _, [], (List.append_nil _).symm, by simp⟩
  · have halike₁ : p.Alike p₁ := by
      rcases hbegun with rfl | ⟨r, rfl⟩
      · exact .refl _
      · exact alike_publishing p r
    obtain ⟨halike, new, hnew, hposted⟩ := run_appends logs hapt hrun
    rw [hreport] at hposted
    exact ⟨halike₁.trans halike, new, hnew, fun x hx => (hposted x hx).of_alike halike₁⟩

theorem respondAll_appends (logs : Logs room send sent) {requests : List Request} {s s' : σ} {p p' : Publisher}
    (h : p.respondAll send s requests = (s', p')) :
    p.Alike p' ∧ ∃ new, sent s' = sent s ++ new ∧ ∀ x ∈ new, ∃ q ∈ requests, Posted room p q.isReport x := by
  induction requests generalizing s p with
  | nil =>
    cases h
    exact ⟨.refl _, [], (List.append_nil _).symm, by simp⟩
  | cons q requests ih =>
    cases hone : p.respond send s q with
    | mk s₁ rest =>
      simp only [respondAll, hone] at h
      obtain ⟨halike, new, hnew, hposted⟩ := respond_appends logs hone
      obtain ⟨halike', new', hnew', hposted'⟩ := ih h
      refine ⟨halike.trans halike', new ++ new', by rw [hnew', hnew, List.append_assoc], ?_⟩
      intro x hx
      rcases List.mem_append.1 hx with hx | hx
      · exact ⟨q, List.mem_cons_self, hposted x hx⟩
      · obtain ⟨q', hq', hx'⟩ := hposted' x hx
        exact ⟨q', List.mem_cons_of_mem q hq', hx'.of_alike halike⟩

theorem respond_preserves {I : σ → Prop} (hsend : ∀ {s s' post answer}, I s → send s post = (s', answer) → I s')
    {s s' : σ} {p p' : Publisher} {q : Request} {answer : Request.Answer} (hs : I s)
    (h : p.respond send s q = (s', p', answer)) : I s' := by
  rcases respond_cases h with ⟨rfl, -⟩ | ⟨p₁, e, result, hrun, -⟩
  · exact hs
  · exact run_preserves hsend hs hrun

theorem respondAll_preserves {I : σ → Prop}
    (hsend : ∀ {s s' post answer}, I s → send s post = (s', answer) → I s') {requests : List Request} {s s' : σ}
    {p p' : Publisher} (hs : I s) (h : p.respondAll send s requests = (s', p')) : I s' := by
  induction requests generalizing s p with
  | nil =>
    cases h
    exact hs
  | cons q requests ih =>
    cases hone : p.respond send s q with
    | mk s₁ rest =>
      simp only [respondAll, hone] at h
      exact ih (respond_preserves hsend hs hone) h

/-- A request keeps what the chain carries; a publish makes it that of its reply. -/
theorem Carries.respond (logs : Logs room send sent) {s s' : σ} {p p' : Publisher} {r : Reply} {q : Request}
    {answer : Request.Answer} {base ours ours' : List Sent} {full : List (String × Part)}
    (h : p.Carries ours r full) (hrun : p.respond send s q = (s', p', answer)) (hours : sent s = base ++ ours)
    (hours' : sent s' = base ++ ours') (hdistinct : Sent.DistinctIds ours')
    (hfollows : ∀ r' ∈ q.reply?, r.Follows p.ceiling r') :
    ∃ more, p'.Carries ours' (q.reply?.getD r) (full ++ more) := by
  cases q with
  | opening =>
    cases hopen : p.openUp send s
    simp only [Publisher.respond, hopen] at hrun
    cases hrun
    exact ⟨[], by rw [List.append_nil]; exact h.openUp logs hopen hours hours' hdistinct⟩
  | publish reply =>
    cases hpublish : p.publish send s reply
    simp only [Publisher.respond, hpublish] at hrun
    cases hrun
    obtain ⟨more, hmore, -⟩ := (h.follows (hfollows reply rfl)).publish logs hpublish hours hours' hdistinct
    exact ⟨more, hmore⟩
  | report text =>
    cases hreport : p.report send s text
    simp only [Publisher.respond, hreport] at hrun
    cases hrun
    exact ⟨[], by rw [List.append_nil]; exact h.report logs hreport hours hours'⟩
  | links =>
    cases hrun
    obtain rfl : ours' = ours := List.append_cancel_left (hours'.symm.trans hours)
    exact ⟨[], by rw [List.append_nil]; exact h⟩

/-- A row of requests keeps what the chain carries, for every reply that
follows those that were published. -/
theorem Carries.respondAll (logs : Logs room send sent) {requests : List Request} {s s' : σ}
    {p p' : Publisher} {r r' : Reply} {base ours ours' : List Sent} {full : List (String × Part)}
    (h : p.Carries ours r full) (hrun : p.respondAll send s requests = (s', p')) (hours : sent s = base ++ ours)
    (hours' : sent s' = base ++ ours') (hdistinct : Sent.DistinctIds ours')
    (hfollows : List.IsChain (Reply.Follows p.ceiling) (r :: (requests.filterMap (·.reply?) ++ [r']))) :
    ∃ more, p'.Carries ours' r' (full ++ more) := by
  induction requests generalizing s p r ours full with
  | nil =>
    cases hrun
    obtain rfl : ours' = ours := List.append_cancel_left (hours'.symm.trans hours)
    exact ⟨[], by rw [List.append_nil]; exact h.follows (by simpa using hfollows)⟩
  | cons q requests ih =>
    cases hone : p.respond send s q with
    | mk s₁ rest =>
      obtain ⟨p₁, answer⟩ := rest
      simp only [Publisher.respondAll, hone] at hrun
      obtain ⟨halike, new, hnew, -⟩ := respond_appends logs hone
      obtain ⟨-, new', hnew', -⟩ := respondAll_appends logs hrun
      have hours₁ : sent s₁ = base ++ (ours ++ new) := by rw [hnew, hours, List.append_assoc]
      obtain rfl : ours' = ours ++ new ++ new' := by
        rw [hnew', hours₁, List.append_assoc] at hours'
        exact (List.append_cancel_left hours').symm
      have hchain : List.IsChain (Reply.Follows p₁.ceiling)
          (q.reply?.getD r :: (requests.filterMap (·.reply?) ++ [r'])) ∧
          ∀ r'' ∈ q.reply?, r.Follows p.ceiling r'' := by
        rw [halike.ceiling]
        cases hq : q.reply? with
        | none =>
          rw [List.filterMap_cons_none hq] at hfollows
          exact ⟨hfollows, by simp⟩
        | some reply =>
          rw [List.filterMap_cons_some hq, List.cons_append, List.isChain_cons_cons] at hfollows
          exact ⟨hfollows.2, fun r'' hr'' => by cases hr''; exact hfollows.1⟩
      obtain ⟨more, hmore⟩ := h.respond logs hone hours hours₁ hdistinct.of_append hchain.2
      obtain ⟨more', hmore'⟩ := ih hmore hrun hours₁ hchain.1
      exact ⟨more ++ more', by rw [← List.append_assoc]; exact hmore'⟩

end Requests

end Publisher

end ReplyStream
