/-
Failed sends and trying again. A publish sends one post after the other and
stops at the first that fails; the chain then stands behind the posts that
were accepted, and what is left of the publish is the publish of that chain
(`Publisher.Due.send_part`). So publishing again until it goes through sends,
over all attempts, what one publish sends when nothing fails, and leaves the
same chain (`publish_resumes`).

Nothing is asked of the reply or of the chain: the reply may be any, and the
chain may have been left by any requests.
-/
import ReplyStream.Proofs.Chain.Represent
import ReplyStream.Proofs.Chain.Split

namespace ReplyStream

/-! ## Attempts -/

/-- A post, and what came of it. -/
abbrev Attempt := Post × Except TransportFault String

namespace Attempt

/-- A post that was accepted as an event. -/
def ok (x : Post × String) : Attempt := (x.1, .ok x.2)

/-- What was accepted, each with the event it became. -/
def accepted (log : List Attempt) : List (Post × String) :=
  log.filterMap fun a => a.2.toOption.map fun id => (a.1, id)

@[simp] theorem accepted_append (l m : List Attempt) : accepted (l ++ m) = accepted l ++ accepted m :=
  List.filterMap_append

@[simp] theorem accepted_ok (xs : List (Post × String)) : accepted (xs.map ok) = xs := by
  induction xs with
  | nil => rfl
  | cons x xs ih =>
    simp only [List.map_cons, accepted, ok] at ih ⊢
    rw [List.filterMap_cons_some (by rfl)]
    simpa using ih

@[simp] theorem accepted_error (post : Post) (fault : TransportFault) : accepted [(post, .error fault)] = [] := rfl

end Attempt

open Attempt

variable {σ : Type}

/-- The same way to send with every attempt on record, where the `n`-th post
to be accepted becomes the event `ids n`. -/
def numbered (ids : Nat → String) (send : σ → Post → σ × Except TransportFault String)
    (s : σ × List Attempt) (post : Post) : (σ × List Attempt) × Except TransportFault String :=
  match send s.1 post with
  | (s', .ok _) =>
    let id := ids (accepted s.2).length
    ((s', s.2 ++ [(post, .ok id)]), .ok id)
  | (s', .error fault) => ((s', s.2 ++ [(post, .error fault)]), .error fault)

/-- A way to send by which nothing fails. -/
def sure (s : Unit) (_ : Post) : Unit × Except TransportFault String := (s, .ok "")

theorem numbered_cases {ids : Nat → String} {send : σ → Post → σ × Except TransportFault String} {s s' : σ}
    {log log' : List Attempt} {post : Post} {result : Except TransportFault String}
    (h : numbered ids send (s, log) post = ((s', log'), result)) :
    (result = .ok (ids (accepted log).length) ∧ log' = log ++ [(post, .ok (ids (accepted log).length))]) ∨
      ∃ fault, result = .error fault ∧ log' = log ++ [(post, .error fault)] := by
  simp only [numbered] at h
  split at h
  · cases h
    exact .inl ⟨rfl, rfl⟩
  next fault _ =>
    cases h
    exact .inr ⟨fault, rfl, rfl⟩

/-- The links behind a link that has sent these posts, each as one of the events. -/
def Link.fill : Link → List (Post × String) → List Link
  | l, [] => [l]
  | l, (post, id) :: rest =>
    let part := post.message.text
    let full := l.markSent (Text.byteLength part.reasoning) (Text.byteLength part.answer)
    { full with eventId := some (full.eventId.getD id), continued := true } :: (l.advance part).fill rest

namespace Publisher

variable {ids : Nat → String} {send : σ → Post → σ × Except TransportFault String} {p : Publisher} {r : Reply}

/-! ## What is due -/

/-- A publish of `r` has these parts still to send, and then the rest. -/
structure Due (p : Publisher) (r : Reply) (parts : List Part) : Prop where
  begun : p.chain ≠ []
  parts_eq : p.last.parts r p.ceiling = parts

/-- A publish begins with what is due, whatever became of the chain before. -/
theorem publishing_due (p : Publisher) (r : Reply) :
    (p.publishing r).2 = .publish r (p.last.parts r p.ceiling) ∧
      (p.publishing r).1.Due r (p.last.parts r p.ceiling) ∧ (p.publishing r).1.last = p.last ∧
      (p.publishing r).1.chain.dropLast = p.chain.dropLast ∧ (p.chain ≠ [] → (p.publishing r).1 = p) := by
  by_cases hempty : p.chain = []
  · have hlast : p.last = .first := by simp [last, hempty]
    have hbegun : (p.publishing r).1 = { p with chain := [.first] } := by simp [publishing, hempty]
    rw [hbegun, hlast]
    refine ⟨?_, ⟨by simp, rfl⟩, rfl, by simp [hempty], fun hne => absurd hempty hne⟩
    simp [publishing, hempty, last, Link.parts, Part.length]
  · have hsame : (p.publishing r).1 = p := by simp [publishing, hempty]
    rw [hsame]
    exact ⟨by simp [publishing, hempty, Link.parts, Part.length], ⟨hempty, rfl⟩, rfl, rfl, fun _ => rfl⟩

theorem Due.retally {parts : List Part} (h : p.Due r parts) (tally : Tally) :
    ({ p with tally } : Publisher).Due r parts := ⟨h.begun, h.parts_eq⟩

theorem Due.send_part {part : Part} {parts : List Part} (h : p.Due r (part :: parts)) (id : String) :
    (p.heard (.publish r (part :: parts)) (.ok id)).1.Due r parts where
  begun := by simp [heard, withLast]
  parts_eq := by
    rw [(heard_part p r part parts id).2]
    exact Link.parts_advance h.parts_eq

/-! ## A publish in which nothing fails -/

/-- The posts that are due with the events they become, the first of them
`ids n`, and the publisher behind them. -/
def deliver (ids : Nat → String) (r : Reply) : Nat → Publisher → List Part → List (Post × String) × Publisher
  | n, p, [] => ([(p.post (.publish r []), ids n)], (p.heard (.publish r []) (.ok (ids n))).1)
  | n, p, part :: parts =>
    let (sends, last) := deliver ids r (n + 1) (p.heard (.publish r (part :: parts)) (.ok (ids n))).1 parts
    ((p.post (.publish r (part :: parts)), ids n) :: sends, last)

theorem deliver_retally (ids : Nat → String) (r : Reply) (n : Nat) (parts : List Part) (tally : Tally) :
    (deliver ids r n { p with tally } parts).1 = (deliver ids r n p parts).1 ∧
      (deliver ids r n { p with tally } parts).2.chain = (deliver ids r n p parts).2.chain := by
  induction parts generalizing n p tally with
  | nil => exact ⟨rfl, rfl⟩
  | cons part parts ih =>
    simp only [deliver]
    obtain ⟨hsends, hchain⟩ := ih (n := n + 1) (p := (p.heard (.publish r (part :: parts)) (.ok (ids n))).1)
      { tally with continuations := tally.continuations + 1 }
    exact ⟨congrArg _ hsends, hchain⟩

/-- All that a publish of `r` sends when nothing fails. -/
def delivery (ids : Nat → String) (r : Reply) (n : Nat) (p : Publisher) : List (Post × String) × Publisher :=
  deliver ids r n (p.publishing r).1 (p.last.parts r p.ceiling)

theorem Due.delivery_eq {parts : List Part} (h : p.Due r parts) (n : Nat) :
    p.delivery ids r n = p.deliver ids r n parts := by
  rw [delivery, (publishing_due p r).2.2.2.2 h.begun, h.parts_eq]

/-! ## One attempt -/

/-- The first post of an errand fails, or it is accepted and heard of. -/
theorem run_numbered_cases {s s' : σ} {log log' : List Attempt} {p' : Publisher} {e : Errand}
    {result : Except TransportFault String}
    (hrun : p.run (numbered ids send) (s, log) e = ((s', log'), p', result)) :
    (∃ fault tally, result = .error fault ∧ log' = log ++ [(p.post e, .error fault)] ∧ p' = { p with tally }) ∨
    ∃ s₁ log₁ id tally, id = ids (accepted log).length ∧ log₁ = log ++ [(p.post e, .ok id)] ∧
      ((∃ p₁ e₁, ({ p with tally } : Publisher).heard e (.ok id) = (p₁, .next e₁) ∧
          p₁.run (numbered ids send) (s₁, log₁) e₁ = ((s', log'), p', result)) ∨
        (log' = log₁ ∧ ({ p with tally } : Publisher).heard e (.ok id) = (p', .ended result))) := by
  obtain ⟨tally, htally⟩ := counted_eq p (p.post e)
  obtain ⟨⟨s₁, log₁⟩, answer, hsend, hcases⟩ := run_cases hrun
  rw [htally] at hcases
  rcases numbered_cases hsend with ⟨rfl, rfl⟩ | ⟨fault, rfl, rfl⟩
  · refine .inr ⟨s₁, _, _, tally, rfl, rfl, hcases.imp_right ?_⟩
    rintro ⟨hs, hheard⟩
    cases hs
    exact ⟨rfl, hheard⟩
  · rcases hcases with ⟨_, _, hheard, -⟩ | ⟨hs, hheard⟩
    · cases hheard
    · cases hheard
      cases hs
      exact .inl ⟨fault, _, rfl, rfl, rfl⟩

@[simp] theorem text_post_part (p : Publisher) (r : Reply) (part : Part) (parts : List Part) :
    (p.post (.publish r (part :: parts))).message.text = part := by
  have : (p.post (.publish r (part :: parts))).message.text = (p.piece p.previousId part).text := rfl
  rw [this, text_piece]

/-- The chain behind a part and the posts behind it. -/
theorem fill_part (p : Publisher) (r : Reply) (part : Part) (parts : List Part) (id : String)
    (done : List (Post × String)) :
    (p.heard (.publish r (part :: parts)) (.ok id)).1.chain.dropLast ++
        (p.heard (.publish r (part :: parts)) (.ok id)).1.last.fill done =
      p.chain.dropLast ++ p.last.fill ((p.post (.publish r (part :: parts)), id) :: done) := by
  obtain ⟨hinit, hlast⟩ := heard_part p r part parts id
  rw [hinit, hlast, List.append_assoc]
  simp only [Link.fill, text_post_part]
  rfl

theorem heard_part_retally (p : Publisher) (r : Reply) (part : Part) (parts : List Part) (id : String)
    (tally : Tally) : ∃ tally', ({ p with tally } : Publisher).heard (.publish r (part :: parts)) (.ok id) =
      ({ (p.heard (.publish r (part :: parts)) (.ok id)).1 with tally := tally' }, .next (.publish r parts)) :=
  ⟨_, rfl⟩

/-- Of what was to be sent, `sends`, which leaves the chain `last`, one post
failed, and the publish ended with its fault. Those before it were accepted and
are in the chain; what a publish sends now is what was left. -/
def BreaksOff (ids : Nat → String) (r : Reply) (log : List Attempt) (p : Publisher)
    (sends : List (Post × String)) (last : List Link) (log' : List Attempt) (p' : Publisher)
    (result : Except TransportFault String) : Prop :=
  ∃ done post id todo fault, sends = done ++ (post, id) :: todo ∧ result = .error fault ∧
    log' = log ++ done.map ok ++ [(post, .error fault)] ∧ p'.chain = p.chain.dropLast ++ p.last.fill done ∧
    (p'.delivery ids r (accepted log').length).1 = (post, id) :: todo ∧
    (p'.delivery ids r (accepted log').length).2.chain = last

theorem deliver_eq_cons (ids : Nat → String) (r : Reply) (n : Nat) (p : Publisher) (parts : List Part) :
    ∃ todo, (p.deliver ids r n parts).1 = (p.post (.publish r parts), ids n) :: todo := by
  cases parts with
  | nil => exact ⟨[], rfl⟩
  | cons part parts => exact ⟨_, rfl⟩

theorem breaksOff_of_refused {n : Nat} {parts : List Part} {log : List Attempt} (hn : (accepted log).length = n)
    (h : p.Due r parts) (tally : Tally) (fault : TransportFault) :
    BreaksOff ids r log p (p.deliver ids r n parts).1 (p.deliver ids r n parts).2.chain
      (log ++ [(p.post (.publish r parts), .error fault)]) { p with tally } (.error fault) := by
  obtain ⟨todo, htodo⟩ := deliver_eq_cons ids r n p parts
  obtain ⟨hsends, hchain⟩ := deliver_retally (p := p) ids r n parts tally
  have hlen : (accepted (log ++ [(p.post (.publish r parts), .error fault)])).length = n := by
    rw [accepted_append, accepted_error, List.append_nil, hn]
  refine ⟨[], _, _, todo, fault, htodo, rfl, by simp, chain_eq h.begun, ?_, ?_⟩
  · rw [hlen, (h.retally tally).delivery_eq, hsends, htodo]
  · rw [hlen, (h.retally tally).delivery_eq, hchain]

/-- A publish of what is due delivers it all, or breaks off. -/
theorem run_numbered {n : Nat} {parts : List Part} {s s' : σ} {log log' : List Attempt} {p' : Publisher}
    {result : Except TransportFault String} (hn : (accepted log).length = n) (h : p.Due r parts)
    (hrun : p.run (numbered ids send) (s, log) (.publish r parts) = ((s', log'), p', result)) :
    (∃ id, result = .ok id ∧ log' = log ++ (p.deliver ids r n parts).1.map ok ∧
      p'.chain = (p.deliver ids r n parts).2.chain) ∨
    BreaksOff ids r log p (p.deliver ids r n parts).1 (p.deliver ids r n parts).2.chain log' p' result := by
  induction parts generalizing n p s log with
  | nil =>
    rcases run_numbered_cases hrun with ⟨fault, tally, rfl, rfl, rfl⟩ | ⟨s₁, log₁, id, tally, rfl, rfl, hcases⟩
    · exact .inr (breaksOff_of_refused hn h tally fault)
    · rcases hcases with ⟨_, _, hheard, -⟩ | ⟨rfl, hheard⟩
      · cases hheard
      · cases hheard
        rw [hn]
        exact .inl ⟨_, rfl, rfl, rfl⟩
  | cons part parts ih =>
    rcases run_numbered_cases hrun with ⟨fault, tally, rfl, rfl, rfl⟩ | ⟨s₁, log₁, id, tally, rfl, rfl, hcases⟩
    · exact .inr (breaksOff_of_refused hn h tally fault)
    · obtain ⟨tally', hpart⟩ := heard_part_retally p r part parts (ids n) tally
      rw [hn, hpart] at hcases
      rcases hcases with ⟨q, e₁, hheard, hrest⟩ | ⟨-, hheard⟩
      · cases hheard
        have hn' : (accepted (log ++ [(p.post (.publish r (part :: parts)), .ok (ids n))])).length = n + 1 := by
          rw [accepted_append, List.length_append, hn]
          rfl
        obtain ⟨hsends, hchain⟩ := deliver_retally ids r (n + 1) parts tally'
          (p := (p.heard (.publish r (part :: parts)) (.ok (ids n))).1)
        have hih := ih hn' ((h.send_part (ids n)).retally tally') hrest
        rw [hsends, hchain] at hih
        rcases hih with ⟨id, hok, hlog, hlast⟩ | ⟨done, post, id, todo, fault, hsplit, herror, hlog, hp', hdue⟩
        · refine .inl ⟨id, hok, ?_, hlast⟩
          rw [hlog, List.append_assoc]
          rfl
        · refine .inr ⟨_ :: done, post, id, todo, fault, congrArg _ hsplit, herror, ?_, ?_, hdue⟩
          · rw [hlog, List.map_cons, List.append_assoc log, List.singleton_append]
            rfl
          · exact hp'.trans (fill_part p r part parts (ids n) done)
      · cases hheard

theorem publish_numbered {s s' : σ} {log log' : List Attempt} {p' : Publisher} {result : Except TransportFault String}
    (hrun : p.publish (numbered ids send) (s, log) r = ((s', log'), p', result)) :
    (∃ id, result = .ok id ∧ log' = log ++ (p.delivery ids r (accepted log).length).1.map ok ∧
      p'.chain = (p.delivery ids r (accepted log).length).2.chain) ∨
    BreaksOff ids r log p (p.delivery ids r (accepted log).length).1 (p.delivery ids r (accepted log).length).2.chain
      log' p' result := by
  obtain ⟨hparts, hdue, hlast, hinit, -⟩ := publishing_due p r
  simp only [publish] at hrun
  rw [hparts] at hrun
  refine (run_numbered rfl hdue hrun).imp_right ?_
  rintro ⟨done, post, id, todo, fault, hsplit, herror, hlog, hp', hrest⟩
  rw [hlast, hinit] at hp'
  exact ⟨done, post, id, todo, fault, hsplit, herror, hlog, hp', hrest⟩

theorem run_sure {s s' : Unit × List Attempt} {p p' : Publisher} {e : Errand} {result : Except TransportFault String}
    (hrun : p.run (numbered ids sure) s e = (s', p', result)) : ∃ id, result = .ok id := by
  obtain ⟨s₁, answer, hsend, hcases⟩ := run_cases hrun
  obtain ⟨id, rfl⟩ : ∃ id, answer = .ok id := by
    simp only [numbered, sure] at hsend
    cases hsend
    exact ⟨_, rfl⟩
  rcases hcases with ⟨p₁, e₁, hheard, hrest⟩ | ⟨-, hheard⟩
  · exact run_sure hrest
  · refine ⟨id, ?_⟩
    simp only [heard] at hheard
    split at hheard <;> cases hheard <;> rfl
termination_by e.posts
decreasing_by exact posts_lt_of_heard_next hheard

/-! ## Again and again -/

/-- Publishes a reply, and again until it goes through, but no more than so
many times again. -/
def persist (send : σ → Post → σ × Except TransportFault String) :
    Nat → σ → Publisher → Reply → σ × Publisher × Except TransportFault String
  | 0, s, p, r => p.publish send s r
  | limit + 1, s, p, r =>
    match p.publish send s r with
    | (s, p, .error _) => persist send limit s p r
    | done => done

/-- What has been accepted is the front of what was to be, all of it when the
attempts ended well. -/
def Delivers (sends before after : List (Post × String)) (last chain : List Link)
    (result : Except TransportFault String) : Prop :=
  after <+: before ++ sends ∧ ∀ id, result = .ok id → after = before ++ sends ∧ chain = last

theorem publish_delivers {s s' : σ} {log log' : List Attempt} {p' : Publisher} {result : Except TransportFault String}
    (hrun : p.publish (numbered ids send) (s, log) r = ((s', log'), p', result)) :
    Delivers (p.delivery ids r (accepted log).length).1 (accepted log) (accepted log')
      (p.delivery ids r (accepted log).length).2.chain p'.chain result := by
  rcases publish_numbered hrun with ⟨id, -, hlog, hchain⟩ | ⟨done, post, id, todo, fault, hsends, rfl, hlog, -⟩
  · rw [hlog, accepted_append, accepted_ok]
    exact ⟨List.prefix_rfl, fun _ _ => ⟨rfl, hchain⟩⟩
  · rw [hlog, accepted_append, accepted_append, accepted_ok, accepted_error, List.append_nil, hsends]
    refine ⟨?_, fun id hid => by cases hid⟩
    exact (List.prefix_append_right_inj _).2 (List.prefix_append _ _)

/-- Attempts in a row deliver what is due, each from where the one before broke off. -/
theorem persist_delivers {limit : Nat} {s s' : σ} {log log' : List Attempt} {p' : Publisher}
    {result : Except TransportFault String}
    (hrun : persist (numbered ids send) limit (s, log) p r = ((s', log'), p', result)) :
    Delivers (p.delivery ids r (accepted log).length).1 (accepted log) (accepted log')
      (p.delivery ids r (accepted log).length).2.chain p'.chain result := by
  induction limit generalizing p s log with
  | zero => exact publish_delivers hrun
  | succ limit ih =>
    obtain ⟨⟨s₁, log₁⟩, p₁, result₁, hpublish⟩ : ∃ s₁ p₁ result₁,
        p.publish (numbered ids send) (s, log) r = (s₁, p₁, result₁) := ⟨_, _, _, rfl⟩
    simp only [persist, hpublish] at hrun
    cases result₁ with
    | ok id =>
      cases hrun
      exact publish_delivers hpublish
    | error fault =>
      have hih := ih hrun
      rcases publish_numbered hpublish with ⟨id, hok, -⟩ | ⟨done, post, id, todo, _, hsends, -, hlog, -, hrest, hlast⟩
      · cases hok
      · have hjoin : accepted log₁ ++ (post, id) :: todo =
            accepted log ++ (p.delivery ids r (accepted log).length).1 := by
          rw [hsends, hlog, accepted_append, accepted_append, accepted_ok, accepted_error, List.append_nil,
            List.append_assoc]
        rw [hrest, hlast, Delivers, hjoin] at hih
        exact hih

end Publisher

/-- **Failures are transparent to trying again.** Let `sends` be what a
publish sends when nothing fails, and `chain` the chain behind it. With any
failures, one attempt stops at the first post that fails and ends with its
fault; what was accepted before is the front of `sends`, and the chain holds
just that. All attempts together deliver `sends` from the front, nothing twice
and nothing left out; when one goes through they have delivered `sends` and
left `chain`. -/
theorem publish_resumes (ids : Nat → String) (send : σ → Post → σ × Except TransportFault String) (p : Publisher)
    (r : Reply) (log : List Attempt) :
    ∃ (sends : List (Post × String)) (chain : List Link),
      (∃ last id, p.publish (numbered ids sure) ((), log) r = (((), log ++ sends.map ok), last, .ok id) ∧
        last.chain = chain) ∧
      (∀ s s' log' p' fault, p.publish (numbered ids send) (s, log) r = ((s', log'), p', .error fault) →
        ∃ done post id todo, sends = done ++ (post, id) :: todo ∧
          log' = log ++ done.map ok ++ [(post, .error fault)] ∧
          p'.chain = p.chain.dropLast ++ p.last.fill done) ∧
      ∀ limit s s' log' p' result,
        Publisher.persist (numbered ids send) limit (s, log) p r = ((s', log'), p', result) →
        accepted log' <+: accepted log ++ sends ∧
          ∀ id, result = .ok id → accepted log' = accepted log ++ sends ∧ p'.chain = chain := by
  refine ⟨(p.delivery ids r (accepted log).length).1, (p.delivery ids r (accepted log).length).2.chain, ?_, ?_, ?_⟩
  · obtain ⟨⟨⟨⟩, log'⟩, last, result, hpublish⟩ : ∃ s₁ p₁ result₁,
        p.publish (numbered ids sure) ((), log) r = (s₁, p₁, result₁) := ⟨_, _, _, rfl⟩
    obtain ⟨id, rfl⟩ := Publisher.run_sure (e := (p.publishing r).2) hpublish
    rcases Publisher.publish_numbered hpublish with ⟨_, -, rfl, hchain⟩ | ⟨_, _, _, _, fault, -, herror, -⟩
    · exact ⟨last, id, hpublish, hchain⟩
    · cases herror
  · intro s s' log' p' fault hpublish
    rcases Publisher.publish_numbered hpublish with ⟨_, hok, -⟩ | ⟨done, post, id, todo, _, hsends, herror, hlog, hp', -⟩
    · cases hok
    · cases herror
      exact ⟨done, post, id, todo, hsends, hlog, hp'⟩
  · intro limit s s' log' p' result hpersist
    exact Publisher.persist_delivers hpersist

end ReplyStream
