/-
The chain of a publisher, whatever it is asked for. The links of a chain join:
the first begins at the front of the reply and each begins where the one before
it ends. All but the last are full: they have an event and are continued; the
last is not (`Link.Joined`). Every post keeps that, accepted or not
(`Publisher.Intact.heard`), so it holds between any two sends, of any requests,
for any replies, wherever a send fails (`chain_joined`).

A chain only grows at its end. A link keeps its event once it has one, and
nothing of a full link changes (`Publisher.Keeps`). The events of a chain were
all sent as new ones, so they are distinct when no two new events have the
same id.
-/
import Mathlib.Data.List.Infix
import Mathlib.Logic.Relation
import ReplyStream.Proofs.Chain.Run

namespace ReplyStream

namespace Span

/-- The range does not end before it starts. -/
def Valid (s : Span) : Prop := s.start ≤ s.stop

theorem valid_resize (s : Span) (length : Nat) : (s.resize length).Valid := Nat.le_add_right _ _

theorem valid_point (n : Nat) : (point n).Valid := Nat.le_refl _

end Span

namespace Link

/-- The second link begins where the first one ends. -/
def Meets (a b : Link) : Prop := b.reasoning.start = a.reasoning.stop ∧ b.answer.start = a.answer.stop

/-- Links in order, all but the last full. -/
structure Joined (chain : List Link) : Prop where
  begins : ∀ l ∈ chain.head?, l.reasoning.start = 0 ∧ l.answer.start = 0
  joined : chain.IsChain Meets
  valid : ∀ l ∈ chain, l.reasoning.Valid ∧ l.answer.Valid
  full : ∀ l ∈ chain.dropLast, l.eventId.isSome = true ∧ l.continued = true
  grows : ∀ l ∈ chain.getLast?, l.continued = false

namespace Joined

variable {init : List Link} {l l' : Link}

theorem nil : Joined [] := by
  constructor <;> simp

theorem singleton (hstart : l.reasoning.start = 0 ∧ l.answer.start = 0) (hvalid : l.reasoning.Valid ∧ l.answer.Valid)
    (hcontinued : l.continued = false) : Joined [l] where
  begins := by simpa using hstart
  joined := List.isChain_singleton l
  valid := by simpa using hvalid
  full := by simp
  grows := by simpa using hcontinued

theorem replace_last (h : Joined (init ++ [l]))
    (hstart : l'.reasoning.start = l.reasoning.start ∧ l'.answer.start = l.answer.start)
    (hvalid : l'.reasoning.Valid ∧ l'.answer.Valid) (hcontinued : l'.continued = false) : Joined (init ++ [l']) where
  begins := by
    intro x hx
    cases init with
    | nil =>
      obtain rfl : l' = x := by simpa using hx
      have := h.begins l (by simp)
      omega
    | cons y init =>
      obtain rfl : y = x := by simpa using hx
      exact h.begins y (by simp)
  joined := by
    obtain ⟨hinit, -, hmeets⟩ := List.isChain_append.1 h.joined
    refine List.isChain_append.2 ⟨hinit, List.isChain_singleton l', ?_⟩
    intro x hx y hy
    obtain rfl : l' = y := by simpa using hy
    have := hmeets x hx l (by simp)
    exact ⟨hstart.1.trans this.1, hstart.2.trans this.2⟩
  valid := by
    intro x hx
    rcases List.mem_append.1 hx with hx | hx
    · exact h.valid x (List.mem_append_left _ hx)
    · obtain rfl := List.mem_singleton.1 hx
      exact hvalid
  full := by
    intro x hx
    rw [List.dropLast_concat] at hx
    exact h.full x (by rwa [List.dropLast_concat])
  grows := by simpa using hcontinued

theorem extend (h : Joined (init ++ [l])) (hid : l.eventId.isSome = true) :
    Joined (init ++ [{ l with continued := true }, l.next]) where
  begins := by
    intro x hx
    cases init with
    | nil =>
      obtain rfl : { l with continued := true } = x := by simpa using hx
      exact h.begins l (by simp)
    | cons y init =>
      obtain rfl : y = x := by simpa using hx
      exact h.begins y (by simp)
  joined := by
    obtain ⟨hinit, -, hmeets⟩ := List.isChain_append.1 h.joined
    refine List.isChain_append.2 ⟨hinit, List.isChain_pair.2 ⟨rfl, rfl⟩, ?_⟩
    intro x hx y hy
    obtain rfl : { l with continued := true } = y := by simpa using hy
    exact hmeets x hx l (by simp)
  valid := by
    intro x hx
    simp only [List.mem_append, List.mem_cons, List.not_mem_nil, or_false] at hx
    rcases hx with hx | rfl | rfl
    · exact h.valid x (List.mem_append_left _ hx)
    · exact h.valid l (by simp)
    · exact ⟨Span.valid_point _, Span.valid_point _⟩
  full := by
    intro x hx
    rw [List.dropLast_append_of_ne_nil (by simp)] at hx
    rcases List.mem_append.1 hx with hx | hx
    · exact h.full x (by rwa [List.dropLast_concat])
    · obtain rfl : x = { l with continued := true } := by simpa using hx
      exact ⟨hid, rfl⟩
  grows := by
    intro x hx
    obtain rfl : l.next = x := by simpa using hx
    rfl

end Joined

end Link

namespace Publisher

variable {p q : Publisher}

/-! ## What a chain keeps -/

/-- Links keep their events, and full links all they have. -/
structure Keeps (p q : Publisher) : Prop where
  length_le : p.chain.length ≤ q.chain.length
  full : p.chain.dropLast <+: q.chain
  ids : ∀ (i : Nat) (id : String), p.chain[i]?.bind (·.eventId) = some id → q.chain[i]?.bind (·.eventId) = some id

theorem Keeps.of_chain_eq (h : q.chain = p.chain) : p.Keeps q where
  length_le := by rw [h]
  full := by
    rw [h]
    exact List.dropLast_prefix _
  ids := by
    rw [h]
    exact fun _ _ hid => hid

theorem Keeps.trans {q' : Publisher} (h : p.Keeps q) (h' : q.Keeps q') : p.Keeps q' where
  length_le := Nat.le_trans h.length_le h'.length_le
  full := by
    have hlength := h.length_le
    have hinit : p.chain.dropLast <+: q.chain.dropLast := by
      refine List.prefix_of_prefix_length_le h.full (List.dropLast_prefix _) ?_
      simp only [List.length_dropLast]
      omega
    exact hinit.trans h'.full
  ids i id hid := h'.ids i id (h.ids i id hid)

/-- Something else in place of the last link keeps what the chain has, if it
begins with a link that has its event. -/
theorem Keeps.of_replace {l : Link} {more : List Link} (h : q.chain = p.chain.dropLast ++ l :: more)
    (hid : ∀ id, p.last.eventId = some id → l.eventId = some id) : p.Keeps q where
  length_le := by
    rw [h, List.length_append, List.length_dropLast, List.length_cons]
    omega
  full := by
    rw [h]
    exact List.prefix_append _ _
  ids := by
    intro i id hi
    rcases List.eq_nil_or_concat p.chain with hnil | ⟨init, last', hchain⟩
    · rw [hnil] at hi
      simp at hi
    · rw [List.concat_eq_append] at hchain
      have hlast : p.last = last' := by simp [last, hchain]
      rw [hlast] at hid
      rw [hchain] at hi
      rw [h, hchain, List.dropLast_concat]
      by_cases hlt : i < init.length
      · rw [List.getElem?_append_left hlt] at hi ⊢
        exact hi
      · by_cases heq : i = init.length
        · subst heq
          simp at hi ⊢
          exact hid id hi
        · have hnone : (init ++ [last'])[i]? = none := by
            rw [List.getElem?_eq_none]
            simp
            omega
          rw [hnone] at hi
          cases hi

/-! ## One post -/

/-- The last link has become an event, `id` unless it was one, and others may follow. -/
def Fills (p q : Publisher) (id : String) : Prop :=
  ∃ l more, q.chain = p.chain.dropLast ++ l :: more ∧ l.eventId = some (p.last.eventId.getD id) ∧
    ∀ x ∈ more, x.eventId = none

theorem Fills.keeps {id : String} (h : p.Fills q id) : p.Keeps q := by
  obtain ⟨l, more, hchain, hl, -⟩ := h
  refine .of_replace hchain ?_
  intro id' hid'
  rw [hl, hid']
  rfl

/-- At most one event is added, and only if the last link was none. -/
theorem Fills.eventIds {id : String} (h : p.Fills q id) :
    q.eventIds = p.eventIds ++ if p.last.eventId = none then [id] else [] := by
  obtain ⟨l, more, hchain, hl, hmore⟩ := h
  have hnone : more.filterMap (·.eventId) = [] := by
    rw [List.filterMap_eq_nil_iff]
    exact hmore
  rw [eventIds_eq p]
  simp only [Publisher.eventIds, hchain, List.filterMap_append, List.filterMap_cons_some hl, hnone]
  cases p.last.eventId with
  | none => simp
  | some id' => simp

theorem joined_last (h : Link.Joined p.chain) : Link.Joined (p.chain.dropLast ++ [p.last]) := by
  by_cases hempty : p.chain = []
  · have hlast : p.last = .first := by simp [Publisher.last, hempty]
    rw [hlast, hempty]
    exact .singleton ⟨rfl, rfl⟩ ⟨Span.valid_point 0, Span.valid_point 0⟩ rfl
  · rwa [← chain_eq hempty]

/-- Before its first link is an event a chain has no other. -/
theorem dropLast_of_firstId (h : Link.Joined p.chain) (hfirst : p.firstId = none) :
    p.chain.dropLast = [] ∧ p.last.eventId = none := by
  cases hchain : p.chain with
  | nil => simp [last, hchain, Link.first]
  | cons l rest =>
    rw [firstId, hchain] at hfirst
    cases rest with
    | nil => exact ⟨rfl, by simpa [last, hchain] using hfirst⟩
    | cons l' rest =>
      have hfull := (h.full l (by simp [hchain])).1
      rw [show l.eventId = none from hfirst] at hfull
      cases hfull

/-- What a post that is accepted makes of a chain that is joined: it stays
so, and at most its last link becomes an event, the one that was addressed. -/
theorem joined_heard (h : Link.Joined p.chain) {e : Errand} (he : p.Apt e) (id : String) :
    Link.Joined (p.heard e (.ok id)).1.chain ∧
      ((p.heard e (.ok id)).1.chain = p.chain ∨
        p.Fills (p.heard e (.ok id)).1 id ∧ (p.post e).target = p.last.eventId) := by
  cases e with
  | opening =>
    obtain ⟨hinit, hlast⟩ := dropLast_of_firstId h (he rfl)
    have hchain : (p.heard .opening (.ok id)).1.chain = [{ p.last with eventId := some id }] := by
      cases hchain : p.chain with
      | nil => simp [heard, opened, last, hchain]
      | cons l rest =>
        cases rest with
        | nil => simp [heard, opened, last, hchain]
        | cons l' rest => simp [hchain] at hinit
    have hsame := (joined_last h)
    rw [hinit] at hsame
    refine ⟨?_, .inr ⟨⟨{ p.last with eventId := some id }, [], ?_, ?_, by simp⟩, hlast.symm⟩⟩
    · rw [hchain]
      have hvalid := hsame.valid p.last (by simp)
      have hgrows := hsame.grows p.last (by simp)
      rw [← List.nil_append [_]]
      exact hsame.replace_last ⟨rfl, rfl⟩ hvalid hgrows
    · rw [hchain, hinit]
      rfl
    · rw [hlast]
      rfl
  | publish reply parts =>
    have hfill : ∀ part : Part, Link.Joined (p.chain.dropLast ++ [p.filled part id]) := by
      intro part
      exact (joined_last h).replace_last ⟨rfl, rfl⟩ ⟨Span.valid_resize _ _, Span.valid_resize _ _⟩
        ((joined_last h).grows p.last (by simp))
    cases parts with
    | nil => exact ⟨hfill _, .inr ⟨⟨_, [], rfl, rfl, by simp⟩, rfl⟩⟩
    | cons part parts =>
      refine ⟨(hfill part).extend rfl, .inr ⟨⟨_, _, rfl, rfl, ?_⟩, rfl⟩⟩
      intro x hx
      obtain rfl := List.mem_singleton.1 hx
      rfl
  | report text => exact ⟨h, .inl rfl⟩

/-- The chain is joined, and its events were sent as new ones. -/
structure Intact (p : Publisher) (sent : List Sent) : Prop where
  joined : Link.Joined p.chain
  known : ∀ id ∈ p.eventIds, ∃ s ∈ sent, s.replaces = none ∧ s.eventId = id
  distinct : Sent.DistinctIds sent → p.eventIds.Nodup

theorem intact_of_chain_nil (h : p.chain = []) (sent : List Sent) : p.Intact sent where
  joined := by
    rw [h]
    exact .nil
  known := by simp [eventIds, h]
  distinct _ := by simp [eventIds, h]

theorem Intact.of_chain_eq {sent : List Sent} (h : p.Intact sent) (hq : q.chain = p.chain) : q.Intact sent where
  joined := by
    rw [hq]
    exact h.joined
  known := by
    simp only [eventIds, hq]
    exact h.known
  distinct := by
    simp only [eventIds, hq]
    exact h.distinct

theorem Intact.append {sent : List Sent} (h : p.Intact sent) (more : List Sent) : p.Intact (sent ++ more) where
  joined := h.joined
  known := by
    intro id hid
    obtain ⟨s, hs, hknown⟩ := h.known id hid
    exact ⟨s, List.mem_append_left _ hs, hknown⟩
  distinct hdistinct := h.distinct hdistinct.of_append

/-- An event that was sent as a new one may become the last link. -/
theorem Intact.fills {sent : List Sent} {s : Sent} (h : p.Intact sent) (hjoined : Link.Joined q.chain)
    (hfills : p.Fills q s.eventId) (hplace : s.replaces = p.last.eventId) : q.Intact (sent ++ [s]) where
  joined := hjoined
  known := by
    intro id hid
    rw [hfills.eventIds] at hid
    rcases List.mem_append.1 hid with hid | hid
    · exact (h.append [s]).known id hid
    · split at hid
      next hnone =>
        obtain rfl := List.mem_singleton.1 hid
        exact ⟨s, by simp, hplace.trans hnone, rfl⟩
      next => cases hid
  distinct := by
    intro hdistinct
    have hnodup := h.distinct hdistinct.of_append
    rw [hfills.eventIds]
    split
    next hnone =>
      refine List.nodup_append.2 ⟨hnodup, by simp, ?_⟩
      intro id hid id' hid' heq
      obtain rfl := List.mem_singleton.1 hid'
      obtain ⟨t, ht, hnew, hideq⟩ := h.known id hid
      exact hdistinct.fresh (hplace.trans hnone) t ht hnew (hideq.trans heq)
    next => rwa [List.append_nil]

section Run

variable {σ : Type} {room : String} {send : σ → Post → σ × Except TransportFault String} {sent : σ → List Sent}

/-- Whatever comes of a post, the chain is intact and keeps what it has. -/
theorem Intact.heard (logs : Logs room send sent) {s s' : σ} {e : Errand} {answer : Except TransportFault String}
    (h : p.Intact (sent s)) (he : p.Apt e) (hsend : send s (p.post e) = (s', answer)) :
    ((p.counted (p.post e)).heard e answer).1.Intact (sent s') ∧
      p.Keeps ((p.counted (p.post e)).heard e answer).1 := by
  obtain ⟨tally, htally⟩ := counted_eq p (p.post e)
  rw [htally]
  cases answer with
  | error fault =>
    rw [logs.refused hsend]
    exact ⟨h.of_chain_eq rfl, .of_chain_eq rfl⟩
  | ok id =>
    rw [logs.accepted hsend]
    obtain ⟨hjoined, hsame | ⟨hfills, htarget⟩⟩ := joined_heard (p := { p with tally }) h.joined he id
    · exact ⟨(h.append _).of_chain_eq hsame, .of_chain_eq hsame⟩
    · exact ⟨h.fills hjoined hfills htarget, Fills.keeps (p := p) hfills⟩

/-! ## Stages of an errand -/

/-- The errand goes on behind its first post. -/
def Onward (send : σ → Post → σ × Except TransportFault String) (a b : σ × Publisher × Errand) : Prop :=
  ∃ answer, send a.1 (a.2.1.post a.2.2) = (b.1, answer) ∧
    (a.2.1.counted (a.2.1.post a.2.2)).heard a.2.2 answer = (b.2.1, .next b.2.2)

/-- At every stage of an errand the chain is intact. -/
theorem Intact.stage (logs : Logs room send sent) {s s' : σ} {e e' : Errand} (h : p.Intact (sent s)) (he : p.Apt e)
    (hstages : Relation.ReflTransGen (Onward send) (s, p, e) (s', q, e')) :
    q.Intact (sent s') ∧ q.Apt e' ∧ p.Keeps q := by
  generalize hb : (s', q, e') = b at hstages
  induction hstages generalizing s' q e' with
  | refl =>
    cases hb
    exact ⟨h, he, .of_chain_eq rfl⟩
  | @tail a b hstages honward ih =>
    subst hb
    obtain ⟨s₁, p₁, e₁⟩ := a
    obtain ⟨answer, hsend, hheard⟩ := honward
    obtain ⟨hintact, hapt, hkeeps⟩ := ih rfl
    obtain ⟨hintact', hkeeps'⟩ := hintact.heard logs hapt hsend
    have hnext := (isReport_of_heard_next hheard).2.2
    rw [hheard] at hintact' hkeeps'
    exact ⟨hintact', hnext, hkeeps.trans hkeeps'⟩

/-- An errand goes through its stages, and ends with the post of the last. -/
theorem run_stages {s s' : σ} {p p' : Publisher} {e : Errand} {result : Except TransportFault String}
    (hrun : p.run send s e = (s', p', result)) :
    ∃ s₁ p₁ e₁ answer, Relation.ReflTransGen (Onward send) (s, p, e) (s₁, p₁, e₁) ∧
      send s₁ (p₁.post e₁) = (s', answer) ∧ (p₁.counted (p₁.post e₁)).heard e₁ answer = (p', .ended result) := by
  obtain ⟨s₁, answer, hsend, hcases⟩ := run_cases hrun
  rcases hcases with ⟨p₁, e₁, hheard, hrest⟩ | ⟨rfl, hheard⟩
  · obtain ⟨s₂, p₂, e₂, answer', hstages, hlast⟩ := run_stages hrest
    exact ⟨s₂, p₂, e₂, answer', .head ⟨answer, hsend, hheard⟩ hstages, hlast⟩
  · exact ⟨s, p, e, answer, .refl, hsend, hheard⟩
termination_by e.posts
decreasing_by exact posts_lt_of_heard_next hheard

theorem Intact.run (logs : Logs room send sent) {s s' : σ} {p' : Publisher} {e : Errand}
    {result : Except TransportFault String} (h : p.Intact (sent s)) (he : p.Apt e)
    (hrun : p.run send s e = (s', p', result)) : p'.Intact (sent s') ∧ p.Keeps p' := by
  obtain ⟨s₁, p₁, e₁, answer, hstages, hsend, hheard⟩ := run_stages hrun
  obtain ⟨hintact, hapt, hkeeps⟩ := h.stage logs he hstages
  obtain ⟨hintact', hkeeps'⟩ := hintact.heard logs hapt hsend
  rw [hheard] at hintact' hkeeps'
  exact ⟨hintact', hkeeps.trans hkeeps'⟩

/-! ## Requests -/

theorem Intact.publishing {sent : List Sent} (h : p.Intact sent) (r : Reply) :
    (p.publishing r).1.Intact sent ∧ p.Keeps (p.publishing r).1 := by
  by_cases hempty : p.chain = []
  · have hchain : (p.publishing r).1.chain = [.first] := by simp [Publisher.publishing, hempty]
    have hids : (p.publishing r).1.eventIds = [] := by
      rw [eventIds, hchain]
      rfl
    refine ⟨⟨?_, by simp [hids], by simp [hids]⟩, ⟨by simp [hempty], by simp [hempty], by simp [hempty]⟩⟩
    rw [hchain]
    exact .singleton ⟨rfl, rfl⟩ ⟨Span.valid_point 0, Span.valid_point 0⟩ rfl
  · have hsame : (p.publishing r).1 = p := by simp [Publisher.publishing, hempty]
    rw [hsame]
    exact ⟨h, .of_chain_eq rfl⟩

/-- The chain is intact behind every request, and keeps what it had before. -/
theorem Intact.respond (logs : Logs room send sent) {s s' : σ} {p' : Publisher} {q : Request}
    {answer : Request.Answer} (h : p.Intact (sent s)) (hrun : p.respond send s q = (s', p', answer)) :
    p'.Intact (sent s') ∧ p.Keeps p' := by
  rcases respond_cases hrun with ⟨rfl, rfl⟩ | ⟨p₁, e, result, hrun, hapt, -, hbegun⟩
  · exact ⟨h, .of_chain_eq rfl⟩
  · obtain ⟨hintact₁, hkeeps₁⟩ : p₁.Intact (sent s) ∧ p.Keeps p₁ := by
      rcases hbegun with rfl | ⟨r, rfl⟩
      · exact ⟨h, .of_chain_eq rfl⟩
      · exact h.publishing r
    obtain ⟨hintact, hkeeps⟩ := hintact₁.run logs hapt hrun
    exact ⟨hintact, hkeeps₁.trans hkeeps⟩

theorem Intact.respondAll (logs : Logs room send sent) {requests : List Request} {s s' : σ} {p' : Publisher}
    (h : p.Intact (sent s)) (hrun : p.respondAll send s requests = (s', p')) : p'.Intact (sent s') := by
  induction requests generalizing s p with
  | nil =>
    cases hrun
    exact h
  | cons q requests ih =>
    cases hone : p.respond send s q with
    | mk s₁ rest =>
      simp only [Publisher.respondAll, hone] at hrun
      exact ih (h.respond logs hone).1 hrun

end Run

end Publisher

/-- **The links of a chain join.** Whatever was asked of a publisher, for any
replies, and wherever sends failed: the links join, all but the last are full,
and events are distinct if the ids of new events are. What is asked next keeps
every event, and all of the full links. At every stage of a publish the last
link is not continued yet, so that no event is ever said to continue itself:
it continues the event of the link before it. -/
theorem chain_joined {σ : Type} (send : σ → Post → σ × Except TransportFault String) (s : σ) (room agent : String)
    (c : Config.Publishing) (requests : List Request) :
    let run := (Publisher.new room agent c).respondAll (recorded room send) (s, []) requests
    Link.Joined run.2.chain ∧ (Sent.DistinctIds run.1.2 → run.2.eventIds.Nodup) ∧
      (∀ q, run.2.Keeps (run.2.respond (recorded room send) run.1 q).2.1) ∧
      ∀ r parts s' p',
        Relation.ReflTransGen (Publisher.Onward (recorded room send)) (run.1, run.2.publishing r)
            (s', p', .publish r parts) →
          Link.Joined p'.chain ∧ p'.last.continued = false ∧
            (p'.post (.publish r parts)).message.continuationOf = p'.previousId := by
  intro run
  have logs := recorded_logs room send
  have hnew : (Publisher.new room agent c).Intact (s, ([] : List Sent)).2 := Publisher.intact_of_chain_nil rfl _
  have hintact : run.2.Intact run.1.2 := hnew.respondAll logs rfl
  refine ⟨hintact.joined, hintact.distinct, fun q => (hintact.respond logs rfl).2, ?_⟩
  intro r parts s' p' hstages
  obtain ⟨hstage, -, -⟩ := (hintact.publishing r).1.stage logs Publisher.apt_publish hstages
  have hgrows : p'.last.continued = false := (Publisher.joined_last hstage.joined).grows p'.last (by simp)
  refine ⟨hstage.joined, hgrows, ?_⟩
  cases parts with
  | nil =>
    rw [Publisher.post_rest hgrows]
    rfl
  | cons part parts => rfl

end ReplyStream
