/-
Later sends are later events. Others may write to the rooms of a backend, with
any timestamps and in any order, and sends may be made to fail (`Backend.Deed`);
whatever has been done, the clock stands at the newest event of the log, so an
event that is sent is newer than all that was there (`Backend.Takes`). Of two
sends the later therefore wins wherever edits are resolved (`Event.Outdates`).

What a backend holds can be told from what came of each deed
(`Backend.Kept`, `Backend.sends_are_later`).
-/
import ReplyStream.Proofs.Room.Logged
import ReplyStream.Proofs.Room.Shared
import ReplyStream.Proofs.Timeline.Newest
import ReplyStream.Proofs.Timeline.Order

namespace ReplyStream

/-! ## The resolution of edits -/

namespace Event

/-- The event is newer than the other, and wherever edits are resolved among
events that have this one in them, its event is shown, as new as this one or
newer. Card fragments have no part in the resolution of edits. -/
structure Outdates (e f : Event) : Prop where
  newer : f.timestamp < e.timestamp
  shown : ∀ {seen versions : List Event}, e ∈ seen → Timeline.candidates seen = .ok versions → e.isFragment = false →
    e.effectiveId ∈ (Timeline.survivors versions).map (·.id)
  asNew : ∀ {seen versions : List Event}, e ∈ seen → Timeline.candidates seen = .ok versions → e.isFragment = false →
    ∀ x ∈ Timeline.survivors versions, x.id = e.effectiveId → e.timestamp ≤ x.timestamp

end Event

namespace Timeline

/-- A message that is read takes part in the resolution of edits. -/
theorem exists_decoded {seen versions : List Event} {e : Event} (he : e ∈ seen) (halone : e.versions = [e])
    (hversions : candidates seen = .ok versions) :
    ∃ v ∈ versions, v.timestamp = e.timestamp ∧ v.effectiveId = e.effectiveId ∧ v.isFragment = e.isFragment := by
  obtain ⟨v, hv, hdecode⟩ := exists_of_mapM_ok hversions
    (List.mem_flatMap.2 ⟨e, he, by rw [halone]; exact List.mem_singleton_self e⟩)
  obtain ⟨data, rfl⟩ := same_of_decode hdecode
  exact ⟨_, hv, rfl, rfl, rfl⟩

theorem le_of_survives {versions : List Event} {v x : Event} (hv : v ∈ versions) (hfragment : v.isFragment = false)
    (hx : x ∈ survivors versions) (hid : x.id = v.effectiveId) : v.timestamp ≤ x.timestamp := by
  obtain ⟨w, hfirst, rfl⟩ := exists_firstNewest hx
  refine hfirst.le v (List.mem_filter.2 ⟨List.mem_filter.2 ⟨hv, ?_⟩, ?_⟩)
  · rw [hfragment]
    rfl
  · exact beq_iff_eq.2 hid.symm

end Timeline

namespace Event

theorem outdates_of_lt {e f : Event} (halone : e.versions = [e]) (hlt : f.timestamp < e.timestamp) :
    e.Outdates f where
  newer := hlt
  shown he hversions hfragment := by
    obtain ⟨v, hv, -, hid, hpiece⟩ := Timeline.exists_decoded he halone hversions
    exact ((Timeline.ids_survivors _).2 _).2 ⟨v, hv, hpiece.trans hfragment, hid⟩
  asNew he hversions hfragment x hx hshown := by
    obtain ⟨v, hv, htime, hid, hpiece⟩ := Timeline.exists_decoded he halone hversions
    exact htime ▸ Timeline.le_of_survives hv (hpiece.trans hfragment) hx (hshown.trans hid.symm)

/-- Between two versions of an event alone, the one that outdates the other is
all that is shown. -/
theorem Outdates.wins {e f : Event} (h : e.Outdates f) (he : e.versions = [e]) (hf : f.versions = [f])
    (hid : f.effectiveId = e.effectiveId) (hfragment : e.isFragment = false) {seen versions : List Event}
    (hmem : e ∈ seen) (hseen : ∀ g ∈ seen, g = f ∨ g = e) (hversions : Timeline.candidates seen = .ok versions) :
    ∃ v, e.decode = .ok v ∧ Timeline.survivors versions = [v.inPlace] := by
  have hboth : ∀ v ∈ versions, v.effectiveId = e.effectiveId ∧ (v.timestamp = f.timestamp ∨ e.decode = .ok v) := by
    intro v hv
    obtain ⟨w, hw, hdecode⟩ := Shuffle.mem_of_mapM_ok hversions hv
    obtain ⟨g, hg, hw⟩ := List.mem_flatMap.1 hw
    obtain ⟨data, rfl⟩ := Timeline.same_of_decode hdecode
    rcases hseen g hg with rfl | rfl
    · rw [hf] at hw
      obtain rfl := List.mem_singleton.1 hw
      exact ⟨hid, .inl rfl⟩
    · rw [he] at hw
      obtain rfl := List.mem_singleton.1 hw
      exact ⟨rfl, .inr hdecode⟩
  have hall : ∀ x ∈ Timeline.survivors versions, x.id = e.effectiveId ∧ ∃ v, e.decode = .ok v ∧ x = v.inPlace := by
    intro x hx
    obtain ⟨v, hfirst, rfl⟩ := Timeline.exists_firstNewest hx
    obtain ⟨hplace, hwhich⟩ := hboth v (List.mem_filter.1 (List.mem_filter.1 hfirst.mem).1).1
    have hle : e.timestamp ≤ v.timestamp := h.asNew hmem hversions hfragment v.inPlace hx hplace
    have hlt := h.newer
    exact ⟨hplace, v, hwhich.resolve_left (by omega), rfl⟩
  have hshown := h.shown hmem hversions hfragment
  have hdistinct := (Timeline.ids_survivors versions).1
  cases hsurvivors : Timeline.survivors versions with
  | nil =>
    rw [hsurvivors] at hshown
    cases hshown
  | cons x rest =>
    rw [hsurvivors] at hall hdistinct
    obtain ⟨hx, v, hdecode, rfl⟩ := hall x List.mem_cons_self
    -- another one would show the same event
    cases rest with
    | nil => exact ⟨v, hdecode, rfl⟩
    | cons y rest =>
      have hy := (hall y (by simp)).1
      have hfresh : v.inPlace.id ∉ (y :: rest).map (·.id) := (List.nodup_cons.1 hdistinct).1
      rw [hx, ← hy] at hfresh
      exact absurd (List.mem_map_of_mem List.mem_cons_self) hfresh

end Event

/-! ## What is done to a backend -/

namespace Backend

inductive Deed where
  /-- Somebody else writes an event. -/
  | push (e : Event)
  | failNext (count : Nat)
  | send (room : String) (p : Post)

/-- What comes of a deed. -/
inductive Happening where
  | pushed (e : Event)
  | planned (count : Nat)
  | accepted (s : Sent)
  | refused (fault : TransportFault)

namespace Happening

def sent? : Happening → Option Sent
  | accepted s => some s
  | _ => none

/-- Whether it leaves an event in the log. -/
def isWritten : Happening → Bool
  | pushed _ | accepted _ => true
  | _ => false

def isPlanned : Happening → Bool
  | planned _ => true
  | _ => false

/-- Whether it came of a send. -/
def isSend : Happening → Bool
  | accepted _ | refused _ => true
  | _ => false

/-- The event it leaves in the log: the one that was pushed, or one that has
been sent. -/
inductive Logged (sender : String) : Happening → Event → Prop where
  | pushed (e : Event) : Logged sender (pushed e) e
  | accepted {s : Sent} {e : Event} (becomes : SharedRoom.Becomes s.room s e) (hsender : e.sender = sender) :
    Logged sender (accepted s) e

end Happening

/-- What can come of a deed. -/
inductive Deed.ComesTo : Deed → Happening → Prop where
  | pushed (e : Event) : ComesTo (.push e) (.pushed e)
  | planned (count : Nat) : ComesTo (.failNext count) (.planned count)
  | accepted {room : String} {p : Post} {s : Sent} (hroom : s.room = room) (message : s.message = p.addressed)
    (replaces : s.replaces = p.target) : ComesTo (.send room p) (.accepted s)
  | refused (room : String) (p : Post) (fault : TransportFault) : ComesTo (.send room p) (.refused fault)

def perform (b : Backend) : Deed → Backend × Happening
  | .push e => (b.push e, .pushed e)
  | .failNext count => (b.failNext count, .planned count)
  | .send room p =>
    match b.send room p with
    | (b', .ok s) => (b', .accepted s)
    | (b', .error fault) => (b', .refused fault)

/-- Does one thing after another. -/
def run (b : Backend) : List Deed → Backend × List Happening
  | [] => (b, [])
  | deed :: deeds =>
    let (b, happening) := b.perform deed
    let (b, happenings) := b.run deeds
    (b, happening :: happenings)

theorem run_concat (b : Backend) (deeds : List Deed) (deed : Deed) :
    b.run (deeds ++ [deed]) =
      (((b.run deeds).1.perform deed).1, (b.run deeds).2 ++ [((b.run deeds).1.perform deed).2]) := by
  induction deeds generalizing b with
  | nil => rfl
  | cons first deeds ih =>
    simp only [List.cons_append, run, ih]

/-! ## One step -/

/-- The clock stands at the newest event of the log, or at zero. -/
def Timed (b : Backend) : Prop := ∀ limit, b.clock ≤ limit ↔ ∀ e ∈ b.log, e.timestamp ≤ limit

theorem Timed.past {b : Backend} (h : b.Timed) : ∀ e ∈ b.log, e.timestamp ≤ b.clock := (h b.clock).1 (Nat.le_refl _)

theorem timed_new (sender : String) : (new sender).Timed := by simp [Timed, new]

theorem Timed.push {b : Backend} (h : b.Timed) (e : Event) : (b.push e).Timed := by
  intro limit
  simp only [Backend.push, Nat.max_le, h limit, List.mem_append, List.mem_singleton]
  constructor
  · rintro ⟨hlog, he⟩ f (hf | rfl)
    · exact hlog f hf
    · exact he
  · exact fun hall => ⟨fun f hf => hall f (.inl hf), hall e (.inr rfl)⟩

theorem Timed.enter {b : Backend} (h : b.Timed) (room : String) (p : Post) (content : Content) :
    (b.enter room p content).Timed := by
  intro limit
  simp only [Backend.enter, List.mem_append, List.mem_singleton]
  constructor
  · rintro hle f (hf | rfl)
    · exact Nat.le_trans (h.past f hf) (Nat.le_of_succ_le hle)
    · exact hle
  · exact fun hall => hall (b.nextEvent room content) (.inr rfl)

/-- What a send can do. One that is to fail changes nothing but how many are
still to fail; any other is taken, and becomes an event newer than all that
were in the log, of whatever room. -/
inductive Takes (b : Backend) (room : String) (p : Post) : Backend × Except TransportFault Sent → Prop where
  | refused (failing : 0 < b.failing) :
    Takes b room p ({ b with failing := b.failing - 1 }, .error .unavailable)
  | accepted {s : Sent} {e : Event} (failing : b.failing = 0) (message : s.message = p.addressed)
    (replaces : s.replaces = p.target) (becomes : SharedRoom.Becomes room s e) (hroom : s.room = room)
    (sender : e.sender = b.sender) (later : ∀ f ∈ b.log, e.Outdates f) :
    Takes b room p ({ b with clock := e.timestamp, log := b.log ++ [e], sent := b.sent ++ [s] }, .ok s)

theorem Timed.takes {b : Backend} (h : b.Timed) (room : String) (p : Post) : b.Takes room p (b.send room p) := by
  by_cases hfailing : 0 < b.failing
  · rw [send, if_pos hfailing]
    exact .refused hfailing
  · obtain ⟨content, hcontent, -⟩ := p.addressed.exists_agrees
    have hsend : b.send room p = (b.enter room p content, .ok (b.nextSent room p)) := by
      rw [send, if_neg hfailing, hcontent]
      rfl
    rw [hsend]
    refine .accepted (by omega) rfl rfl ⟨rfl, rfl, rfl, rfl, hcontent⟩ rfl rfl fun f hf => ?_
    exact Event.outdates_of_lt (Timeline.versions_of_message rfl rfl) (Nat.lt_succ_of_le (h.past f hf))

theorem Timed.send {b : Backend} (h : b.Timed) (room : String) (p : Post) : (b.send room p).1.Timed := by
  cases hsend : b.send room p with
  | mk b' result =>
    rcases send_cases hsend with ⟨fault, n, -, rfl⟩ | ⟨content, -, -, -, rfl⟩
    · exact h
    · exact h.enter room p content

/-! ## A whole run -/

/-- Of these sends the first `n` are refused, as the backend cannot be reached,
and no others. -/
def FailsFirst (n : Nat) (sends : List Happening) : Prop :=
  (∀ h ∈ sends.take n, h = .refused .unavailable) ∧ ∀ h ∈ sends.drop n, ∃ s, h = .accepted s

theorem failsFirst_nil (n : Nat) : FailsFirst n [] := by simp [FailsFirst]

theorem FailsFirst.concat {n : Nat} {sends : List Happening} (h : FailsFirst n sends) {send : Happening}
    (hrefused : sends.length < n → send = .refused .unavailable)
    (haccepted : n ≤ sends.length → ∃ s, send = .accepted s) : FailsFirst n (sends ++ [send]) := by
  rcases Nat.lt_or_ge sends.length n with hlt | hle
  · rw [FailsFirst, List.take_of_length_le (by omega)] at h
    rw [FailsFirst, List.take_of_length_le (by simp; omega), List.drop_of_length_le (by simp; omega)]
    refine ⟨fun x hx => ?_, by simp⟩
    rcases List.mem_append.1 hx with hx | hx
    · exact h.1 x hx
    · rw [List.mem_singleton.1 hx]
      exact hrefused hlt
  · rw [FailsFirst, List.take_append_of_le_length hle, List.drop_append_of_le_length hle]
    refine ⟨h.1, fun x hx => ?_⟩
    rcases List.mem_append.1 hx with hx | hx
    · exact h.2 x hx
    · rw [List.mem_singleton.1 hx]
      exact haccepted hle

/-- Since `n` sends were made to fail, `between` has happened, in which nothing else
was planned, and then `after`. To begin with, none are to fail. -/
structure Follows (happenings : List Happening) (n : Nat) (between after : List Happening) : Prop where
  exists_before : ∃ before, .planned 0 :: happenings = before ++ .planned n :: (between ++ after)
  unplanned : ∀ h ∈ between, h.isPlanned = false

theorem Follows.nil {n : Nat} {between after : List Happening} (h : Follows [] n between after) :
    n = 0 ∧ between = [] ∧ after = [] := by
  obtain ⟨before, hbefore⟩ := h.exists_before
  cases before with
  | nil => simpa [eq_comm] using hbefore
  | cons first before => simp at hbefore

/-- What happens last comes after it all, or is part of what lies between, or
others are made to fail by it. -/
theorem Follows.concat {happenings between after : List Happening} {happening : Happening} {n : Nat}
    (h : Follows (happenings ++ [happening]) n between after) :
    (∃ after', after = after' ++ [happening] ∧ Follows happenings n between after') ∨
      (∃ between', between = between' ++ [happening] ∧ happening.isPlanned = false ∧
        Follows happenings n between' []) ∨
      (between = [] ∧ happening = .planned n) := by
  obtain ⟨⟨before, hbefore⟩, hunplanned⟩ := h
  rcases List.eq_nil_or_concat after with rfl | ⟨after', last, rfl⟩
  · rcases List.eq_nil_or_concat between with rfl | ⟨between', last, rfl⟩
    · have hends : (.planned 0 :: happenings) ++ [happening] = before ++ [.planned n] := hbefore
      obtain ⟨-, hlast⟩ := List.append_inj' hends rfl
      exact .inr (.inr ⟨rfl, List.singleton_inj.1 hlast⟩)
    · have hends : (.planned 0 :: happenings) ++ [happening] = (before ++ .planned n :: between') ++ [last] := by
        simpa using hbefore
      obtain ⟨hinit, hlast⟩ := List.append_inj' hends rfl
      obtain rfl := List.singleton_inj.1 hlast
      refine .inr (.inl ⟨between', by simp, hunplanned _ (by simp), ⟨before, by simpa using hinit⟩, ?_⟩)
      exact fun x hx => hunplanned x (by simp [hx])
  · have hends : (.planned 0 :: happenings) ++ [happening] =
        (before ++ .planned n :: (between ++ after')) ++ [last] := by
      simpa using hbefore
    obtain ⟨hinit, hlast⟩ := List.append_inj' hends rfl
    obtain rfl := List.singleton_inj.1 hlast
    exact .inl ⟨after', by simp, ⟨before, hinit⟩, hunplanned⟩

/-- How sends have failed, and how many are still to fail. -/
structure Plan (happenings : List Happening) (left : Nat) : Prop where
  fails : ∀ {n : Nat} {between after : List Happening}, Follows happenings n between after →
    FailsFirst n (between.filter Happening.isSend)
  left : ∀ {n : Nat} {between : List Happening}, Follows happenings n between [] →
    left = n - (between.filter Happening.isSend).length

namespace Plan

variable {happenings : List Happening} {left : Nat}

theorem nil : Plan [] 0 where
  fails h := by
    obtain ⟨-, rfl, -⟩ := h.nil
    exact failsFirst_nil _
  left h := by
    obtain ⟨rfl, rfl, -⟩ := h.nil
    rfl

theorem pushed (h : Plan happenings left) (e : Event) : Plan (happenings ++ [.pushed e]) left where
  fails hfollows := by
    rcases hfollows.concat with ⟨after', -, hfollows⟩ | ⟨between', rfl, -, hfollows⟩ | ⟨-, hplanned⟩
    · exact h.fails hfollows
    · simpa [Happening.isSend] using h.fails hfollows
    · cases hplanned
  left hfollows := by
    rcases hfollows.concat with ⟨after', hafter, -⟩ | ⟨between', rfl, -, hfollows⟩ | ⟨-, hplanned⟩
    · simp at hafter
    · simpa [Happening.isSend] using h.left hfollows
    · cases hplanned

theorem planned (h : Plan happenings left) (count : Nat) : Plan (happenings ++ [.planned count]) count where
  fails hfollows := by
    rcases hfollows.concat with ⟨after', -, hfollows⟩ | ⟨between', -, hunplanned, -⟩ | ⟨rfl, -⟩
    · exact h.fails hfollows
    · cases hunplanned
    · exact failsFirst_nil _
  left hfollows := by
    rcases hfollows.concat with ⟨after', hafter, -⟩ | ⟨between', -, hunplanned, -⟩ | ⟨rfl, hplanned⟩
    · simp at hafter
    · cases hunplanned
    · cases hplanned
      rfl

theorem send (h : Plan happenings left) {happening : Happening} (hsend : happening.isSend = true)
    (hrefused : 0 < left → happening = .refused .unavailable) (haccepted : left = 0 → ∃ s, happening = .accepted s) :
    Plan (happenings ++ [happening]) (left - 1) where
  fails hfollows := by
    rcases hfollows.concat with ⟨after', -, hfollows⟩ | ⟨between', rfl, -, hfollows⟩ | ⟨-, rfl⟩
    · exact h.fails hfollows
    · have hleft := h.left hfollows
      rw [List.filter_append, List.filter_cons_of_pos hsend]
      exact (h.fails hfollows).concat (fun hlt => hrefused (by omega)) fun hle => haccepted (by omega)
    · cases hsend
  left hfollows := by
    rcases hfollows.concat with ⟨after', hafter, -⟩ | ⟨between', rfl, -, hfollows⟩ | ⟨-, rfl⟩
    · simp at hafter
    · rw [List.filter_append, List.filter_cons_of_pos hsend, List.length_append, h.left hfollows]
      exact Nat.sub_sub _ _ _
    · cases hsend

end Plan

/-- What is kept of all that happened. -/
structure Kept (sender : String) (deeds : List Deed) (happenings : List Happening) (b : Backend) : Prop where
  bot : b.sender = sender
  came : List.Forall₂ Deed.ComesTo deeds happenings
  /-- What has been sent is what was accepted, in order. -/
  sent : b.sent = happenings.filterMap Happening.sent?
  /-- The log is what was accepted and what was pushed, in order. -/
  log : List.Forall₂ (Happening.Logged sender) (happenings.filter Happening.isWritten) b.log
  timed : b.Timed
  /-- What was sent outdates all that stands before it in the log. -/
  later : ∀ {i j : Nat} {s : Sent} {f e : Event}, (happenings.filter Happening.isWritten)[j]? = some (.accepted s) →
    i < j → b.log[i]? = some f → b.log[j]? = some e → e.Outdates f
  plan : Plan happenings b.failing

theorem kept_new (sender : String) : Kept sender [] [] (new sender) where
  bot := rfl
  came := .nil
  sent := rfl
  log := .nil
  timed := timed_new sender
  later h := by cases h
  plan := .nil

section Step

variable {sender : String} {deeds : List Deed} {happenings : List Happening} {b : Backend}

/-- What is written last outdates what came before, if it was sent. -/
theorem Kept.later_concat (h : Kept sender deeds happenings b) {happening : Happening} {e : Event}
    (hnewest : ∀ s, happening = .accepted s → ∀ f ∈ b.log, e.Outdates f) {i j : Nat} {s : Sent} {f g : Event}
    (hsent : (happenings.filter Happening.isWritten ++ [happening])[j]? = some (.accepted s)) (hlt : i < j)
    (hf : (b.log ++ [e])[i]? = some f) (hg : (b.log ++ [e])[j]? = some g) : g.Outdates f := by
  have hlength := h.log.length_eq
  have hj : j < b.log.length + 1 := by
    simpa using (List.getElem?_eq_some_iff.1 hg).1
  rw [List.getElem?_append_left (by omega)] at hf
  rcases Nat.lt_succ_iff_lt_or_eq.1 hj with hj | rfl
  · rw [List.getElem?_append_left (by omega)] at hsent
    rw [List.getElem?_append_left hj] at hg
    exact h.later hsent hlt hf hg
  · rw [← hlength, List.getElem?_concat_length] at hsent
    rw [List.getElem?_concat_length] at hg
    cases hsent
    cases hg
    exact hnewest s rfl f (List.mem_of_getElem? hf)

theorem Kept.push (h : Kept sender deeds happenings b) (e : Event) :
    Kept sender (deeds ++ [.push e]) (happenings ++ [.pushed e]) (b.push e) where
  bot := h.bot
  came := List.rel_append h.came (.cons (.pushed e) .nil)
  sent := by
    rw [List.filterMap_append]
    exact h.sent.trans (List.append_nil _).symm
  log := by
    rw [List.filter_append]
    exact List.rel_append h.log (.cons (.pushed e) .nil)
  timed := h.timed.push e
  later hsent hlt hf hg := by
    rw [List.filter_append] at hsent
    exact h.later_concat (fun s hs => Happening.noConfusion hs) hsent hlt hf hg
  plan := h.plan.pushed e

/-- What leaves no event and is not sent leaves all but the plan as it was. -/
theorem Kept.unwritten (h : Kept sender deeds happenings b) {deed : Deed} {happening : Happening} {left : Nat}
    (hcomes : deed.ComesTo happening) (hwritten : happening.isWritten = false) (hsent : happening.sent? = none)
    (hplan : Plan (happenings ++ [happening]) left) :
    Kept sender (deeds ++ [deed]) (happenings ++ [happening]) (b.failNext left) := by
  have hsame : (happenings ++ [happening]).filter Happening.isWritten = happenings.filter Happening.isWritten := by
    simp [hwritten]
  exact {
    bot := h.bot
    came := List.rel_append h.came (.cons hcomes .nil)
    sent := by
      simp only [List.filterMap_append, List.filterMap_cons, hsent, List.filterMap_nil, List.append_nil]
      exact h.sent
    log := hsame ▸ h.log
    timed := h.timed
    later := hsame ▸ h.later
    plan := hplan }

theorem Kept.send (h : Kept sender deeds happenings b) (room : String) (p : Post) :
    Kept sender (deeds ++ [.send room p]) (happenings ++ [(b.perform (.send room p)).2]) (b.perform (.send room p)).1 := by
  have htakes := h.timed.takes room p
  have htimed := h.timed.send room p
  rw [perform]
  generalize b.send room p = outcome at htakes htimed
  cases htakes with
  | refused hfailing =>
    exact h.unwritten (.refused room p .unavailable) rfl rfl
      (h.plan.send rfl (fun _ => rfl) fun hnone => absurd hfailing (by omega))
  | @accepted s e hfailing hmessage hreplaces hbecomes hroom hsender hlater =>
    have hlogged : Happening.Logged sender (.accepted s) e := .accepted (hroom ▸ hbecomes) (hsender.trans h.bot)
    have hplan : Plan (happenings ++ [.accepted s]) (b.failing - 1) :=
      h.plan.send rfl (fun hsome => absurd hfailing (by omega)) fun _ => ⟨s, rfl⟩
    rw [show b.failing - 1 = b.failing by omega] at hplan
    exact {
      bot := h.bot
      came := List.rel_append h.came (.cons (.accepted hroom hmessage hreplaces) .nil)
      sent := by
        rw [List.filterMap_append, ← h.sent]
        rfl
      log := by
        rw [List.filter_append]
        exact List.rel_append h.log (.cons hlogged .nil)
      timed := htimed
      later := by
        intro i j s' f g hsent hlt hf hg
        rw [List.filter_append] at hsent
        exact h.later_concat (fun _ _ => hlater) hsent hlt hf hg
      plan := hplan }

theorem Kept.perform (h : Kept sender deeds happenings b) (deed : Deed) :
    Kept sender (deeds ++ [deed]) (happenings ++ [(b.perform deed).2]) (b.perform deed).1 := by
  cases deed with
  | push e => exact h.push e
  | failNext count => exact h.unwritten (.planned count) rfl rfl (h.plan.planned count)
  | send room p => exact h.send room p

end Step

theorem kept_run (sender : String) (deeds : List Deed) :
    Kept sender deeds ((new sender).run deeds).2 ((new sender).run deeds).1 := by
  induction deeds using List.reverseRecOn with
  | nil => exact kept_new sender
  | append_singleton deeds deed ih =>
    rw [run_concat]
    exact ih.perform deed

/-- The later of two sends is all that is shown where edits are resolved
between them, both of them for one event. -/
def LaterWins (happenings : List Happening) (log : List Event) : Prop :=
  ∀ (i j : Nat) (s t : Sent) (f e : Event), i < j →
    (happenings.filter Happening.isWritten)[i]? = some (.accepted s) → log[i]? = some f →
    (happenings.filter Happening.isWritten)[j]? = some (.accepted t) → log[j]? = some e →
    f.effectiveId = e.effectiveId → e.isFragment = false →
    ∀ seen versions : List Event, e ∈ seen → (∀ g ∈ seen, g = f ∨ g = e) → Timeline.candidates seen = .ok versions →
      ∃ v, e.decode = .ok v ∧ Timeline.survivors versions = [v.inPlace]

theorem Kept.laterWins {sender : String} {deeds : List Deed} {happenings : List Happening} {b : Backend}
    (h : Kept sender deeds happenings b) : LaterWins happenings b.log := by
  intro i j s t f e hlt hs hf ht he hid hfragment seen versions hmem hseen hversions
  have halone : ∀ {k : Nat} {x : Sent} {g : Event},
      (happenings.filter Happening.isWritten)[k]? = some (.accepted x) → b.log[k]? = some g → g.versions = [g] := by
    intro k x g hx hg
    obtain ⟨hk, hx⟩ := List.getElem?_eq_some_iff.1 hx
    obtain ⟨hk', hg⟩ := List.getElem?_eq_some_iff.1 hg
    have hlogged := h.log.get hk hk'
    simp only [List.get_eq_getElem, hx, hg] at hlogged
    cases hlogged with
    | accepted hbecomes _ => exact Timeline.versions_of_message hbecomes.kind hbecomes.unsigned
  exact (h.later ht hlt hf he).wins (halone ht he) (halone hs hf) hid hfragment hmem hseen hversions

/-- **Later sends are later events.** Whatever others write, with any
timestamps, and whatever sends are made to fail: what was sent is what was
accepted, in order, and the log is that and what others wrote, in the order in
which it happened. A send is appended as an event newer than all that is in the
log, so wherever edits are resolved the later of two sends wins. Since `n` sends
were made to fail, exactly the first `n` have failed, and a send that fails
leaves all else as it was. -/
theorem sends_are_later (sender : String) (deeds : List Deed) :
    Kept sender deeds ((new sender).run deeds).2 ((new sender).run deeds).1 ∧
      LaterWins ((new sender).run deeds).2 ((new sender).run deeds).1.log ∧
      ∀ room p, ((new sender).run deeds).1.Takes room p (((new sender).run deeds).1.send room p) := by
  have hkept := kept_run sender deeds
  exact ⟨hkept, hkept.laterWins, hkept.timed.takes⟩

/-- Others write, the later of them with the earlier time; one send fails, the next does not. -/
example :
    ((new "@bot:example.org").run
      [.push (Timeline.piece "$a" 10 "a" none none), .push (Timeline.piece "$b" 3 "b" none none), .failNext 1,
        .send "!room" ⟨none, .reply "one"⟩, .send "!room" ⟨none, .reply "two"⟩]).1.log.map
      (fun e => (e.content.body, e.timestamp)) = [("a", 10), ("b", 3), ("two", 11)] := by
  decide +kernel

end Backend

end ReplyStream
