/-
Flushing replies one after the other, each reported when its publish fails
(`Publisher.flushAll`): what the turns of a bot come to, whatever the order
in which their parts take turns. A row of flushes is a row of requests
(`Publisher.respondAll_of_flushAll`), so what the chain carries is known, and
from the records of the wire one can tell whether anything failed.
-/
import ReplyStream.Proofs.Chain.Heal
import ReplyStream.Proofs.Room.Timeless

namespace ReplyStream.Publisher

section Flush

variable {σ : Type}

/-- Publishes a reply, and reports it if that fails. -/
def flush (send : σ → Post → σ × Except TransportFault String) (s : σ) (p : Publisher) (r : Reply) :
    σ × Publisher × Option Fault :=
  match p.publish send s r with
  | (s, p, .ok _) => (s, p, none)
  | (s, p, .error cause) =>
    let (s, p, _) := p.report send s (Fault.publish cause).message
    (s, p, some (.publish cause))

/-- Flushes one reply after the other; the faults that were reported too. -/
def flushAll (send : σ → Post → σ × Except TransportFault String) :
    σ → Publisher → List Reply → σ × Publisher × List Fault
  | s, p, [] => (s, p, [])
  | s, p, r :: rest =>
    let (s, p, fault) := p.flush send s r
    let (s, p, faults) := flushAll send s p rest
    (s, p, fault.toList ++ faults)

variable {send : σ → Post → σ × Except TransportFault String} {s s' s'' : σ} {p p' p'' : Publisher}

theorem flush_cases {r : Reply} {fault : Option Fault} (h : p.flush send s r = (s', p', fault)) :
    (∃ id, p.publish send s r = (s', p', .ok id) ∧ fault = none) ∨
    ∃ cause s₁ p₁ result, p.publish send s r = (s₁, p₁, .error cause) ∧
      p₁.report send s₁ (Fault.publish cause).message = (s', p', result) ∧ fault = some (.publish cause) := by
  simp only [flush] at h
  split at h
  next s₁ p₁ id hpublish =>
    cases h
    exact .inl ⟨id, hpublish, rfl⟩
  next s₁ p₁ cause hpublish =>
    cases hreport : p₁.report send s₁ (Fault.publish cause).message with
    | mk s₂ rest =>
      rw [hreport] at h
      cases h
      exact .inr ⟨cause, s₁, p₁, rest.2, hpublish, hreport, rfl⟩

theorem openUp_room {room : String} {w w' : Wire} {p p' : Publisher} {result : Except TransportFault String}
    (h : p.openUp (Wire.post room) w = (w', p', result)) : p'.room = p.room := by
  have hrespond : p.respond (Wire.post room) w .opening = (w', p', .opened result) := by simp only [respond, h]
  exact (respond_appends (Wire.post_logs room) hrespond).1.room

theorem flushAll_concat {rs : List Reply} {r : Reply} {faults : List Fault} {fault : Option Fault}
    (h : p.flushAll send s rs = (s', p', faults)) (hlast : p'.flush send s' r = (s'', p'', fault)) :
    p.flushAll send s (rs ++ [r]) = (s'', p'', faults ++ fault.toList) := by
  induction rs generalizing s p faults with
  | nil =>
    cases h
    simp only [List.nil_append, flushAll, hlast, List.append_nil]
  | cons r' rs ih =>
    cases hflush : p.flush send s r' with
    | mk s₁ rest =>
      obtain ⟨p₁, fault'⟩ := rest
      cases hrest : p₁.flushAll send s₁ rs
      simp only [flushAll, hflush, hrest] at h
      cases h
      simp only [List.cons_append, flushAll, hflush, ih hrest, List.append_assoc]

theorem respondAll_append {qs qs' : List Request} (h : p.respondAll send s qs = (s', p')) :
    p.respondAll send s (qs ++ qs') = p'.respondAll send s' qs' := by
  induction qs generalizing s p with
  | nil =>
    cases h
    rfl
  | cons q qs ih =>
    simp only [respondAll, List.cons_append] at h ⊢
    exact ih h

theorem respondAll_of_flush {r : Reply} {fault : Option Fault} (h : p.flush send s r = (s', p', fault)) :
    ∃ requests, p.respondAll send s requests = (s', p') ∧ requests.filterMap (·.reply?) = [r] ∧
      (fault = none → requests = [.publish r]) := by
  rcases flush_cases h with ⟨id, hpublish, rfl⟩ | ⟨cause, s₁, p₁, result, hpublish, hreport, rfl⟩
  · refine ⟨[.publish r], ?_, rfl, fun _ => rfl⟩
    simp only [respondAll, respond, hpublish]
  · refine ⟨[.publish r, .report (Fault.publish cause).message], ?_, rfl, fun hnone => ?_⟩
    · simp only [respondAll, respond, hpublish, hreport]
    · cases hnone

/-- A row of flushes is a row of requests: the publishes in the same order,
and reports of those that failed. -/
theorem respondAll_of_flushAll {rs : List Reply} {faults : List Fault}
    (h : p.flushAll send s rs = (s', p', faults)) :
    ∃ requests, p.respondAll send s requests = (s', p') ∧ requests.filterMap (·.reply?) = rs ∧
      (faults = [] → requests = rs.map .publish) := by
  induction rs generalizing s p faults with
  | nil =>
    cases h
    exact ⟨[], rfl, rfl, fun _ => rfl⟩
  | cons r rs ih =>
    cases hflush : p.flush send s r with
    | mk s₁ rest =>
      obtain ⟨p₁, fault⟩ := rest
      cases hrest : p₁.flushAll send s₁ rs
      simp only [flushAll, hflush, hrest] at h
      cases h
      obtain ⟨requests, hrequests, hreplies, hnone⟩ := respondAll_of_flush hflush
      obtain ⟨requests', hrequests', hreplies', hnone'⟩ := ih hrest
      refine ⟨requests ++ requests', ?_, ?_, fun hfaults => ?_⟩
      · rw [respondAll_append hrequests, hrequests']
      · rw [List.filterMap_append, hreplies, hreplies']
        rfl
      · obtain ⟨hfault, hfaults⟩ := List.append_eq_nil_iff.1 hfaults
        rw [hnone (Option.toList_eq_nil_iff.1 hfault), hnone' hfaults]
        rfl

/-- A row of flushes changes a publisher only in its chain, which goes on where it began. -/
theorem flushAll_alike {room : String} {w w' : Wire} {rs : List Reply} {faults : List Fault}
    (h : p.flushAll (Wire.post room) w rs = (w', p', faults)) : p.Alike p' := by
  obtain ⟨requests, hrequests, -, -⟩ := respondAll_of_flushAll h
  exact (respondAll_appends (Wire.post_logs room) hrequests).1

theorem flushAll_room {room : String} {w w' : Wire} {rs : List Reply} {faults : List Fault}
    (h : p.flushAll (Wire.post room) w rs = (w', p', faults)) : p'.room = p.room :=
  (flushAll_alike h).room

/-- Opening and flushes that go through are requests to publish, and no others. -/
theorem respondAll_of_faultless {s₁ s₂ : σ} {p₁ p₂ : Publisher} {first : String} {rs : List Reply} {r : Reply}
    (hopen : p.openUp send s = (s₁, p₁, .ok first)) (hflushes : p₁.flushAll send s₁ rs = (s₂, p₂, []))
    (hlast : p₂.flush send s₂ r = (s', p', none)) :
    p.respondAll send s (.opening :: (rs ++ [r]).map .publish) = (s', p') := by
  have hopened : p.respondAll send s [.opening] = (s₁, p₁) := by
    simp only [respondAll, respond, hopen]
  obtain ⟨requests, hrequests, -, hall⟩ := respondAll_of_flushAll hflushes
  obtain ⟨requests', hrequests', -, hall'⟩ := respondAll_of_flush hlast
  rw [hall rfl] at hrequests
  rw [hall' rfl] at hrequests'
  rw [← List.singleton_append, respondAll_append hopened, List.map_append, respondAll_append hrequests]
  exact hrequests'

end Flush

/-! ## Over the wire -/

section Wire

variable {room : String} {w w' : Wire} {p p' : Publisher}

theorem run_failed {w w' : Wire} {p p' : Publisher} {e : Errand} {result : Except TransportFault String}
    (h : p.run (Wire.post room) w e = (w', p', result)) : w.failed + (if result.isOk then 0 else 1) ≤ w'.failed := by
  obtain ⟨w₁, answer, hsend, hcases⟩ := run_cases h
  have hfailed := Wire.post_failed hsend
  rcases hcases with ⟨p₁, e₁, hheard, hrun⟩ | ⟨rfl, hheard⟩
  · have := run_failed hrun
    omega
  · rw [result_of_heard_ended hheard]
    exact Nat.le_of_eq hfailed.symm
termination_by e.posts
decreasing_by exact posts_lt_of_heard_next hheard

theorem openUp_failed {result : Except TransportFault String}
    (h : p.openUp (Wire.post room) w = (w', p', result)) : w.failed ≤ w'.failed := by
  unfold openUp at h
  split at h
  · cases h
    exact Nat.le_refl _
  · exact Nat.le_trans (Nat.le_add_right _ _) (run_failed h)

theorem flush_failed {r : Reply} {fault : Option Fault} (h : p.flush (Wire.post room) w r = (w', p', fault)) :
    w.failed + fault.toList.length ≤ w'.failed := by
  rcases flush_cases h with ⟨id, hpublish, rfl⟩ | ⟨cause, w₁, p₁, result, hpublish, hreport, rfl⟩
  · exact run_failed hpublish
  · have hfirst : w.failed + 1 ≤ w₁.failed := run_failed hpublish
    have hsecond := run_failed hreport
    simp only [Option.toList_some, List.length_singleton]
    omega

theorem flushAll_failed {rs : List Reply} {faults : List Fault}
    (h : p.flushAll (Wire.post room) w rs = (w', p', faults)) : w.failed + faults.length ≤ w'.failed := by
  induction rs generalizing w p faults with
  | nil =>
    cases h
    exact Nat.le_refl _
  | cons r rs ih =>
    cases hflush : p.flush (Wire.post room) w r with
    | mk w₁ rest =>
      obtain ⟨p₁, fault⟩ := rest
      cases hrest : p₁.flushAll (Wire.post room) w₁ rs
      simp only [flushAll, hflush, hrest] at h
      cases h
      have := flush_failed hflush
      have := ih hrest
      rw [List.length_append]
      omega

theorem faultless_of_failed {w₁ w₂ : Wire} {p₁ p₂ : Publisher} {result : Except TransportFault String}
    {rs : List Reply} {r : Reply} {faults : List Fault} {fault : Option Fault}
    (hopen : p.openUp (Wire.post room) w = (w₁, p₁, result))
    (hflushes : p₁.flushAll (Wire.post room) w₁ rs = (w₂, p₂, faults))
    (hlast : p₂.flush (Wire.post room) w₂ r = (w', p', fault)) (hsends : w'.failed = w.failed) :
    faults = [] ∧ fault = none := by
  have hopened := openUp_failed hopen
  have hbefore := flushAll_failed hflushes
  have hbehind := flush_failed hlast
  exact ⟨List.length_eq_zero_iff.1 (by omega), Option.toList_eq_nil_iff.1 (List.length_eq_zero_iff.1 (by omega))⟩

/-- When a publish fails, the last send is a report or has failed itself. -/
theorem flush_lastResult {r : Reply} {fault : Fault} (h : p.flush (Wire.post room) w r = (w', p', some fault)) :
    ∀ x, w'.lastResult = some (.ok x) → x.isReport = true := by
  intro x hx
  rcases flush_cases h with ⟨_, _, hnone⟩ | ⟨cause, w₁, p₁, result, -, hreport, -⟩
  · cases hnone
  · obtain ⟨w₃, answer, hsend, ⟨p₂, e, hheard, -⟩ | ⟨rfl, hheard⟩⟩ := run_cases hreport
    · cases answer <;> cases hheard
    · rcases Wire.post_lastResult hsend with ⟨fault, hfault⟩ | ⟨id, hid⟩
      · rw [hx] at hfault
        cases hfault
      · rw [hx] at hid
        cases hid
        exact entry_post_isReport room id p₁ (.report (Fault.publish cause).message)

theorem report_records {text : String} {result : Except TransportFault String}
    (h : p.report (Wire.post room) w text = (w', p', result)) :
    ∃ r : SendRecord, w'.records = w.timeless.records ++ [r] ∧ r.post = p.post (.report text) := by
  obtain ⟨w₁, answer, hsend, ⟨p₁, e, hheard, -⟩ | ⟨rfl, -⟩⟩ := run_cases h
  · cases answer <;> cases hheard
  · obtain ⟨r, hrecords, hpost, -⟩ := Wire.post_records hsend
    exact ⟨r, hrecords, hpost⟩

theorem openUp_begins {σ : Type} {send : σ → Post → σ × Except TransportFault String} {sent : σ → List Sent}
    (logs : Logs room send sent) {s s' : σ} {id : String} (hp : p.chain = [])
    (h : p.openUp send s = (s', p', .ok id)) :
    p.Alike p' ∧ p'.firstId = some id ∧ sent s' = sent s ++ [entry room (p.post .opening) id] := by
  have hfirst : p.firstId = none := by simp only [firstId, hp]; rfl
  simp only [openUp, hfirst] at h
  obtain ⟨halike, -⟩ := run_appends logs (fun _ => hfirst) h
  obtain ⟨s₁, answer, hsend, ⟨p₁, e, hheard, -⟩ | ⟨rfl, hheard⟩⟩ := run_cases h
  · cases answer <;> cases hheard
  · cases answer with
    | error fault => cases hheard
    | ok id' =>
      cases hheard
      refine ⟨halike, ?_, logs.accepted hsend⟩
      obtain ⟨tally, htally⟩ := counted_eq p (p.post .opening)
      rw [htally]
      simp only [opened, hp]
      rfl

/-- Behind a row of flushes of which the last went through, the events show
its reply, but for the reports; every report is in place of the first event,
and there is none when nothing failed. -/
theorem shows_of_flushAll {w₁ w₂ w₃ : Wire} {p₁ p₂ p₃ : Publisher} {first : String} {rs : List Reply} {r : Reply}
    {faults : List Fault} (hp : p.chain = []) (hopen : p.openUp (Wire.post room) w = (w₁, p₁, .ok first))
    (hflushes : p₁.flushAll (Wire.post room) w₁ rs = (w₂, p₂, faults))
    (hlast : p₂.flush (Wire.post room) w₂ r = (w₃, p₃, none))
    (hfollows : List.IsChain (Reply.Follows p.ceiling) (rs ++ [r])) :
    p.Alike p₃ ∧ p₃.firstId = some first ∧
      ∃ more full, w₃.backend.sent = w.backend.sent ++ (entry room (p.post .opening) first :: more) ∧
        p₃.Shows (entry room (p.post .opening) first :: more) r full ∧
        (∀ x ∈ entry room (p.post .opening) first :: more, x.isReport = true → x.place = first) ∧
        (faults = [] → ∀ x ∈ entry room (p.post .opening) first :: more, x.isReport = false) := by
  have logs := Wire.post_logs room
  obtain ⟨halike, hfirst, hopened⟩ := openUp_begins logs hp hopen
  obtain ⟨requests, hrequests, hreplies, hnone⟩ := respondAll_of_flushAll hflushes
  rcases flush_cases hlast with ⟨id, hpublish, -⟩ | ⟨_, _, _, _, _, _, hnone⟩
  rotate_left
  · cases hnone
  have hcarries : p₁.Carries [entry room (p.post .opening) first] .empty [] :=
    (Carries.of_chain_nil hp .empty).openUp logs hopen (List.append_nil _).symm hopened
      (by simp [Sent.DistinctIds, List.filter_cons]; split <;> simp)
  have hchain : List.IsChain (Reply.Follows p₁.ceiling) (.empty :: (requests.filterMap (·.reply?) ++ [r])) := by
    rw [hreplies, halike.ceiling, List.isChain_cons]
    exact ⟨fun r' _ => .inl ⟨List.nil_prefix, List.nil_prefix⟩, hfollows⟩
  obtain ⟨halike', more, hmore, hposted, hshows⟩ := hcarries.shows_of_publish logs hopened hchain hrequests hpublish
  have hsent : w₃.backend.sent = w.backend.sent ++ (entry room (p.post .opening) first :: more) := by
    rw [hmore, hopened, List.append_assoc]
    rfl
  have hnumbered : w₃.backend.Numbered w.backend.sent.length := by
    have hkeeps : ∀ {v v' : Wire} {post answer}, v.backend.Numbered w.backend.sent.length →
        Wire.post room v post = (v', answer) → v'.backend.Numbered w.backend.sent.length := Wire.post_numbered
    have hopened' : w₁.backend.Numbered w.backend.sent.length := by
      simp only [openUp, show p.firstId = none by simp only [firstId, hp]; rfl] at hopen
      exact run_preserves hkeeps (Backend.numbered_self _) hopen
    exact run_preserves hkeeps (respondAll_preserves hkeeps hopened' hrequests) hpublish
  obtain ⟨full, hfull⟩ := hshows (hnumbered.distinctIds hsent)
  refine ⟨halike.trans halike', halike'.begins first hfirst, more, full, hsent, hfull, ?_, ?_⟩
  · intro x hx hreport
    rcases List.mem_cons.1 hx with rfl | hx
    · rw [entry_post_isReport] at hreport
      cases hreport
    · obtain ⟨q, -, hx⟩ := hposted x hx
      rw [hx.isReport_eq] at hreport
      rw [hreport] at hx
      exact hx.place_eq hfirst
  · intro hfaults x hx
    rcases List.mem_cons.1 hx with rfl | hx
    · exact entry_post_isReport room first p .opening
    · obtain ⟨q, hq, hx⟩ := hposted x hx
      rw [hx.isReport_eq]
      rw [hnone hfaults] at hq
      rcases List.mem_append.1 hq with hq | hq
      · obtain ⟨reply, -, rfl⟩ := List.mem_map.1 hq
        rfl
      · obtain rfl := List.mem_singleton.1 hq
        rfl

end Wire

end ReplyStream.Publisher
