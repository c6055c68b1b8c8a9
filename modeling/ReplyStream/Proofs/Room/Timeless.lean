/-
Sends without their times. When a send begins and when it ends plays no part
in what it does, except for the time that is kept in its record: the wire
without these times (`Wire.timeless`) takes a send in one go (`Wire.post`),
or, when it has begun, its second half (`Wire.land`).

Of the records only the results are of interest here: how many sends failed
(`Wire.failed`), and what came of the last one (`Wire.lastResult`).
-/
import ReplyStream.Proofs.Room.Shown

namespace ReplyStream.Wire

/-- The wire without the times in its records. -/
def timeless (w : Wire) : Wire := { w with records := w.records.map fun r => { r with time := 0 } }

@[simp] theorem timeless_backend (w : Wire) : w.timeless.backend = w.backend := rfl

@[simp] theorem timeless_length (w : Wire) : w.timeless.records.length = w.records.length := List.length_map _

/-- A send from beginning to end, at no time. -/
def post (room : String) (w : Wire) (p : Post) : Wire × Except TransportFault String :=
  let ((w, _), result) := send room (w, 0) p
  (w.timeless, result)

/-- The end of a send that has begun, at no time. -/
def land (room : String) (w : Wire) (p : Post) : Wire × Except TransportFault String :=
  let (w, result) := w.deliver 0 room p
  (w.timeless, result)

theorem land_of_deliver {w w' : Wire} {now : Nat} {room : String} {p : Post} {result : Except TransportFault String}
    (h : w.deliver now room p = (w', result)) : land room w.timeless p = (w'.timeless, result) := by
  cases hsend : w.backend.send room p with
  | mk b sent =>
    simp only [deliver, hsend] at h
    cases h
    simp [land, deliver, timeless, hsend, Function.comp_def]

theorem post_of_begin_error {w w' : Wire} {now : Nat} {p : Post} {fault : TransportFault} (room : String)
    (h : w.begin now p = (w', .error fault)) : post room w.timeless p = (w'.timeless, .error fault) := by
  unfold begin at h
  split at h
  next fault' hplan =>
    cases h
    simp only [post, send, begin, show w.timeless.outcomes.head? = some (.lost fault) from hplan]
    simp [timeless, Function.comp_def]
  · cases h
  · cases h

theorem post_of_begin_ok {w w' : Wire} {now duration : Nat} {p : Post} (room : String)
    (h : w.begin now p = (w', .ok duration)) : post room w.timeless p = land room w'.timeless p := by
  unfold begin at h
  split at h
  · cases h
  next hplan =>
    cases h
    simp only [post, send, begin, show w.timeless.outcomes.head? = some .failing from hplan]
    simp [land, deliver, timeless, Function.comp_def]
  next hlost hfailing =>
    cases h
    have hbegin : w.timeless.begin 0 p =
        ({ w.timeless with begun := w.begun + 1, outcomes := w.outcomes.tail }, .ok (w.latency w.begun)) := by
      unfold begin
      split
      next fault hplan => exact absurd hplan (hlost fault)
      next hplan => exact absurd hplan hfailing
      next => rfl
    simp only [post, send, hbegin]
    simp [land, deliver, timeless, Function.comp_def]

theorem send_of_post {w w' : Wire} {room : String} {p : Post} {result : Except TransportFault String}
    (h : post room w p = (w', result)) : ∃ v now, send room (w, 0) p = ((v, now), result) ∧ w' = v.timeless := by
  cases hsend : send room (w, 0) p with
  | mk s result' =>
    simp only [post, hsend] at h
    obtain ⟨hw, rfl⟩ := Prod.mk.inj h
    exact ⟨s.1, s.2, rfl, hw.symm⟩

theorem post_logs (room : String) : Logs room (post room) (·.backend.sent) where
  accepted h := by
    obtain ⟨v, now, hsend, rfl⟩ := send_of_post h
    exact (send_logs room).accepted hsend
  refused h := by
    obtain ⟨v, now, hsend, rfl⟩ := send_of_post h
    exact (send_logs room).refused hsend

theorem post_numbered {n : Nat} {room : String} {w w' : Wire} {p : Post} {result : Except TransportFault String}
    (hw : w.backend.Numbered n) (h : post room w p = (w', result)) : w'.backend.Numbered n := by
  obtain ⟨v, now, hsend, rfl⟩ := send_of_post h
  rw [timeless_backend]
  rcases send_cases hsend with ⟨_, count, -, hb⟩ | ⟨content, -, -, -, hb⟩
  · rw [hb]
    exact hw.failNext count
  · rw [hb]
    exact hw.enter room p content

/-! ## Results -/

/-- How many sends have failed. -/
def failed (w : Wire) : Nat := w.records.countP fun r => !r.result.isOk

/-- What came of the last send. -/
def lastResult (w : Wire) : Option (Except TransportFault Sent) := w.records.getLast?.map (·.result)

@[simp] theorem timeless_failed (w : Wire) : w.timeless.failed = w.failed := by
  simp only [failed, timeless, List.countP_map]
  rfl

@[simp] theorem timeless_lastResult (w : Wire) : w.timeless.lastResult = w.lastResult := by
  simp only [lastResult, timeless, List.getLast?_map, Option.map_map]
  rfl

theorem begin_error_records {w w' : Wire} {now : Nat} {p : Post} {fault : TransportFault}
    (h : w.begin now p = (w', .error fault)) : w'.records = w.records ++ [⟨now, p, .error fault⟩] := by
  unfold begin at h
  split at h <;> cases h
  rfl

theorem begin_ok_records {w w' : Wire} {now duration : Nat} {p : Post} (h : w.begin now p = (w', .ok duration)) :
    w'.records = w.records := by
  unfold begin at h
  split at h <;> cases h <;> rfl

/-- A send leaves a record of what it sent, or of its fault. -/
theorem send_records {w w' : Wire} {now now' : Nat} {room : String} {p : Post}
    {result : Except TransportFault String} (h : send room (w, now) p = ((w', now'), result)) :
    ∃ r : SendRecord, w'.records = w.records ++ [r] ∧ r.post = p ∧
      ((∃ fault, result = .error fault ∧ r.result = .error fault) ∨
        ∃ id, result = .ok id ∧ r.result = .ok ⟨id, room, p.addressed, p.target⟩) := by
  simp only [send] at h
  split at h
  next v fault hv =>
    cases h
    exact ⟨_, begin_error_records hv, rfl, .inl ⟨fault, rfl, rfl⟩⟩
  next v duration hv =>
    cases hsend : v.backend.send room p with
    | mk b sent =>
      simp only [deliver, hsend] at h
      cases h
      refine ⟨_, congrArg (· ++ _) (begin_ok_records hv), rfl, ?_⟩
      cases sent with
      | error fault => exact .inl ⟨fault, rfl, rfl⟩
      | ok x =>
        rcases Backend.send_cases hsend with ⟨_, _, he, -⟩ | ⟨_, -, -, he, -⟩
        · cases he
        · cases he
          exact .inr ⟨_, rfl, rfl⟩

/-- A send at no time leaves one more record, of what it sent and its result. -/
theorem post_records {w w' : Wire} {room : String} {p : Post} {result : Except TransportFault String}
    (h : post room w p = (w', result)) :
    ∃ r : SendRecord, w'.records = w.timeless.records ++ [r] ∧ r.post = p ∧
      r.result.map (·.eventId) = result := by
  obtain ⟨v, now, hsend, rfl⟩ := send_of_post h
  obtain ⟨r, hr, hpost, hresult⟩ := send_records hsend
  refine ⟨{ r with time := 0 }, by simp [timeless, hr], hpost, ?_⟩
  rcases hresult with ⟨fault, rfl, hfault⟩ | ⟨id, rfl, hid⟩
  · rw [hfault]
    rfl
  · rw [hid]
    rfl

theorem post_length_lt {w w' : Wire} {room : String} {p : Post} {result : Except TransportFault String}
    (h : post room w p = (w', result)) : w.records.length < w'.records.length := by
  obtain ⟨r, hr, -⟩ := post_records h
  rw [hr, List.length_append, timeless_length]
  exact Nat.lt_succ_self _

theorem getLast?_of_timeless {w : Wire} {before : List SendRecord} {r : SendRecord}
    (h : w.timeless.records = before ++ [r]) :
    w.records.length = before.length + 1 ∧ ∃ r', w.records.getLast? = some r' ∧ r'.post = r.post := by
  have hlength := congrArg List.length h
  have hlast := congrArg List.getLast? h
  simp only [timeless, List.length_map, List.length_append, List.length_singleton] at hlength
  simp only [timeless, List.getLast?_map, List.getLast?_concat] at hlast
  obtain ⟨r', hr', rfl⟩ := Option.map_eq_some_iff.1 hlast
  exact ⟨hlength, r', hr', rfl⟩

theorem post_failed {w w' : Wire} {room : String} {p : Post} {result : Except TransportFault String}
    (h : post room w p = (w', result)) : w'.failed = w.failed + if result.isOk then 0 else 1 := by
  obtain ⟨v, now, hsend, rfl⟩ := send_of_post h
  rw [timeless_failed]
  obtain ⟨r, hr, -, ⟨fault, rfl, hfault⟩ | ⟨id, rfl, hid⟩⟩ := send_records hsend
  · simp [failed, hr, hfault, Except.isOk, Except.toBool]
  · simp [failed, hr, hid, Except.isOk, Except.toBool]

theorem post_lastResult {w w' : Wire} {room : String} {p : Post} {result : Except TransportFault String}
    (h : post room w p = (w', result)) : (∃ fault, w'.lastResult = some (.error fault)) ∨
      ∃ id, w'.lastResult = some (.ok ⟨id, room, p.addressed, p.target⟩) := by
  obtain ⟨v, now, hsend, rfl⟩ := send_of_post h
  rw [timeless_lastResult]
  obtain ⟨r, hr, -, ⟨fault, rfl, hfault⟩ | ⟨id, rfl, hid⟩⟩ := send_records hsend
  · left
    exact ⟨fault, by simp [lastResult, hr, hfault]⟩
  · right
    exact ⟨id, by simp [lastResult, hr, hid]⟩

end ReplyStream.Wire
