/-
Reports and the reply they hide. A fault is reported in place of the first
event, and only the last event of a chain is ever published again: a report
that comes while the first event is also the last gives way to the next
publish, a report that comes later stays. So behind a publish that went
through the chain shows the reply exactly when no report came behind a
message that is continued (`Publisher.Shows.shownBy_iff_timely`).
-/
import ReplyStream.Proofs.Chain.Represent

namespace ReplyStream.Publisher

variable {p : Publisher} {sent : List Sent} {r : Reply} {full : List (String × Part)}

/-- A report goes to the event the chain begins with. -/
theorem Posted.place_eq {room first : String} {x : Sent} (h : Posted room p true x) (hfirst : p.firstId = some first) :
    x.place = first := by
  obtain ⟨q, f, id, halike, hreport, rfl⟩ := h
  cases f with
  | opening => cases hreport
  | publish reply parts => cases hreport
  | report text =>
    have hq : q.firstId = some first := halike.begins first hfirst
    simp only [post, hq]
    rfl

theorem Carries.firstId_eq (h : p.Carries sent r full) : p.firstId = p.eventIds.head? := by
  have hids := h.ids
  have hall := h.eventIds_eq
  cases full with
  | nil =>
    have hlast : p.firstId = p.last.eventId := by
      rcases List.eq_nil_or_concat p.chain with hnil | ⟨init, l, hchain⟩
      · simp only [firstId, last, hnil]
        rfl
      · rw [List.concat_eq_append] at hchain
        rw [hchain, List.dropLast_concat] at hids
        obtain rfl : init = [] := List.map_eq_nil_iff.1 hids
        simp only [firstId, last, hchain]
        rfl
    rw [hlast, hall]
    cases p.last.eventId <;> rfl
  | cons c full =>
    rw [hall]
    cases hchain : p.chain with
    | nil => rw [hchain] at hids; cases hids
    | cons l links =>
      cases links with
      | nil => rw [hchain] at hids; cases hids
      | cons l' links =>
        rw [hchain] at hids
        simp only [firstId, hchain]
        exact (List.cons.inj hids).1

/-- The first event is hidden exactly when a report came behind a message
that is continued; no other event ever is. -/
theorem Shows.hidden_iff (h : p.Shows sent r full)
    (hplaces : ∀ s ∈ sent, s.isReport = true → p.firstId = some s.place) :
    (∃ id ∈ p.eventIds, Sent.Hidden sent id) ↔ ¬Sent.Timely sent := by
  obtain ⟨last, hlast, hshown, -⟩ := h.shown_last
  have hids : p.eventIds = full.map (·.1) ++ [last] := by
    rw [h.eventIds_eq, hlast]
    rfl
  have hfirst := h.firstId_eq
  cases hfull : full with
  | nil =>
    have htimely : Sent.Timely sent := Sent.timely_of_uncut (h.uncut hfull)
    rw [hfull] at hids
    rw [hids]
    constructor
    · rintro ⟨id, hid, hhidden⟩
      obtain rfl := List.mem_singleton.1 hid
      exact absurd hhidden hshown
    · exact fun hlate => absurd htimely hlate
  | cons c full' =>
    have hhead : p.firstId = some c.1 := by
      rw [hfirst, hids, hfull]
      rfl
    obtain ⟨-, hhidden⟩ := h.hidden c (by rw [hfull]; rfl)
    rw [← hhidden fun s hs hreport => ?_]
    · constructor
      · rintro ⟨id, -, hid⟩
        obtain ⟨s, hs, hreport, rfl⟩ := hid.exists_report
        have hplace := hplaces s hs hreport
        rw [hhead] at hplace
        rw [Option.some.inj hplace]
        exact hid
      · intro hid
        refine ⟨c.1, ?_, hid⟩
        rw [hids, hfull]
        exact List.mem_cons_self
    · have hplace := hplaces s hs hreport
      rw [hhead] at hplace
      exact (Option.some.inj hplace).symm

/-- **What becomes of a report.** Behind a publish that went through, with
every report in place of the first event, the events show the reply exactly
when no report came behind a message that is continued. -/
theorem Shows.shownBy_iff_timely (h : p.Shows sent r full)
    (hplaces : ∀ s ∈ sent, s.isReport = true → p.firstId = some s.place) :
    (∃ ms, p.eventIds.map (Sent.shown sent) = ms.map some ∧ r.ShownBy p.ceiling p.eventIds ms) ↔
      Sent.Timely sent := by
  have hiff := h.hidden_iff hplaces
  constructor
  · rintro ⟨ms, hms, hshown⟩
    by_contra hlate
    obtain ⟨id, hid, m, hm, hreport⟩ := hiff.2 hlate
    have hmem : some m ∈ p.eventIds.map (Sent.shown sent) := by
      rw [← hm]
      exact List.mem_map_of_mem hid
    rw [hms] at hmem
    obtain ⟨m', hm', heq⟩ := List.mem_map.1 hmem
    cases heq
    rw [hshown.faultless m hm'] at hreport
    cases hreport
  · intro htimely
    obtain ⟨ids, ms, hchain, hms, hshown⟩ := h.shownBy
    obtain rfl := eventIds_of_map hchain
    refine ⟨ms, ?_, hshown⟩
    rw [← hms]
    apply List.map_congr_left
    intro id hid
    refine ((Sent.hidden_or_shown sent id).resolve_left fun hhidden => ?_).symm
    exact hiff.1 ⟨id, hid, hhidden⟩ htimely

end ReplyStream.Publisher
