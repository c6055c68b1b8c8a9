/-
What every timeline looks like, whatever the log was: its entries are told
apart by their ids, which are those of events of the log, they are in order of
time, and each is a message or the result of a command, no card fragment and
without anything only a log needs (`reconstruct_wellShaped`).

A chain is followed by a walk that takes one continuation after another out of
a table (`Walk`). Whatever the table holds, the walk comes to an end, and
`follow` goes to the end of it (`Walk.ends`).
-/
import Mathlib.Logic.Relation
import ReplyStream.Proofs.Timeline.Groups

namespace ReplyStream

namespace Timeline

variable {σ : Type}

/-! ## The walk along a chain -/

/-- Where the walk along a chain stands. -/
structure Walk where
  /-- The continuations nobody has absorbed. -/
  left : Table Event
  /-- The id of the last event absorbed. -/
  tail : String
  /-- The first event of the chain, with what was absorbed. -/
  head : Event

namespace Walk

/-- One round: the continuation of the last event is taken out and absorbed. -/
inductive Step : Walk → Walk → Prop
  | absorb {w : Walk} {next : Event} (hcontinued : w.head.content.hasContinuation = some true)
      (hnext : w.left.get? w.tail = some next) :
      Step w ⟨w.left.erase w.tail, next.id, w.head.absorb next⟩

theorem Step.lt {w next : Walk} (h : w.Step next) : next.left.length < w.left.length := by
  cases h with
  | absorb _ hnext => exact Table.length_erase_lt hnext

/-- No walk goes on for ever. -/
theorem wellFounded : WellFounded fun next w : Walk => w.Step next :=
  Subrelation.wf Step.lt (measure fun w : Walk => w.left.length).wf

/-- Following a chain goes to the end of the walk along it. -/
def Ends (w : Walk) : Prop :=
  ∃ last, Relation.ReflTransGen Step w last ∧ (∀ next, ¬last.Step next) ∧
    follow w.left.length w.left w.tail w.head = (last.head, last.left)

theorem follow_reaches {limit : Nat} {w : Walk} (hlimit : w.left.length ≤ limit) :
    ∃ last, Relation.ReflTransGen Step w last ∧ (∀ next, ¬last.Step next) ∧
      follow limit w.left w.tail w.head = (last.head, last.left) := by
  induction limit generalizing w with
  | zero =>
    refine ⟨w, .refl, fun next hstep => ?_, rfl⟩
    have hlt := hstep.lt
    omega
  | succ limit ih =>
    rw [follow]
    by_cases hcontinued : w.head.content.hasContinuation = some true
    · rw [if_pos hcontinued]
      cases hnext : w.left.get? w.tail with
      | none =>
        refine ⟨w, .refl, fun next hstep => ?_, rfl⟩
        cases hstep with
        | absorb _ hsome =>
          rw [hnext] at hsome
          cases hsome
      | some next =>
        have hstep : w.Step ⟨w.left.erase w.tail, next.id, w.head.absorb next⟩ := .absorb hcontinued hnext
        have hlt := hstep.lt
        obtain ⟨last, hreaches, hlast, hfollow⟩ := ih (w := ⟨w.left.erase w.tail, next.id, w.head.absorb next⟩)
          (by omega)
        exact ⟨last, hreaches.head hstep, hlast, hfollow⟩
    · rw [if_neg hcontinued]
      refine ⟨w, .refl, fun next hstep => ?_, rfl⟩
      cases hstep with
      | absorb hflag _ => exact hcontinued hflag

theorem ends (w : Walk) : w.Ends := follow_reaches (Nat.le_refl _)

end Walk

/-! ## The entries -/

/-- Absorbing changes nothing but the time, the texts, the commands and the
state of a reply. -/
theorem Group.entry_eq (g : Group) : ∃ timestamp body reasoning commands hasContinuation finished,
    g.entry = { g.head with
      timestamp
      content := { g.head.content with body, reasoning, commands, hasContinuation, finished } } := by
  obtain ⟨head, absorbed⟩ := g
  induction absorbed generalizing head with
  | nil =>
    cases head
    exact ⟨_, _, _, _, _, _, rfl⟩
  | cons next rest ih => exact ih (head.absorb next)

/-- What every timeline looks like. -/
structure WellShaped (versions timeline : List Event) : Prop where
  distinct : (timeline.map (·.id)).Nodup
  inOrder : timeline.Pairwise (·.timestamp ≤ ·.timestamp)
  candidate : ∀ entry ∈ timeline, entry.isCandidate = true
  whole : ∀ entry ∈ timeline, entry.isFragment = false
  unrelated : ∀ entry ∈ timeline, entry.content.relatesTo = none
  unsigned : ∀ entry ∈ timeline, entry.unsigned = none
  known : ∀ entry ∈ timeline, ∃ v ∈ versions, v.effectiveId = entry.id

/-- An entry looks as the version it shows, or the first of several. -/
theorem Represented.exists_version {log versions messages timeline : List Event} {groups : List Group}
    (h : Represented messages timeline groups) (hmessages : Messages versions messages)
    (hversions : candidates log = .ok versions) {entry : Event} (hentry : entry ∈ timeline) :
    entry.isCandidate = true ∧ entry.isFragment = false ∧ entry.content.relatesTo = none ∧ entry.unsigned = none ∧
      ∃ v ∈ versions, v.effectiveId = entry.id := by
  obtain ⟨g, hg, rfl⟩ := List.mem_map.1 (h.entries.mem_iff.1 hentry)
  have hhead : g.head ∈ messages :=
    (standing_sublist messages).mem (h.members.mem_iff.1 (List.mem_flatMap.2 ⟨g, hg, List.mem_cons_self⟩))
  obtain ⟨v, hv, hwhole, data, hfilled⟩ := hmessages.exists_version hhead
  obtain ⟨-, -, hunsigned, hcandidate, -⟩ := exists_raw_of_candidates hversions hv
  obtain ⟨timestamp, body, reasoning, commands, hasContinuation, finished, hentry⟩ := g.entry_eq
  rw [hentry, hfilled]
  exact ⟨hcandidate, hwhole, rfl, hunsigned, v, hv, rfl⟩

theorem Represented.nodup_ids {messages timeline : List Event} {groups : List Group}
    (h : Represented messages timeline groups) : (timeline.map (·.id)).Nodup := by
  have hids : (groups.map Group.entry).map (·.id) = groups.map (·.head.id) := by
    rw [List.map_map]
    exact List.map_congr_left h.ids
  rw [(h.entries.map _).nodup_iff, hids]
  exact nodup_heads h.once

theorem Represented.wellShaped {log versions messages timeline : List Event} {groups : List Group}
    (h : Represented messages timeline groups) (hmessages : Messages versions messages)
    (hversions : candidates log = .ok versions) (hordered : timeline.Pairwise (·.timestamp ≤ ·.timestamp)) :
    WellShaped versions timeline where
  distinct := h.nodup_ids
  inOrder := hordered
  candidate _ hentry := (h.exists_version hmessages hversions hentry).1
  whole _ hentry := (h.exists_version hmessages hversions hentry).2.1
  unrelated _ hentry := (h.exists_version hmessages hversions hentry).2.2.1
  unsigned _ hentry := (h.exists_version hmessages hversions hentry).2.2.2.1
  known _ hentry := (h.exists_version hmessages hversions hentry).2.2.2.2

/-- **What every timeline looks like**, and that making it comes to an end. -/
theorem reconstruct_wellShaped {load : Loader σ} {log : List Event} {s s' : σ} {timeline : List Event}
    (h : (reconstruct load log).Gives s timeline s') :
    (∃ versions, candidates log = .ok versions ∧ WellShaped versions timeline) ∧
      (WellFounded fun next w : Walk => w.Step next) ∧ ∀ w : Walk, w.Ends := by
  obtain ⟨versions, fragments, messages, hversions, -, hmessages, rfl⟩ := gives_of_reconstruct.1 h
  have hall := messages_of_mapM hmessages
  obtain ⟨groups, hgroups⟩ := represented_stitch hall.distinct
  exact ⟨⟨versions, hversions, hgroups.wellShaped hall hversions (pairwise_byTime _)⟩, Walk.wellFounded, Walk.ends⟩

/-! A room with a fork, two messages that continue each other and one that
continues itself. -/

def tangledLog : List Event :=
  forkedLog ++ [piece "$d" 4 "d" (some "$e") (some true), piece "$e" 5 "e" (some "$d") (some true),
    piece "$f" 6 "f" (some "$f") (some true)]

/-- What is left of them; the last continuation of each message counts. -/
def untangled : List Event :=
  [piece "$a" 3 "ac" none none, piece "$d" 4 "d" (some "$e") (some true), piece "$e" 5 "e" (some "$d") (some true),
    piece "$f" 6 "f" (some "$f") (some true)]

theorem tangledLog_gives : (reconstruct (Depot.load 0) tangledLog).Gives emptyDepot untangled emptyDepot := by
  have hsorted : byTime tangledLog = tangledLog := byTime_of_pairwise (by decide)
  refine gives_of_reconstruct.2 ⟨tangledLog, [], tangledLog, rfl, rfl, ?_, ?_⟩
  · rw [show survivors tangledLog = tangledLog from rfl, hsorted]
    rfl
  · rw [show stitch tangledLog = untangled from rfl]
    exact (byTime_of_pairwise (by decide)).symm

theorem reconstruct_wellShaped_tangled :
    (reconstruct (Depot.load 0) tangledLog).Gives emptyDepot untangled emptyDepot ∧
      (∃ versions, candidates tangledLog = .ok versions ∧ WellShaped versions untangled) ∧
        (WellFounded fun next w : Walk => w.Step next) ∧ ∀ w : Walk, w.Ends :=
  ⟨tangledLog_gives, reconstruct_wellShaped tangledLog_gives⟩

end Timeline

end ReplyStream
