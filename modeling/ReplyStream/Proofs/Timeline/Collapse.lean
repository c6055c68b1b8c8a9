/-
Chains of any length collapse. Messages each of which is the only one that
continues the one before, the first continuing nothing, are one entry of the
timeline, whatever else is in the room and in whatever order they came
(`reconstruct_collapses`).
-/
import ReplyStream.Proofs.Timeline.Groups

namespace ReplyStream

theorem foldl_append_eq_flatten {α : Type} (lists : List (List α)) : lists.foldl (· ++ ·) [] = lists.flatten := by
  suffices h : ∀ before : List α, lists.foldl (· ++ ·) before = before ++ lists.flatten from h []
  induction lists with
  | nil => simp
  | cons l lists ih =>
    intro before
    rw [List.foldl_cons, ih, List.flatten_cons, List.append_assoc]

/-- The event with other data. -/
def Event.withData (data : Event → Option Json) (e : Event) : Event := { e with content.data := data e }

namespace Timeline

variable {σ : Type}

/-- What is joined has the id of the first, the texts and commands of all, and
the time and state of the last. -/
structure Joins (first : Event) (rest : List Event) (entry : Event) : Prop where
  id : entry.id = first.id
  body : entry.content.body = String.join ((first :: rest).map (·.content.body))
  reasoning : entry.content.reasoning.getD "" = String.join ((first :: rest).filterMap (·.content.reasoning))
  noReasoning : entry.content.reasoning = none ↔ ∀ e ∈ first :: rest, e.content.reasoning = none
  commands : entry.content.commands.getD [] = ((first :: rest).filterMap (·.content.commands)).flatten
  noCommands : entry.content.commands = none ↔ ∀ e ∈ first :: rest, e.content.commands = none
  timestamp : entry.timestamp = (rest.getLastD first).timestamp
  hasContinuation : entry.content.hasContinuation = (rest.getLastD first).content.hasContinuation
  finished : entry.content.finished = (rest.getLastD first).content.finished

/-! ## What an entry shows of its group -/

namespace Group

/-- What is appended to what is there, if there is something to absorb, is joined in an entry. -/
theorem joined_entry {α : Type} [Append α] (part : Event → Option α) {empty : α} (hempty : ∀ a : α, empty ++ a = a)
    (habsorb : ∀ head next : Event,
      part (head.absorb next) = (part next).elim (part head) fun more => some ((part head).getD empty ++ more))
    (g : Group) :
    (part g.entry).getD empty = (g.members.filterMap part).foldl (· ++ ·) empty ∧
      (part g.entry = none ↔ ∀ m ∈ g.members, part m = none) := by
  obtain ⟨head, absorbed⟩ := g
  show (part (absorbed.foldl Event.absorb head)).getD empty = ((head :: absorbed).filterMap part).foldl (· ++ ·) empty ∧
    (part (absorbed.foldl Event.absorb head) = none ↔ ∀ m ∈ head :: absorbed, part m = none)
  induction absorbed generalizing head with
  | nil => cases hpart : part head <;> simp [hpart, hempty]
  | cons next rest ih =>
    obtain ⟨hjoined, hnone⟩ := ih (head.absorb next)
    rw [List.foldl_cons, hjoined, hnone]
    cases hhead : part head <;> cases hnext : part next <;> simp [habsorb, hhead, hnext, hempty]

/-- What absorbing takes over is that of the last message in an entry. -/
theorem last_entry {β : Type} (part : Event → β) (habsorb : ∀ head next : Event, part (head.absorb next) = part next)
    (g : Group) : part g.entry = part (g.absorbed.getLastD g.head) := by
  obtain ⟨head, absorbed⟩ := g
  show part (absorbed.foldl Event.absorb head) = part (absorbed.getLastD head)
  -- what is folded is no longer the message it stands for
  suffices h : ∀ last, part head = part last →
      part (absorbed.foldl Event.absorb head) = part (absorbed.getLastD last) from h head rfl
  induction absorbed generalizing head with
  | nil => exact fun last hlast => hlast
  | cons next rest ih =>
    intro last _
    rw [List.foldl_cons, List.getLastD_cons]
    exact ih (head.absorb next) next (habsorb head next)

theorem joins (g : Group) : Joins g.head g.absorbed g.entry := by
  obtain ⟨hreasoning, hnoReasoning⟩ := joined_entry (·.content.reasoning) (fun text => String.empty_append)
    (fun head next => by cases h : next.content.reasoning <;> simp [Event.absorb, h]) g
  obtain ⟨hcommands, hnoCommands⟩ := joined_entry (·.content.commands) List.nil_append
    (fun head next => by cases h : next.content.commands <;> simp [Event.absorb, h]) g
  exact {
    id := g.id_entry
    body := g.body_entry
    reasoning := hreasoning
    noReasoning := hnoReasoning
    commands := hcommands.trans (foldl_append_eq_flatten _)
    noCommands := hnoCommands
    timestamp := g.last_entry (·.timestamp) fun _ _ => rfl
    hasContinuation := g.last_entry (·.content.hasContinuation) fun _ _ => rfl
    finished := g.last_entry (·.content.finished) fun _ _ => rfl }

end Group

/-! ## References in their places -/

/-- The messages are the newest versions with other data. -/
theorem Messages.exists_data {versions messages : List Event} (h : Messages versions messages) :
    ∃ data, ∀ m, m ∈ messages ↔ ∃ e ∈ survivors versions, e.withData data = m := by
  obtain ⟨newest, hperm, hfilled⟩ := h.newest
  have hright : ∀ e, ∃ data, e ∈ survivors versions → e.withData (fun _ => data) ∈ messages := by
    intro e
    by_cases he : e ∈ survivors versions
    · obtain ⟨m, hm, data, rfl⟩ := exists_right_of_forall₂ hfilled (hperm.mem_iff.2 he)
      exact ⟨data, fun _ => hm⟩
    · exact ⟨none, fun h => absurd h he⟩
  obtain ⟨data, hdata⟩ := Classical.axiomOfChoice hright
  refine ⟨data, fun m => ⟨fun hm => ?_, ?_⟩⟩
  · obtain ⟨e, he, data', rfl⟩ := exists_left_of_forall₂ hfilled hm
    have he := hperm.mem_iff.1 he
    exact ⟨e, he, List.inj_on_of_nodup_map h.distinct (hdata e he) hm rfl⟩
  · rintro ⟨e, he, rfl⟩
    exact hdata e he

section Data

variable {data : Event → Option Json} {first : Event} {rest : List Event}

theorem getLastD_map {f : Event → Event} (first : Event) (rest : List Event) :
    (rest.map f).getLastD (f first) = f (rest.getLastD first) := by
  induction rest generalizing first with
  | nil => rfl
  | cons next rest ih => rw [List.map_cons, List.getLastD_cons, List.getLastD_cons, ih]

theorem Chain.withData {survived messages : List Event} (h : Chain survived first rest)
    (hall : ∀ m, m ∈ messages ↔ ∃ e ∈ survived, e.withData data = m) :
    Chain messages (first.withData data) (rest.map (Event.withData data)) := by
  have hmem : ∀ e ∈ first :: rest, e.withData data ∈ messages :=
    fun e he => (hall _).2 ⟨e, h.mem e he, rfl⟩
  refine ⟨List.forall_mem_map.2 hmem, h.begins, ?_, ?_⟩
  · refine (List.isChain_map (Event.withData data) (l := first :: rest)).2
      (h.linked.imp_of_mem_imp fun e next he hnext hcontinues => ⟨hcontinues.flagged, fun m hm => ?_⟩)
    constructor
    · intro hprevious
      obtain ⟨f, hf, rfl⟩ := (hall m).1 hm
      rw [(hcontinues.only f hf).1 hprevious]
    · rintro rfl
      exact (hcontinues.only next (h.mem next hnext)).2 rfl
  · rw [getLastD_map]
    refine h.ends.imp_right fun hnone m hm => ?_
    obtain ⟨f, hf, rfl⟩ := (hall m).1 hm
    exact hnone f hf

theorem Joins.of_withData {entry : Event} (h : Joins (first.withData data) (rest.map (Event.withData data)) entry) :
    Joins first rest entry := by
  obtain ⟨hid, hbody, hreasoning, hnoReasoning, hcommands, hnoCommands, htime, hflag, hfinished⟩ := h
  rw [← List.map_cons] at hbody hreasoning hnoReasoning hcommands hnoCommands
  rw [List.map_map] at hbody
  rw [List.filterMap_map] at hreasoning hcommands
  rw [List.forall_mem_map] at hnoReasoning hnoCommands
  rw [getLastD_map] at htime hflag hfinished
  exact ⟨hid, hbody, hreasoning, hnoReasoning, hcommands, hnoCommands, htime, hflag, hfinished⟩

end Data

/-- **Chains of any length collapse**, to one entry each. -/
theorem reconstruct_collapses {load : Loader σ} {log : List Event} {s s' : σ} {timeline : List Event}
    (h : (reconstruct load log).Gives s timeline s') :
    ∃ versions, candidates log = .ok versions ∧ ∀ first rest, Chain (survivors versions) first rest →
      ∃ entry, timeline.filter (fun e => ((first :: rest).map (·.id)).contains e.id) = [entry] ∧
        Joins first rest entry := by
  obtain ⟨versions, fragments, messages, hversions, -, hmessages, rfl⟩ := gives_of_reconstruct.1 h
  have hall := messages_of_mapM hmessages
  obtain ⟨groups, hgroups⟩ := stitch_groups messages
  obtain ⟨data, hdata⟩ := hall.exists_data
  refine ⟨versions, hversions, fun first rest hchain => ?_⟩
  have hgroup := hgroups.mem_groups hall.distinct (hchain.withData hdata)
  have hids : (Group.mk (first.withData data) (rest.map (Event.withData data))).members.map (·.id) =
      (first :: rest).map (·.id) := by
    show ((first :: rest).map (Event.withData data)).map (·.id) = _
    exact List.map_map
  have hone := hgroups.filter_ids hall.distinct hgroup
  rw [hids] at hone
  refine ⟨_, ?_, (Group.mk (first.withData data) (rest.map (Event.withData data))).joins.of_withData⟩
  rw [← List.perm_singleton, ← hone]
  exact (List.mergeSort_perm _ _).filter _

/-! A reply the end of which came first, among other messages. -/

def scatteredLog : List Event :=
  [piece "$c" 1 "c" (some "$b") (some true), piece "$a" 2 "a" none (some true), piece "$x" 3 "x" none none,
    { piece "$b" 4 "b" (some "$a") (some true) with content.reasoning := some "why" },
    piece "$y" 5 "y" (some "$x") none]

/-- The reply as one message, and the others: what continues one that is not
flagged stays as it is. -/
def collapsed : List Event :=
  [{ piece "$a" 1 "abc" none (some true) with content.reasoning := some "why" }, piece "$x" 3 "x" none none,
    piece "$y" 5 "y" (some "$x") none]

theorem scatteredLog_gives : (reconstruct (Depot.load 0) scatteredLog).Gives emptyDepot collapsed emptyDepot := by
  have hsorted : byTime scatteredLog = scatteredLog := byTime_of_pairwise (by decide)
  refine gives_of_reconstruct.2 ⟨scatteredLog, [], scatteredLog, rfl, rfl, ?_, ?_⟩
  · rw [show survivors scatteredLog = scatteredLog from rfl, hsorted]
    rfl
  · rw [show stitch scatteredLog = collapsed from rfl]
    exact (byTime_of_pairwise (by decide)).symm

theorem chain_scattered : Chain (survivors scatteredLog) (piece "$a" 2 "a" none (some true))
    [{ piece "$b" 4 "b" (some "$a") (some true) with content.reasoning := some "why" },
      piece "$c" 1 "c" (some "$b") (some true)] := by
  rw [show survivors scatteredLog = scatteredLog from rfl]
  refine ⟨by simp [scatteredLog], rfl, ?_, .inr (by simp [scatteredLog, piece, Content.empty])⟩
  refine .cons_cons ⟨rfl, ?_⟩ (.cons_cons ⟨rfl, ?_⟩ (.singleton _))
  · simp [scatteredLog, piece, Content.empty]
  · simp [scatteredLog, piece, Content.empty]

theorem reconstruct_collapses_scattered :
    (reconstruct (Depot.load 0) scatteredLog).Gives emptyDepot collapsed emptyDepot ∧
      ∃ first rest, Chain (survivors scatteredLog) first rest ∧ (first :: rest).map (·.id) = ["$a", "$b", "$c"] ∧
        ∃ entry, collapsed.filter (fun e => ((first :: rest).map (·.id)).contains e.id) = [entry] ∧
          Joins first rest entry := by
  obtain ⟨versions, hversions, hcollapses⟩ := reconstruct_collapses scatteredLog_gives
  have hcandidates : candidates scatteredLog = .ok scatteredLog := rfl
  have hall : scatteredLog = versions := Except.ok.inj (hcandidates.symm.trans hversions)
  rw [← hall] at hcollapses
  exact ⟨scatteredLog_gives, _, _, chain_scattered, rfl, hcollapses _ _ chain_scattered⟩

end Timeline

end ReplyStream
