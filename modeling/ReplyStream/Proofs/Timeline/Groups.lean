/-
What becomes of every message of a room. Its timeline has all messages that
stand, each in exactly one entry and with its text, and so all messages just
when no two of them continue the same one (`reconstruct_represents`), whatever
else their links are: cycles, heads that are missing or not flagged.
-/
import ReplyStream.Proofs.Timeline.Reconstruct
import ReplyStream.Room.Depot

namespace ReplyStream

namespace Timeline

/-- A timeline is made of groups, and each message that stands is in exactly one. -/
structure Represented (messages timeline : List Event) (groups : List Group) : Prop where
  entries : timeline.Perm (groups.map Group.entry)
  sound : ∀ g ∈ groups, g.Sound
  ids : ∀ g ∈ groups, g.entry.id = g.head.id
  shown : ∀ g ∈ groups, g.entry.content.body = String.join (g.members.map (·.content.body))
  members : (groups.flatMap Group.members).Perm (standing messages)
  once : ((groups.flatMap Group.members).map (·.id)).Nodup

theorem Grouped.represented {messages : List Event} {groups : List Group} (h : Grouped messages groups)
    (hdistinct : (messages.map (·.id)).Nodup) : Represented messages (byTime (stitch messages)) groups where
  entries := by
    rw [← h.entries]
    exact List.mergeSort_perm _ _
  sound := h.sound
  ids g _ := g.id_entry
  shown g _ := g.body_entry
  members := h.members
  once := h.once hdistinct

theorem represented_stitch {messages : List Event} (h : (messages.map (·.id)).Nodup) :
    ∃ groups, Represented messages (byTime (stitch messages)) groups := by
  obtain ⟨groups, hgroups⟩ := stitch_groups messages
  exact ⟨groups, hgroups.represented h⟩

/-- All messages are in groups just when all of them stand. -/
theorem Represented.all_iff {messages timeline : List Event} {groups : List Group}
    (h : Represented messages timeline groups) (hdistinct : (messages.map (·.id)).Nodup) :
    (∀ m ∈ messages, ∃ g ∈ groups, m ∈ g.members) ↔ (messages.filterMap (·.content.continuationOf)).Nodup := by
  have hmem : ∀ m, (∃ g ∈ groups, m ∈ g.members) ↔ m ∈ standing messages := fun m => by
    rw [← h.members.mem_iff, List.mem_flatMap]
  rw [← standing_eq_self_iff]
  simp only [hmem]
  constructor
  · intro hall
    exact (standing_sublist messages).eq_of_length_le
      (List.subperm_of_subset (List.Nodup.of_map _ hdistinct) hall).length_le
  · intro hself m hm
    rw [hself]
    exact hm

/-- **What becomes of every message.** The messages of a room that stand are
all in its timeline, each in exactly one entry and with its text; and these
are all messages just when no two of them continue the same one. -/
theorem reconstruct_represents {σ : Type} {load : Loader σ} {log : List Event} {s s' : σ} {timeline : List Event}
    (h : (reconstruct load log).Gives s timeline s') :
    ∃ versions messages groups, candidates log = .ok versions ∧ Messages versions messages ∧
      Represented messages timeline groups ∧
      ((∀ m ∈ messages, ∃ g ∈ groups, m ∈ g.members) ↔
        (messages.filterMap (·.content.continuationOf)).Nodup) := by
  obtain ⟨versions, fragments, messages, hversions, -, hmessages, rfl⟩ := gives_of_reconstruct.1 h
  have hall := messages_of_mapM hmessages
  obtain ⟨groups, hgroups⟩ := represented_stitch hall.distinct
  exact ⟨versions, messages, groups, hversions, hall, hgroups, hgroups.all_iff hall.distinct⟩

/-! A reply in a room, continued by two messages. -/

/-- A message of a reply, with its links. -/
def piece (id : String) (time : Nat) (body : String) (previous : Option String) (continued : Option Bool) : Event :=
  ⟨id, "!room", "@bot:example.org", .message, time,
    { Content.empty with body, continuationOf := previous, hasContinuation := continued }, none⟩

def forkedLog : List Event :=
  [piece "$a" 1 "a" none (some true), piece "$b" 2 "b" (some "$a") none, piece "$c" 3 "c" (some "$a") none]

/-- No files, and nothing in the cache. -/
def emptyDepot : Depot := ⟨.new (.new "@bot:example.org") (fun _ => 0), .new 0 0⟩

theorem forkedLog_gives :
    (reconstruct (Depot.load 0) forkedLog).Gives emptyDepot [piece "$a" 3 "ac" none none] emptyDepot := by
  have hsorted : byTime forkedLog = forkedLog := byTime_of_pairwise (by decide)
  refine gives_of_reconstruct.2 ⟨forkedLog, [], forkedLog, rfl, rfl, ?_, ?_⟩
  · rw [show survivors forkedLog = forkedLog from rfl, hsorted]
    rfl
  · rw [show stitch forkedLog = [piece "$a" 3 "ac" none none] by rfl, byTime_singleton]

theorem reconstruct_represents_forked :
    ∃ timeline, (reconstruct (Depot.load 0) forkedLog).Gives emptyDepot timeline emptyDepot ∧
      ∃ versions messages groups, candidates forkedLog = .ok versions ∧ Messages versions messages ∧
        Represented messages timeline groups ∧
        ((∀ m ∈ messages, ∃ g ∈ groups, m ∈ g.members) ↔
          (messages.filterMap (·.content.continuationOf)).Nodup) :=
  ⟨_, forkedLog_gives, reconstruct_represents forkedLog_gives⟩

/-- **The first of two continuations is lost.** It is a message of the room,
but in whatever groups the timeline is seen, none has its text. -/
theorem forkedLog_loses :
    ∃ timeline, (reconstruct (Depot.load 0) forkedLog).Gives emptyDepot timeline emptyDepot ∧
      candidates forkedLog = .ok forkedLog ∧
      (∃ m ∈ survivors forkedLog, m.id = "$b" ∧ m.content.body = "b") ∧
      ∀ groups : List Group, timeline.Perm (groups.map Group.entry) →
        ∀ g ∈ groups, ∀ m ∈ g.members, m.content.body ≠ "b" := by
  refine ⟨_, forkedLog_gives, rfl, ⟨piece "$b" 2 "b" (some "$a") none, ?_, rfl, rfl⟩, ?_⟩
  · have hall : survivors forkedLog = forkedLog := rfl
    rw [hall]
    exact List.mem_cons_of_mem _ List.mem_cons_self
  intro groups hperm g hg m hm hbody
  have hentry : g.entry = piece "$a" 3 "ac" none none :=
    List.mem_singleton.1 (hperm.mem_iff.2 (List.mem_map_of_mem hg))
  have hjoined := g.body_entry
  rw [hentry] at hjoined
  have hb : 'b' ∈ (String.join (g.members.map (·.content.body))).toList := by
    rw [String.toList_join, List.mem_flatMap]
    exact ⟨_, List.mem_map_of_mem hm, by rw [hbody]; decide⟩
  rw [← hjoined] at hb
  exact absurd hb (by decide)

end Timeline

end ReplyStream
