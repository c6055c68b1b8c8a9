/-
What is published and what a room logs. A `Message` and the `Content` it is
read as name their fields apart from one another, and agree in each
(`Message.Agrees`): the room can read every message, and from what the room
writes the message is read back (`Message.logged_agrees`).

A message holds its fields in an object (`Message.Holds`), and both sides read
them there; what the content has no field for it keeps among its other keys.
-/
import ReplyStream.Proofs.Event
import ReplyStream.Proofs.Room.Shown

namespace ReplyStream.Message

/-- What a content keeps of a message beside the fields it knows. -/
def keptPairs (m : Message) : List (String × Json) :=
  Json.optionField "format" .str m.format ++ Json.optionField "isCanceled" .bool m.isCanceled ++
  Json.optionField "errorMessage" .str m.errorMessage

theorem Holds.ofJson?_eq {fields : Json.Fields} {m : Message} (h : Holds fields m) :
    ofJson? (.obj fields) = some m := by
  have hstring : ∀ {key : String} {o : Option String}, fields.get? key = o.map .str →
      Json.optional Json.string? (fields.get? key) = some o := by
    intro key o ho
    rw [ho]
    exact Json.optional_map (fun _ _ => rfl) fun _ _ => Json.noConfusion
  have hbool : ∀ {key : String} {o : Option Bool}, fields.get? key = o.map .bool →
      Json.optional Json.bool? (fields.get? key) = some o := by
    intro key o ho
    rw [ho]
    exact Json.optional_map (fun _ _ => rfl) fun _ _ => Json.noConfusion
  have hrelates : Json.optional Relation.ofJson? (fields.get? Key.relatesTo) = some m.relatesTo := by
    rw [h.relatesTo]
    exact Json.optional_map (fun r _ => r.ofJson?_toJson) fun _ _ => Json.noConfusion
  have hcommands : (fields.get? Key.commands).elim (some []) (Json.list? EncodedCommand.ofJson?) =
      some m.commands := by
    rw [h.commands, commandItems]
    by_cases hnone : m.commands = []
    · rw [hnone]
      rfl
    · rw [if_neg (by simpa using hnone)]
      exact Json.list?_map fun c _ => c.ofJson?_toJson
  simp only [ofJson?, Json.record]
  rw [show Json.Source.keyed fields = (Json.obj fields).source 0 from rfl]
  simp only [Json.field_source, Json.fieldD_source, Json.option_source, Json.pure_source, Json.member, Json.required,
    h.body, h.msgtype, h.finished, hstring h.format, hbool h.isCanceled, hstring h.reasoning, hcommands,
    hstring h.continuationOf, hbool h.hasContinuation, hstring h.data, hstring h.errorMessage, hrelates,
    Json.string?, Json.bool?, Option.bind_some, Option.map_some]

theorem ofJson?_toJson (m : Message) : ofJson? m.toJson = some m := by
  rw [toJson_eq]
  exact m.holds_pairs.ofJson?_eq

/-! ## The content a message is read as -/

/-- Keys that a content has no field for hold what is kept of the message. -/
theorem get?_unknown (m : Message) {key : String} (hkey : key ∉ Content.knownKeys) :
    (Json.Fields.ofList m.pairs).get? key = Json.Fields.lastOf m.keptPairs key := by
  simp only [Content.knownKeys, List.mem_cons, List.not_mem_nil, or_false, not_or, eq_comm (a := key)] at hkey
  obtain ⟨hbody, hmsgtype, hdata, hrelates, hreasoning, hcommands, hcontinuation, hcontinued, hfinished⟩ := hkey
  rw [Json.Fields.get?_ofList]
  simp only [pairs, keptPairs, Json.Fields.lastOf_append, Json.Fields.lastOf_nil,
    Json.Fields.lastOf_cons_other hbody, Json.Fields.lastOf_cons_other hmsgtype,
    Json.Fields.lastOf_cons_other hfinished, Json.Fields.lastOf_optionField_other hdata,
    Json.Fields.lastOf_optionField_other hrelates, Json.Fields.lastOf_optionField_other hreasoning,
    Json.Fields.lastOf_optionField_other hcommands, Json.Fields.lastOf_optionField_other hcontinuation,
    Json.Fields.lastOf_optionField_other hcontinued, Option.none_or, Option.or_none]

theorem keptPairs_unknown (m : Message) : ∀ f ∈ m.keptPairs, f.1 ∉ Content.knownKeys := by
  have hkeys : (m.keptPairs.map (·.1)).Sublist ["format", "isCanceled", "errorMessage"] := by
    simp only [keptPairs, List.map_append]
    rw [show ["format", "isCanceled", "errorMessage"] = ["format"] ++ ["isCanceled"] ++ ["errorMessage"] from rfl]
    exact .append (.append (Json.keys_optionField _ _ _) (Json.keys_optionField _ _ _)) (Json.keys_optionField _ _ _)
  have hall : ∀ key ∈ ["format", "isCanceled", "errorMessage"], key ∉ Content.knownKeys := by decide
  exact fun f hf => hall _ (hkeys.subset (List.mem_map_of_mem hf))

/-- A content tells what a message tells: it has the same fields, a command for
each of the message, keeps what it has no field for and nothing else, is
written as the message is, and the message is read back from it. -/
structure Agrees (m : Message) (c : Content) : Prop where
  body : c.body = m.body
  msgtype : c.msgtype = some m.msgtype
  reasoning : c.reasoning = m.reasoning
  continuationOf : c.continuationOf = m.continuationOf
  hasContinuation : c.hasContinuation = m.hasContinuation
  relatesTo : c.relatesTo = m.relatesTo
  data : c.data = m.data.map .str
  finished : c.finished = some m.finished
  commands : c.commands.getD [] = m.commands.map EncodedCommand.toJson
  kept : c.extra = Json.Fields.ofList m.keptPairs
  written : c.toJson = m.toJson
  readBack : ofJson? c.toJson = some m

theorem extra_eq {m : Message} {c : Content} (h : Content.Reads (Json.Fields.ofList m.pairs) c) :
    c.extra = Json.Fields.ofList m.keptPairs := by
  rw [h.extra]
  refine (Json.Fields.ascending_ofList _).filterKeys _ |>.ext (Json.Fields.ascending_ofList _) fun key => ?_
  rw [Json.Fields.get?_filterKeys, Json.Fields.get?_ofList m.keptPairs]
  by_cases hkey : key ∈ Content.knownKeys
  · rw [if_neg (by simpa using hkey)]
    exact (Json.Fields.lastOf_eq_none fun f hf heq => m.keptPairs_unknown f hf (heq ▸ hkey)).symm
  · rw [if_pos (by simpa using hkey), m.get?_unknown hkey]

/-- A content that reads as the message does, and keeps the same, has the same keys. -/
theorem ofList_pairs_eq {m : Message} {c : Content} (hproper : c.Proper)
    (hknown : ∀ key ∈ Content.knownKeys,
      Json.Fields.lastOf c.knownPairs key = (Json.Fields.ofList m.pairs).get? key)
    (hkept : c.extra = Json.Fields.ofList m.keptPairs) :
    Json.Fields.ofList c.pairs = Json.Fields.ofList m.pairs := by
  refine (Json.Fields.ascending_ofList _).ext (Json.Fields.ascending_ofList _) fun key => ?_
  by_cases hkey : key ∈ Content.knownKeys
  · rw [hproper.get?_known hkey, hknown key hkey]
  · rw [hproper.get?_unknown hkey, hkept, Json.Fields.get?_ofList m.keptPairs, m.get?_unknown hkey]

theorem exists_agrees (m : Message) : ∃ c, m.content? = some c ∧ m.Agrees c := by
  obtain ⟨extra, hcontent⟩ := m.content?_eq
  have hreads := hcontent
  rw [content?, toJson_eq, Content.ofJson?_obj] at hreads
  have hkept := extra_eq hreads
  have hholds := m.holds_pairs
  have hpairs := ofList_pairs_eq (hreads.proper (Json.Fields.ascending_ofList _)) (fun key hkey => by
    simp only [Content.knownKeys, List.mem_cons, List.not_mem_nil, or_false] at hkey
    rcases hkey with rfl | rfl | rfl | rfl | rfl | rfl | rfl | rfl | rfl
    all_goals
      simp (disch := decide) only [hholds.body, hholds.msgtype, hholds.data, hholds.relatesTo, hholds.reasoning,
        hholds.commands, hholds.continuationOf, hholds.hasContinuation, hholds.finished, Content.knownPairs,
        Json.Fields.lastOf_append, Json.Fields.lastOf_cons_self, Json.Fields.lastOf_cons_other,
        Json.Fields.lastOf_nil, Json.Fields.lastOf_optionField_self, Json.Fields.lastOf_optionField_other,
        Option.none_or, Option.or_none, Option.map_id, Option.map_some, id]) hkept
  have hwritten := congrArg Json.obj hpairs
  rw [← Content.toJson_eq, ← toJson_eq] at hwritten
  have hcommands : m.commandItems.getD [] = m.commands.map EncodedCommand.toJson := by
    rw [commandItems]
    by_cases hnone : m.commands = []
    · rw [hnone]
      rfl
    · rw [if_neg (by simpa using hnone)]
      rfl
  exact ⟨_, hcontent, {
    body := rfl
    msgtype := rfl
    reasoning := rfl
    continuationOf := rfl
    hasContinuation := rfl
    relatesTo := rfl
    data := rfl
    finished := rfl
    commands := hcommands
    kept := hkept
    written := hwritten
    readBack := by rw [hwritten, ofJson?_toJson] }⟩

/-- What a content keeps of a message, key by key. -/
theorem Agrees.get?_kept {m : Message} {c : Content} (h : m.Agrees c) :
    c.extra.get? "format" = m.format.map .str ∧ c.extra.get? "isCanceled" = m.isCanceled.map .bool ∧
      c.extra.get? "errorMessage" = m.errorMessage.map .str := by
  rw [h.kept]
  refine ⟨?_, ?_, ?_⟩
  all_goals
    rw [Json.Fields.get?_ofList]
    simp (disch := decide) only [keptPairs, Json.Fields.lastOf_append, Json.Fields.lastOf_optionField_self,
      Json.Fields.lastOf_optionField_other, Option.none_or, Option.or_none]

/-- **What is published is what is read.** Every message can be read as the
content of an event. The content agrees with it in every field and holds its
commands in their order, keeps its format, its error and whether it was
canceled beside the keys it knows, is written as the same object, and the
message is read back from that. This is what a backend logs of a post when a
send goes through, which no post keeps it from. -/
theorem logged_agrees (m : Message) :
    (∃ c, m.content? = some c ∧ m.Agrees c ∧ c.extra.get? "format" = m.format.map .str ∧
      c.extra.get? "isCanceled" = m.isCanceled.map .bool ∧
      c.extra.get? "errorMessage" = m.errorMessage.map .str) ∧
    ∀ (b : Backend) (room : String) (p : Post), p.addressed = m → b.failing = 0 →
      ∃ c, m.Agrees c ∧ (b.send room p).1.log = b.log ++ [b.nextEvent room c] ∧
        (b.send room p).2 = .ok (b.nextSent room p) := by
  obtain ⟨c, hcontent, hagrees⟩ := m.exists_agrees
  refine ⟨⟨c, hcontent, hagrees, hagrees.get?_kept⟩, fun b room p hp hfailing => ⟨c, hagrees, ?_⟩⟩
  subst hp
  have hsend : b.send room p = (b.enter room p c, .ok (b.nextSent room p)) := by
    rw [Backend.send, if_neg (by omega), hcontent]
    rfl
  rw [hsend]
  exact ⟨rfl, rfl⟩

end ReplyStream.Message
