/-
What is published is what is read. A message is read in a room with the
texts, the flags and the links it was published with (`Message.content?_eq`),
and the data that names its agent is read out of its text again
(`Message.parse?_agentData`).
-/
import ReplyStream.Message
import ReplyStream.Proofs.Json.Fields
import ReplyStream.Proofs.Json.Quoted

namespace ReplyStream

theorem Relation.ofJson?_toJson (r : Relation) : Relation.ofJson? r.toJson = some r := by
  obtain ⟨pairs, hpairs⟩ : ∃ pairs, pairs = [("rel_type", Json.str r.kind), ("event_id", .str r.eventId)] := ⟨_, rfl⟩
  have hkind : Json.field "rel_type" Json.string? (.keyed (.ofList pairs)) = some (r.kind, .keyed (.ofList pairs)) :=
    Json.field_ofList (v := .str r.kind) (by rw [hpairs]; rfl) rfl
  have hid : Json.field "event_id" Json.string? (.keyed (.ofList pairs)) =
      some (r.eventId, .keyed (.ofList pairs)) :=
    Json.field_ofList (v := .str r.eventId) (by rw [hpairs]; rfl) rfl
  have hjson : r.toJson = .obj (Json.Fields.ofList pairs) := by rw [hpairs]; rfl
  rw [hjson]
  simp only [Relation.ofJson?, Json.record, bind, StateT.bind, hkind, hid, Option.bind_some]
  rfl

theorem EncodedCommand.ofJson?_toJson (c : EncodedCommand) : EncodedCommand.ofJson? c.toJson = some c := by
  obtain ⟨pairs, hpairs⟩ : ∃ pairs, pairs =
      [("id", Json.str c.id), ("name", .str c.name), ("arguments", .str c.arguments)] := ⟨_, rfl⟩
  have hid : Json.field "id" Json.string? (.keyed (.ofList pairs)) = some (c.id, .keyed (.ofList pairs)) :=
    Json.field_ofList (v := .str c.id) (by rw [hpairs]; rfl) rfl
  have hname : Json.field "name" Json.string? (.keyed (.ofList pairs)) = some (c.name, .keyed (.ofList pairs)) :=
    Json.field_ofList (v := .str c.name) (by rw [hpairs]; rfl) rfl
  have harguments : Json.field "arguments" Json.string? (.keyed (.ofList pairs)) =
      some (c.arguments, .keyed (.ofList pairs)) :=
    Json.field_ofList (v := .str c.arguments) (by rw [hpairs]; rfl) rfl
  have hjson : c.toJson = .obj (Json.Fields.ofList pairs) := by rw [hpairs]; rfl
  rw [hjson]
  simp only [EncodedCommand.ofJson?, Json.record, bind, StateT.bind, hid, hname, harguments, Option.bind_some]
  rfl

namespace Message

/-- The commands as they stand in an event; nothing when there are none. -/
def commandItems (m : Message) : Option (List Json) :=
  if m.commands.isEmpty then none else some (m.commands.map EncodedCommand.toJson)

/-- The fields of a message, where some are left out when they are absent. -/
def pairs (m : Message) : List (String × Json) :=
  [("body", .str m.body), ("msgtype", .str m.msgtype)] ++ Json.optionField "format" .str m.format ++
  [(Key.finished, .bool m.finished)] ++ Json.optionField "isCanceled" .bool m.isCanceled ++
  Json.optionField Key.reasoning .str m.reasoning ++ Json.optionField Key.commands .arr m.commandItems ++
  Json.optionField Key.continuationOf .str m.continuationOf ++
  Json.optionField Key.hasContinuation .bool m.hasContinuation ++ Json.optionField "data" .str m.data ++
  Json.optionField "errorMessage" .str m.errorMessage ++
  Json.optionField Key.relatesTo Relation.toJson m.relatesTo

theorem toJson_eq (m : Message) : m.toJson = .obj (Json.Fields.ofList m.pairs) := by
  have hcommands : (if m.commands.isEmpty then [] else
      [(Key.commands, Json.arr (m.commands.map EncodedCommand.toJson))]) =
        Json.optionField Key.commands .arr m.commandItems := by
    unfold commandItems
    split <;> rfl
  rw [toJson, hcommands]
  rfl

/-- The fields hold the message. -/
structure Holds (fields : Json.Fields) (m : Message) : Prop where
  body : fields.get? "body" = some (.str m.body)
  msgtype : fields.get? "msgtype" = some (.str m.msgtype)
  format : fields.get? "format" = m.format.map .str
  finished : fields.get? Key.finished = some (.bool m.finished)
  isCanceled : fields.get? "isCanceled" = m.isCanceled.map .bool
  reasoning : fields.get? Key.reasoning = m.reasoning.map .str
  commands : fields.get? Key.commands = m.commandItems.map .arr
  continuationOf : fields.get? Key.continuationOf = m.continuationOf.map .str
  hasContinuation : fields.get? Key.hasContinuation = m.hasContinuation.map .bool
  data : fields.get? "data" = m.data.map .str
  errorMessage : fields.get? "errorMessage" = m.errorMessage.map .str
  relatesTo : fields.get? Key.relatesTo = m.relatesTo.map Relation.toJson

theorem holds_pairs (m : Message) : Holds (Json.Fields.ofList m.pairs) m := by
  have hget := Json.Fields.get?_ofList m.pairs
  simp only [pairs, Json.Fields.lastOf_append] at hget
  constructor
  all_goals
    rw [pairs, hget]
    simp (disch := decide) only [Json.Fields.lastOf_cons_self, Json.Fields.lastOf_cons_other,
      Json.Fields.lastOf_nil, Json.Fields.lastOf_optionField_self, Json.Fields.lastOf_optionField_other,
      Option.none_or, Option.or_none]

/-- Every message can be read, and reads as it was written. -/
theorem content?_eq (m : Message) :
    ∃ extra, m.content? = some ⟨m.body, some m.msgtype, m.data.map .str, m.relatesTo, m.reasoning,
      m.commandItems, m.continuationOf, m.hasContinuation, some m.finished, extra⟩ := by
  obtain ⟨fs, hfs⟩ : ∃ fs, fs = Json.Fields.ofList m.pairs := ⟨_, rfl⟩
  have h : Holds fs m := hfs ▸ m.holds_pairs
  have hbody : Json.fieldD "body" Json.string? "" (.keyed fs) = some (m.body, .keyed fs) :=
    Json.fieldD_keyed h.body rfl
  have hmsgtype : Json.option "msgtype" Json.string? (.keyed fs) = some (some m.msgtype, .keyed fs) :=
    Json.option_keyed (o := some m.msgtype) h.msgtype (fun _ _ => rfl) (fun _ _ => Json.noConfusion)
  have hdata : Json.option "data" some (.keyed fs) = some (m.data.map .str, .keyed fs) := by
    refine Json.option_keyed (o := m.data.map .str) (w := id) (by rw [h.data, Option.map_id_fun, id]) (fun _ _ => rfl) ?_
    intro v hv
    obtain ⟨text, -, rfl⟩ := Option.map_eq_some_iff.1 hv
    exact Json.noConfusion
  have hrelates : Json.option Key.relatesTo Relation.ofJson? (.keyed fs) = some (m.relatesTo, .keyed fs) :=
    Json.option_keyed h.relatesTo (fun r _ => r.ofJson?_toJson) (fun _ _ => Json.noConfusion)
  have hreasoning : Json.option Key.reasoning Json.string? (.keyed fs) = some (m.reasoning, .keyed fs) :=
    Json.option_keyed h.reasoning (fun _ _ => rfl) (fun _ _ => Json.noConfusion)
  have hcommands : Json.option Key.commands (Json.list? some) (.keyed fs) = some (m.commandItems, .keyed fs) :=
    Json.option_keyed h.commands (fun items _ => Json.list?_some items) (fun _ _ => Json.noConfusion)
  have hcontinuation : Json.option Key.continuationOf Json.string? (.keyed fs) =
      some (m.continuationOf, .keyed fs) :=
    Json.option_keyed h.continuationOf (fun _ _ => rfl) (fun _ _ => Json.noConfusion)
  have hcontinued : Json.option Key.hasContinuation Json.bool? (.keyed fs) =
      some (m.hasContinuation, .keyed fs) :=
    Json.option_keyed h.hasContinuation (fun _ _ => rfl) (fun _ _ => Json.noConfusion)
  have hfinished : Json.option Key.finished Json.bool? (.keyed fs) = some (some m.finished, .keyed fs) :=
    Json.option_keyed (o := some m.finished) h.finished (fun _ _ => rfl) (fun _ _ => Json.noConfusion)
  refine ⟨fs.filterKeys (!Content.knownKeys.contains ·), ?_⟩
  rw [content?, toJson_eq, ← hfs]
  simp only [Content.ofJson?, Json.keyedRecord, bind, StateT.bind, hbody, hmsgtype, hdata, hrelates, hreasoning,
    hcommands, hcontinuation, hcontinued, hfinished, Option.bind_some]
  rfl

/-- What the data of a message holds that names an agent. -/
def agentData (agent : String) : Json := .obj [("context", .obj [("agentId", .str agent)])]

theorem parse?_agentData (agent : String) : Json.parse? (agentData agent).compact = some (agentData agent) := by
  obtain ⟨cs, hcs⟩ : ∃ cs, cs = Json.Writer.value (agentData agent) := ⟨_, rfl⟩
  have hlength : 2 ≤ cs.length := by
    simp [hcs, agentData, Json.Writer.value]
    omega
  have hvalue := Json.Reader.value_obj_one (n := 2 * cs.length - 3 + 1 + 2) (d := 126)
    (fun rest => Json.Reader.value_obj_one (fun rest => Json.Reader.value_str _ 125 agent rest) "agentId" rest)
    "context" []
  rw [show 2 * cs.length - 3 + 1 + 2 + 2 = 2 * cs.length + 2 by omega, List.append_nil] at hvalue
  rw [Json.parse?, Json.Reader.document?, Json.compact, String.toList_ofList, ← hcs]
  have hvalue' : Json.Reader.value (2 * cs.length + 2) Json.maxDepth cs = some (agentData agent, []) := by
    rw [hcs] at hvalue ⊢
    exact hvalue
  rw [hvalue']
  rfl

end Message

end ReplyStream
