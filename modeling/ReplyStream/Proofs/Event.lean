/-
Events survive the wire. An event that was read is written, and what is written
is read as the same event, with all the replacements inside one another
(`Event.written_reads_back`). A content keeps the keys it does not know, with
what they hold, null too, and writes them beside the known ones, none twice
(`Content.Proper`, `Content.reads_pairs`).

What is read of a record is said of its members (`Content.Reads`,
`Event.Reads`), and what is written holds them again.
-/
import ReplyStream.Event.Basic
import ReplyStream.Proofs.Json.Ascending
import ReplyStream.Proofs.Json.Record
import ReplyStream.Proofs.Message

namespace ReplyStream

/-! ## Contents -/

namespace Content

/-- What a content reads of the fields of an object. -/
structure Reads (fields : Json.Fields) (c : Content) : Prop where
  body : (fields.get? "body").elim (some "") Json.string? = some c.body
  msgtype : Json.optional Json.string? (fields.get? "msgtype") = some c.msgtype
  data : Json.optional some (fields.get? "data") = some c.data
  relatesTo : Json.optional Relation.ofJson? (fields.get? Key.relatesTo) = some c.relatesTo
  reasoning : Json.optional Json.string? (fields.get? Key.reasoning) = some c.reasoning
  commands : Json.optional (Json.list? some) (fields.get? Key.commands) = some c.commands
  continuationOf : Json.optional Json.string? (fields.get? Key.continuationOf) = some c.continuationOf
  hasContinuation : Json.optional Json.bool? (fields.get? Key.hasContinuation) = some c.hasContinuation
  finished : Json.optional Json.bool? (fields.get? Key.finished) = some c.finished
  extra : c.extra = fields.filterKeys (!knownKeys.contains ·)

theorem ofJson?_obj {fields : Json.Fields} {c : Content} : ofJson? (.obj fields) = some c ↔ Reads fields c := by
  simp only [ofJson?, Json.keyedRecord]
  rw [show Json.Source.keyed fields = (Json.obj fields).source 0 from rfl]
  simp only [Json.fieldD_source, Json.option_source, Json.pure_source, Json.member, Option.map_eq_some_iff,
    Option.bind_eq_some_iff]
  constructor
  · rintro ⟨⟨c', s⟩, ⟨body, hbody, msgtype, hmsgtype, data, hdata, relatesTo, hrelatesTo, reasoning, hreasoning,
      commands, hcommands, continuationOf, hcontinuationOf, hasContinuation, hhasContinuation, finished, hfinished,
      heq⟩, rfl⟩
    cases heq
    exact ⟨hbody, hmsgtype, hdata, hrelatesTo, hreasoning, hcommands, hcontinuationOf, hhasContinuation, hfinished, rfl⟩
  · intro h
    refine ⟨(c, .keyed fields), ⟨_, h.body, _, h.msgtype, _, h.data, _, h.relatesTo, _, h.reasoning, _, h.commands, _,
      h.continuationOf, _, h.hasContinuation, _, h.finished, ?_⟩, rfl⟩
    rw [← h.extra]
    rfl

theorem ofJson?_iff {v : Json} {c : Content} : ofJson? v = some c ↔ ∃ fields, v = .obj fields ∧ Reads fields c := by
  cases v with
  | obj fields =>
    rw [ofJson?_obj]
    exact ⟨fun h => ⟨fields, rfl, h⟩, fun ⟨_, heq, h⟩ => by cases heq; exact h⟩
  | null | bool | int | double | str | arr =>
    refine ⟨fun h => ?_, fun ⟨_, heq, _⟩ => ?_⟩
    · cases h
    · cases heq

/-- A content that was read: it keeps other keys than those it knows, in their
order, and no null among the values of those. -/
structure Proper (c : Content) : Prop where
  unknown : ∀ f ∈ c.extra, f.1 ∉ knownKeys
  ascending : c.extra.Ascending
  nonnull : c.data ≠ some .null

theorem proper_empty : empty.Proper where
  unknown := by simp [empty]
  ascending := List.Pairwise.nil
  nonnull := by simp [empty]

theorem Reads.proper {fields : Json.Fields} {c : Content} (h : Reads fields c) (hfields : fields.Ascending) :
    c.Proper where
  unknown f hf := by
    rw [h.extra] at hf
    simpa using (List.mem_filter.1 hf).2
  ascending := by
    rw [h.extra]
    exact hfields.filterKeys _
  nonnull hnull := by
    have hdata := h.data
    rw [hnull] at hdata
    obtain ⟨w, -, hne, heq⟩ := Json.optional_eq_some hdata
    exact hne (Option.some.inj heq)

/-- The known keys of a content, where those are left out that hold nothing. -/
def knownPairs (c : Content) : List (String × Json) :=
  [("body", .str c.body)] ++ Json.optionField "msgtype" .str c.msgtype ++ Json.optionField "data" id c.data ++
  Json.optionField Key.relatesTo Relation.toJson c.relatesTo ++ Json.optionField Key.reasoning .str c.reasoning ++
  Json.optionField Key.commands .arr c.commands ++ Json.optionField Key.continuationOf .str c.continuationOf ++
  Json.optionField Key.hasContinuation .bool c.hasContinuation ++ Json.optionField Key.finished .bool c.finished

/-- The fields a content is written with. -/
def pairs (c : Content) : List (String × Json) := c.knownPairs ++ c.extra

theorem toJson_eq (c : Content) : c.toJson = .obj (Json.Fields.ofList c.pairs) := rfl

theorem keys_knownPairs (c : Content) : (c.knownPairs.map (·.1)).Sublist knownKeys := by
  simp only [knownPairs, List.map_append]
  rw [show knownKeys = ["body"] ++ ["msgtype"] ++ ["data"] ++ [Key.relatesTo] ++ [Key.reasoning] ++ [Key.commands] ++
    [Key.continuationOf] ++ [Key.hasContinuation] ++ [Key.finished] from rfl]
  refine .append (.append (.append (.append (.append (.append (.append (.append (.refl _) ?_) ?_) ?_) ?_) ?_) ?_) ?_) ?_
  all_goals exact Json.keys_optionField _ _ _

/-- **No key is written twice**: none of those a content keeps stands beside a
known one. -/
theorem Proper.nodup_keys {c : Content} (h : c.Proper) : (c.pairs.map (·.1)).Nodup := by
  rw [pairs, List.map_append, List.nodup_append]
  refine ⟨c.keys_knownPairs.nodup (by decide), h.ascending.nodup, ?_⟩
  intro key hknown key' hkept heq
  obtain ⟨f, hf, rfl⟩ := List.mem_map.1 hkept
  exact h.unknown f hf (heq ▸ c.keys_knownPairs.subset hknown)

/-- What a content keeps is written as it is. -/
theorem Proper.get?_unknown {c : Content} (h : c.Proper) {key : String} (hkey : key ∉ knownKeys) :
    (Json.Fields.ofList c.pairs).get? key = c.extra.get? key := by
  have hknown : Json.Fields.lastOf c.knownPairs key = none := by
    refine Json.Fields.lastOf_eq_none fun f hf heq => hkey ?_
    rw [← heq]
    exact c.keys_knownPairs.subset (List.mem_map_of_mem hf)
  rw [Json.Fields.get?_ofList, pairs, Json.Fields.lastOf_append, hknown, Option.or_none, h.ascending.lastOf_eq]

theorem Proper.get?_known {c : Content} (h : c.Proper) {key : String} (hkey : key ∈ knownKeys) :
    (Json.Fields.ofList c.pairs).get? key = Json.Fields.lastOf c.knownPairs key := by
  have hextra : Json.Fields.lastOf c.extra key = none :=
    Json.Fields.lastOf_eq_none fun f hf heq => h.unknown f hf (heq ▸ hkey)
  rw [Json.Fields.get?_ofList, pairs, Json.Fields.lastOf_append, hextra, Option.none_or]

theorem Proper.extra_eq {c : Content} (h : c.Proper) :
    c.extra = (Json.Fields.ofList c.pairs).filterKeys (!knownKeys.contains ·) := by
  refine h.ascending.ext ((Json.Fields.ascending_ofList _).filterKeys _) fun key => ?_
  rw [Json.Fields.get?_filterKeys]
  by_cases hkey : key ∈ knownKeys
  · rw [if_neg (by simpa using hkey)]
    exact Json.Fields.get?_eq_none fun f hf heq => h.unknown f hf (heq ▸ hkey)
  · rw [if_pos (by simpa using hkey), h.get?_unknown hkey]

/-- **A content is read as it was written.** -/
theorem Proper.reads_pairs {c : Content} (h : c.Proper) : Reads (Json.Fields.ofList c.pairs) c := by
  obtain ⟨fs, hfs⟩ : ∃ fs, fs = Json.Fields.ofList c.pairs := ⟨_, rfl⟩
  have hget : ∀ key ∈ knownKeys, fs.get? key = Json.Fields.lastOf c.knownPairs key := by
    rw [hfs]
    exact fun key hkey => h.get?_known hkey
  simp only [knownPairs, Json.Fields.lastOf_append] at hget
  have hfields : fs.get? "body" = some (.str c.body) ∧ fs.get? "msgtype" = c.msgtype.map .str ∧
      fs.get? "data" = c.data.map id ∧ fs.get? Key.relatesTo = c.relatesTo.map Relation.toJson ∧
      fs.get? Key.reasoning = c.reasoning.map .str ∧ fs.get? Key.commands = c.commands.map .arr ∧
      fs.get? Key.continuationOf = c.continuationOf.map .str ∧
      fs.get? Key.hasContinuation = c.hasContinuation.map .bool ∧
      fs.get? Key.finished = c.finished.map .bool := by
    refine ⟨?_, ?_, ?_, ?_, ?_, ?_, ?_, ?_, ?_⟩
    all_goals
      rw [hget _ (by decide)]
      simp (disch := decide) only [Json.Fields.lastOf_cons_self, Json.Fields.lastOf_cons_other,
        Json.Fields.lastOf_nil, Json.Fields.lastOf_optionField_self, Json.Fields.lastOf_optionField_other,
        Option.none_or, Option.or_none]
  obtain ⟨hbody, hmsgtype, hdata, hrelates, hreasoning, hcommands, hcontinuation, hcontinued, hfinished⟩ := hfields
  rw [← hfs]
  exact {
    body := by rw [hbody]; rfl
    msgtype := by rw [hmsgtype]; exact Json.optional_map (fun _ _ => rfl) fun _ _ => Json.noConfusion
    data := by
      rw [hdata]
      refine Json.optional_map (fun _ _ => rfl) fun v hv hnull => h.nonnull ?_
      rw [show v = .null from hnull] at hv
      exact hv
    relatesTo := by rw [hrelates]; exact Json.optional_map (fun r _ => r.ofJson?_toJson) fun _ _ => Json.noConfusion
    reasoning := by rw [hreasoning]; exact Json.optional_map (fun _ _ => rfl) fun _ _ => Json.noConfusion
    commands := by
      rw [hcommands]
      exact Json.optional_map (fun items _ => Json.list?_some items) fun _ _ => Json.noConfusion
    continuationOf := by rw [hcontinuation]; exact Json.optional_map (fun _ _ => rfl) fun _ _ => Json.noConfusion
    hasContinuation := by rw [hcontinued]; exact Json.optional_map (fun _ _ => rfl) fun _ _ => Json.noConfusion
    finished := by rw [hfinished]; exact Json.optional_map (fun _ _ => rfl) fun _ _ => Json.noConfusion
    extra := by rw [hfs]; exact h.extra_eq }

end Content

/-! ## Kinds -/

theorem EventKind.name_ofName (name : String) : (EventKind.ofName name).name = name := by
  unfold ofName
  split
  next h => exact h.symm
  split
  next h => exact h.symm
  next => rfl

/-! ## Events -/

namespace Event

theorem Relations.ofJson?_iff {event : Json → Option Event} {v : Json} {r : Relations Event} :
    Relations.ofJson? event v = some r ↔
      v.IsRecord 1 ∧ Json.optional event (v.member "m.replace" 0) = some r.replacement := by
  rw [Relations.ofJson?, Json.record_option_iff]
  refine and_congr_right fun _ => ⟨?_, fun h => ⟨_, h, rfl⟩⟩
  rintro ⟨replacement, h, rfl⟩
  exact h

theorem Unsigned.ofJson?_iff {event : Json → Option Event} {v : Json} {u : Unsigned Event} :
    Unsigned.ofJson? event v = some u ↔
      v.IsRecord 1 ∧ Json.optional (Relations.ofJson? event) (v.member "m.relations" 0) = some u.relations := by
  rw [Unsigned.ofJson?, Json.record_option_iff]
  refine and_congr_right fun _ => ⟨?_, fun h => ⟨_, h, rfl⟩⟩
  rintro ⟨relations, h, rfl⟩
  exact h

/-- What an event reads of a value, with at most `depth` replacements inside its own. -/
structure Reads (depth : Nat) (v : Json) (e : Event) : Prop where
  isRecord : v.IsRecord 7
  id : Json.required Json.string? (v.member "event_id" 0) = some e.id
  room : Json.required Json.string? (v.member "room_id" 1) = some e.room
  sender : Json.required Json.string? (v.member "sender" 2) = some e.sender
  kind : ∃ name, Json.required Json.string? (v.member "type" 3) = some name ∧ e.kind = .ofName name
  timestamp : Json.required Json.nat64? (v.member "origin_server_ts" 4) = some e.timestamp
  content : (v.member "content" 5).elim (some .empty) Content.ofJson? = some e.content
  unsigned : Json.optional (Unsigned.ofJson? (read depth)) (v.member "unsigned" 6) = some e.unsigned

theorem read_succ_iff {depth : Nat} {v : Json} {e : Event} : read (depth + 1) v = some e ↔ Reads depth v e := by
  rw [read, Json.record_iff (n := 7)]
  · simp only [Json.field_source, Json.fieldD_source, Json.option_source, Json.pure_source, Option.bind_eq_some_iff]
    constructor
    · rintro ⟨hrecord, id, hid, room, hroom, sender, hsender, kind, hkind, timestamp, htimestamp, content, hcontent,
        unsigned, hunsigned, heq⟩
      cases heq
      exact ⟨hrecord, hid, hroom, hsender, ⟨kind, hkind, rfl⟩, htimestamp, hcontent, hunsigned⟩
    · intro h
      obtain ⟨id, room, sender, kind, timestamp, content, unsigned⟩ := e
      obtain ⟨name, hname, rfl⟩ := h.kind
      exact ⟨h.isRecord, _, h.id, _, h.room, _, h.sender, name, hname, _, h.timestamp, _, h.content, _, h.unsigned, rfl⟩
  · simp only [Json.field_source, Json.fieldD_source, Json.option_source, Json.pure_source, Option.bind_eq_some_iff]
    rintro b s ⟨id, -, room, -, sender, -, kind, -, timestamp, -, content, -, unsigned, -, heq⟩
    cases heq
    rfl

theorem exists_reads {v : Json} {e : Event} (h : ofJson? v = some e) : ∃ depth, Reads depth v e := by
  obtain ⟨depth, hdepth⟩ : ∃ depth, v.depth = depth + 1 :=
    Nat.exists_eq_succ_of_ne_zero (Nat.ne_of_gt v.depth_pos)
  rw [ofJson?, hdepth] at h
  exact ⟨depth, read_succ_iff.1 h⟩

/-! ### Writing -/

def Relations.toJson (r : Relations Event) : Json := .ofPairs (Json.optionField "m.replace" Event.toJson r.replacement)

def Unsigned.toJson (u : Unsigned Event) : Json :=
  .ofPairs (Json.optionField "m.relations" Relations.toJson u.relations)

/-- The fields an event is written with. -/
def pairs (e : Event) : List (String × Json) :=
  e.ownFields ++ Json.optionField "unsigned" Unsigned.toJson e.unsigned

theorem toJson_eq (e : Event) : e.toJson = .obj (Json.Fields.ofList e.pairs) := by
  obtain ⟨id, room, sender, kind, timestamp, content, unsigned⟩ := e
  match unsigned with
  | none | some ⟨none⟩ | some ⟨some ⟨none⟩⟩ | some ⟨some ⟨some r⟩⟩ =>
    rw [Event.toJson]
    rfl

/-- What an event that was read holds of itself. -/
structure Proper (e : Event) : Prop where
  kind : EventKind.ofName e.kind.name = e.kind
  timestamp : e.timestamp < Nat.pow 2 64
  content : e.content.Proper

theorem Reads.proper {depth : Nat} {v : Json} {e : Event} (h : Reads depth v e) (hv : v.IsCanonical) : e.Proper where
  kind := by
    obtain ⟨name, -, hkind⟩ := h.kind
    rw [hkind, EventKind.name_ofName]
  timestamp := by
    obtain ⟨w, -, hw⟩ := Option.bind_eq_some_iff.1 h.timestamp
    exact Json.nat64?_lt hw
  content := by
    have hcontent := h.content
    cases hmember : v.member "content" 5 with
    | none =>
      rw [hmember] at hcontent
      rw [← Option.some.inj hcontent]
      exact Content.proper_empty
    | some w =>
      rw [hmember] at hcontent
      obtain ⟨fields, rfl, hreads⟩ := Content.ofJson?_iff.1 hcontent
      exact hreads.proper (Json.member_canonical hv hmember).1

theorem Relations.ofJson?_toJson {event : Json → Option Event} {r : Relations Event}
    (hevent : ∀ e ∈ r.replacement, event e.toJson = some e) :
    Relations.ofJson? event (Relations.toJson r) = some r := by
  refine Relations.ofJson?_iff.2 ⟨trivial, ?_⟩
  rw [Relations.toJson, Json.member_optionField]
  refine Json.optional_map hevent fun e _ hnull => ?_
  rw [Event.toJson_eq] at hnull
  cases hnull

theorem Unsigned.ofJson?_toJson {event : Json → Option Event} {u : Unsigned Event}
    (hevent : ∀ r ∈ u.relations, ∀ e ∈ r.replacement, event e.toJson = some e) :
    Unsigned.ofJson? event (Unsigned.toJson u) = some u := by
  refine Unsigned.ofJson?_iff.2 ⟨trivial, ?_⟩
  rw [Unsigned.toJson, Json.member_optionField]
  exact Json.optional_map (fun r hr => Relations.ofJson?_toJson (hevent r hr)) fun _ _ => Json.noConfusion

theorem member_toJson (e : Event) :
    e.toJson.member "event_id" 0 = some (.str e.id) ∧ e.toJson.member "room_id" 1 = some (.str e.room) ∧
      e.toJson.member "sender" 2 = some (.str e.sender) ∧ e.toJson.member "type" 3 = some (.str e.kind.name) ∧
      e.toJson.member "origin_server_ts" 4 = some (.ofNat e.timestamp) ∧
      e.toJson.member "content" 5 = some e.content.toJson ∧
      e.toJson.member "unsigned" 6 = e.unsigned.map Unsigned.toJson := by
  have hget : ∀ key place, e.toJson.member key place = Json.Fields.lastOf e.pairs key := by
    intro key place
    rw [toJson_eq]
    exact Json.Fields.get?_ofList _ _
  simp only [pairs, Json.Fields.lastOf_append, ownFields] at hget
  refine ⟨?_, ?_, ?_, ?_, ?_, ?_, ?_⟩
  all_goals
    rw [hget]
    simp (disch := decide) only [Json.Fields.lastOf_cons_self, Json.Fields.lastOf_cons_other, Json.Fields.lastOf_nil,
      Json.Fields.lastOf_optionField_self, Json.Fields.lastOf_optionField_other, Option.none_or, Option.or_none]

/-- **An event is read as it was written**, if its replacement is. -/
theorem Proper.reads_toJson {e : Event} (h : e.Proper) {depth : Nat}
    (hevent : ∀ r, e.replacement = some r → read depth r.toJson = some r) : Reads depth e.toJson e := by
  obtain ⟨hid, hroom, hsender, hkind, htimestamp, hcontent, hunsigned⟩ := e.member_toJson
  exact {
    isRecord := by rw [toJson_eq]; trivial
    id := by rw [hid]; rfl
    room := by rw [hroom]; rfl
    sender := by rw [hsender]; rfl
    kind := ⟨e.kind.name, by rw [hkind]; rfl, h.kind.symm⟩
    timestamp := by rw [htimestamp, Json.required, Option.bind_some, Json.nat64?_ofNat h.timestamp]
    content := by
      rw [hcontent]
      exact Content.ofJson?_obj.2 h.content.reads_pairs
    unsigned := by
      rw [hunsigned]
      refine Json.optional_map (fun u hu => Unsigned.ofJson?_toJson fun r hr e' he' => hevent e' ?_)
        fun _ _ => Json.noConfusion
      simp only [replacement, Option.bind_eq_some_iff]
      exact ⟨u, hu, r, hr, he'⟩ }

/-! ### Replacements inside one another -/

/-- Where a value has the replacement of the event that is read of it. -/
def aggregated (v : Json) : Option Json :=
  (v.member "unsigned" 6).bind fun u => (u.member "m.relations" 0).bind fun r => r.member "m.replace" 0

/-- The replacement of an event is read of the value inside. -/
theorem Reads.replacement {depth : Nat} {v : Json} {e r : Event} (h : Reads depth v e) (hr : e.replacement = some r) :
    ∃ w, aggregated v = some w ∧ w.depth < v.depth ∧ read depth w = some r ∧ (v.IsCanonical → w.IsCanonical) := by
  simp only [Event.replacement, Option.bind_eq_some_iff] at hr
  obtain ⟨u, hu, relations, hrelations, hreplacement⟩ := hr
  have hunsigned := h.unsigned
  rw [hu] at hunsigned
  obtain ⟨w₁, hw₁, -, hread₁⟩ := Json.optional_eq_some hunsigned
  have hinner := (Unsigned.ofJson?_iff.1 hread₁).2
  rw [hrelations] at hinner
  obtain ⟨w₂, hw₂, -, hread₂⟩ := Json.optional_eq_some hinner
  have hinnermost := (Relations.ofJson?_iff.1 hread₂).2
  rw [hreplacement] at hinnermost
  obtain ⟨w₃, hw₃, -, hread₃⟩ := Json.optional_eq_some hinnermost
  refine ⟨w₃, ?_, ?_, hread₃, fun hv => ?_⟩
  · simp only [aggregated, hw₁, hw₂, hw₃, Option.bind_some]
  · exact (Json.member_depth hw₃).trans ((Json.member_depth hw₂).trans (Json.member_depth hw₁))
  · exact Json.member_canonical (Json.member_canonical (Json.member_canonical hv hw₁) hw₂) hw₃

theorem read_of_depth_le {depth m : Nat} {v : Json} {e : Event} (h : read depth v = some e) (hm : v.depth ≤ m) :
    read m v = some e := by
  induction depth generalizing v e m with
  | zero => cases h
  | succ depth ih =>
    obtain ⟨m, rfl⟩ : ∃ k, m = k + 1 := Nat.exists_eq_succ_of_ne_zero (by have := v.depth_pos; omega)
    have hreads := read_succ_iff.1 h
    refine read_succ_iff.2 { hreads with unsigned := ?_ }
    refine Json.optional_congr hreads.unsigned fun w₁ u hw₁ hu => Unsigned.ofJson?_iff.2 ?_
    obtain ⟨hrecord₁, hrelations⟩ := Unsigned.ofJson?_iff.1 hu
    refine ⟨hrecord₁, Json.optional_congr hrelations fun w₂ r hw₂ hr => Relations.ofJson?_iff.2 ?_⟩
    obtain ⟨hrecord₂, hreplacement⟩ := Relations.ofJson?_iff.1 hr
    refine ⟨hrecord₂, Json.optional_congr hreplacement fun w₃ e' hw₃ he' => ih he' ?_⟩
    have := Json.member_depth hw₁
    have := Json.member_depth hw₂
    have := Json.member_depth hw₃
    omega

theorem ofJson?_of_read {depth : Nat} {v : Json} {e : Event} (h : read depth v = some e) : ofJson? v = some e :=
  read_of_depth_le h (Nat.le_refl _)

theorem ofJson?_toJson_of_read {depth : Nat} {v : Json} {e : Event} (h : read depth v = some e) (hv : v.IsCanonical) :
    ofJson? e.toJson = some e := by
  induction depth generalizing v e with
  | zero => cases h
  | succ depth ih =>
    have hreads := read_succ_iff.1 h
    obtain ⟨m, hm⟩ : ∃ m, ∀ r, e.replacement = some r → read m r.toJson = some r := by
      cases hreplacement : e.replacement with
      | none => exact ⟨0, fun r hr => by cases hr⟩
      | some r =>
        obtain ⟨w, -, -, hw, hcanonical⟩ := hreads.replacement hreplacement
        refine ⟨r.toJson.depth, fun r' hr' => ?_⟩
        cases hr'
        exact ih hw (hcanonical hv)
    exact ofJson?_of_read (read_succ_iff.2 ((hreads.proper hv).reads_toJson hm))

theorem aggregated_toJson {e r : Event} (hr : e.replacement = some r) : aggregated e.toJson = some r.toJson := by
  simp only [replacement, Option.bind_eq_some_iff] at hr
  obtain ⟨u, hu, relations, hrelations, hreplacement⟩ := hr
  obtain ⟨-, -, -, -, -, -, hunsigned⟩ := e.member_toJson
  simp only [aggregated, hunsigned, hu, hrelations, hreplacement, Unsigned.toJson, Relations.toJson,
    Json.member_optionField, Option.map_some, Option.bind_some]

/-- The replacement of the replacement of an event, and so on. -/
def nested : Nat → Event → Option Event
  | 0, e => some e
  | n + 1, e => e.replacement.bind (nested n)

/-- Where a value has it. -/
def nestedIn : Nat → Json → Option Json
  | 0, v => some v
  | n + 1, v => (aggregated v).bind (nestedIn n)

/-- What of a value is written again with the event that was read of it. -/
structure Kept (v : Json) (e : Event) : Prop where
  /-- The name of its kind, -/
  kind : v.member "type" 3 = some (.str e.kind.name)
  kindWritten : e.toJson.member "type" 3 = some (.str e.kind.name)
  /-- and its content, with every key once, -/
  contentWritten : e.toJson.member "content" 5 = some (.obj (Json.Fields.ofList e.content.pairs))
  once : (e.content.pairs.map (·.1)).Nodup
  /-- which holds at every key that is not known what the value does. -/
  unknown : ∃ fields, (v.member "content" 5).getD (.obj []) = .obj fields ∧
    ∀ key, key ∉ Content.knownKeys → (Json.Fields.ofList e.content.pairs).get? key = Json.Fields.get? fields key

theorem Reads.kept {depth : Nat} {v : Json} {e : Event} (h : Reads depth v e) (hv : v.IsCanonical) : Kept v e := by
  have hproper := h.proper hv
  obtain ⟨-, -, -, hkind, -, hcontent, -⟩ := e.member_toJson
  refine ⟨?_, hkind, hcontent, hproper.content.nodup_keys, ?_⟩
  · obtain ⟨name, hname, heq⟩ := h.kind
    obtain ⟨w, hw, hstring⟩ := Option.bind_eq_some_iff.1 hname
    rw [hw, heq, EventKind.name_ofName]
    cases w with
    | str s => rw [Option.some.inj hstring]
    | null | bool | int | double | arr | obj => cases hstring
  · have hread := h.content
    cases hmember : v.member "content" 5 with
    | none =>
      rw [hmember] at hread
      refine ⟨[], rfl, fun key hkey => ?_⟩
      rw [hproper.content.get?_unknown hkey, ← Option.some.inj hread]
      rfl
    | some w =>
      rw [hmember] at hread
      obtain ⟨fields, rfl, hreads⟩ := Content.ofJson?_iff.1 hread
      refine ⟨fields, rfl, fun key hkey => ?_⟩
      rw [hproper.content.get?_unknown hkey, hreads.extra, Json.Fields.get?_filterKeys, if_pos (by simpa using hkey)]

/-- **Events survive the wire.** An event that was read of a value is written,
and read of that again. So is every replacement inside it, and at each the name
of the kind is written as it was read, the content holds at every key that is
not known what it held, null or not, and no key stands there twice. -/
theorem written_reads_back {v : Json} {e : Event} (hv : v.IsCanonical) (h : ofJson? v = some e) :
    ofJson? e.toJson = some e ∧ ∀ n e', e.nested n = some e' →
      ∃ w, nestedIn n v = some w ∧ ofJson? w = some e' ∧ nestedIn n e.toJson = some e'.toJson ∧ Kept w e' := by
  refine ⟨ofJson?_toJson_of_read h hv, fun n => ?_⟩
  induction n generalizing v e with
  | zero =>
    intro e' he'
    cases he'
    obtain ⟨depth, hreads⟩ := exists_reads h
    exact ⟨v, rfl, h, rfl, hreads.kept hv⟩
  | succ n ih =>
    intro e' he'
    obtain ⟨r, hr, hnested⟩ := Option.bind_eq_some_iff.1 he'
    obtain ⟨depth, hreads⟩ := exists_reads h
    obtain ⟨w, hw, -, hread, hcanonical⟩ := hreads.replacement hr
    obtain ⟨w', hw', hread', hwritten, hkept⟩ := ih (hcanonical hv) (ofJson?_of_read hread) e' hnested
    refine ⟨w', ?_, hread', ?_, hkept⟩
    · rw [nestedIn, hw, Option.bind_some, hw']
    · rw [nestedIn, aggregated_toJson hr, Option.bind_some, hwritten]

/-- A sticker, an event of no interest, and inside it the message that replaces
it. Both have keys that are not known, and these hold null. -/
def stickerWire : Json :=
  .obj [("content", .obj [("body", .str "wave"), ("info", .null), ("zoom", .int 3)]), ("event_id", .str "$a"),
    ("origin_server_ts", .int 5), ("room_id", .str "!room"), ("sender", .str "@alice:example.org"),
    ("type", .str "m.sticker"), ("unsigned", .obj [("age", .int 7), ("m.relations", .obj [("m.replace",
      .obj [("content", .obj [("info", .null), ("msgtype", .null)]), ("event_id", .str "$b"),
        ("origin_server_ts", .int 6), ("room_id", .str "!room"), ("sender", .str "@alice:example.org"),
        ("type", .str "m.room.message")])])])]

def stickerReplacement : Event :=
  { id := "$b", room := "!room", sender := "@alice:example.org", kind := .message, timestamp := 6
    content := { Content.empty with extra := [("info", .null)] }
    unsigned := none }

def sticker : Event :=
  { id := "$a", room := "!room", sender := "@alice:example.org", kind := .other "m.sticker", timestamp := 5
    content := { Content.empty with body := "wave", extra := [("info", .null), ("zoom", .int 3)] }
    unsigned := some ⟨some ⟨some stickerReplacement⟩⟩ }

theorem stickerWire_canonical : stickerWire.IsCanonical := by
  simp only [stickerWire, Json.IsCanonical, Json.AllCanonicalFields, Json.Fields.Ascending]
  decide +kernel

theorem written_reads_back_sticker :
    stickerWire.IsCanonical ∧ ofJson? stickerWire = some sticker ∧
      ofJson? sticker.toJson = some sticker ∧ ∀ n e', sticker.nested n = some e' →
        ∃ w, nestedIn n stickerWire = some w ∧ ofJson? w = some e' ∧ nestedIn n sticker.toJson = some e'.toJson ∧
          Kept w e' :=
  ⟨stickerWire_canonical, rfl, written_reads_back stickerWire_canonical rfl⟩

end Event

end ReplyStream
