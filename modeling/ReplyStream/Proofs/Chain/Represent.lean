/-
The chain in the room represents the reply. Whenever a publish goes through,
the events of the chain, each with the message sent last for it, spell out
the reply that was published: their texts joined are its texts, none carries
more than the ceiling or tells of a fault, each but the last is flagged as continued and names
the event before it, and only the last tells how the reply stands and which
tools it calls (`Reply.ShownBy`).

This holds after any row of requests, with any sends failing, as long as
each reply goes on where the one before it ends (`shownBy_of_publish`). It
needs of the way to send only that no two new events get the same id; the
wire to the backend is such a way (`Backend.Numbered.distinctIds`).
-/
import ReplyStream.Proofs.Chain.Run

namespace ReplyStream

/-- The texts a message carries. -/
def Message.text (m : Message) : Part := ⟨(m.reasoning.getD "").toList, m.body.toList⟩

/-- The messages `ms`, which the events `ids` show in this order, are the
reply in pieces of at most `ceiling` bytes. -/
structure Reply.ShownBy (r : Reply) (ceiling : Nat) (ids : List String) (ms : List Message) : Prop where
  reasoning : String.join (ms.map fun m => m.reasoning.getD "") = r.reasoning
  answer : String.join (ms.map (·.body)) = r.answer
  reasoned : ∀ m ∈ ms, m.reasoning.isSome
  faultless : ∀ m ∈ ms, m.errorMessage = none
  sized : ∀ m ∈ ms, m.text.Fits ceiling
  continued : ∀ m ∈ ms.dropLast, m.hasContinuation = some true ∧ m.finished = true ∧ m.commands = []
  ended : ∃ m, ms.getLast? = some m ∧ m.hasContinuation = none ∧ m.finished = r.isFinished ∧
    m.isCanceled = (if r.isCanceled then some true else none) ∧ m.commands = r.toolCalls.map (·.encode)
  linked : ms.map (·.continuationOf) = none :: ids.dropLast.map some

theorem exists_map_eq_of_map_map {α β γ : Type} {f : α → Option β} {g : β → γ} {l : List α} {cs : List γ}
    (h : l.map (fun a => (f a).map g) = cs.map some) : ∃ bs : List β, l.map f = bs.map some ∧ bs.map g = cs := by
  induction l generalizing cs with
  | nil =>
    cases cs with
    | nil => exact ⟨[], rfl, rfl⟩
    | cons c cs => cases h
  | cons a l ih =>
    cases cs with
    | nil => cases h
    | cons c cs =>
      obtain ⟨hhead, htail⟩ := List.cons.inj h
      obtain ⟨b, hb, rfl⟩ := Option.map_eq_some_iff.1 hhead
      obtain ⟨bs, hbs, rfl⟩ := ih htail
      exact ⟨b :: bs, by rw [List.map_cons, List.map_cons, hb, hbs], rfl⟩

namespace Message

theorem toList_join_reasoning (ms : List Message) :
    (String.join (ms.map fun m => m.reasoning.getD "")).toList = (Part.join (ms.map text)).reasoning := by
  rw [String.toList_join]
  induction ms with
  | nil => rfl
  | cons m ms ih => simpa [text] using ih

theorem toList_join_body (ms : List Message) :
    (String.join (ms.map (·.body))).toList = (Part.join (ms.map text)).answer := by
  rw [String.toList_join]
  induction ms with
  | nil => rfl
  | cons m ms ih => simpa [text] using ih

end Message

theorem Reply.ShownBy.of_bare {r : Reply} {ceiling : Nat} {ids : List String} {ms : List Message}
    (h : r.ShownBy ceiling ids (ms.map Message.bare)) : r.ShownBy ceiling ids ms where
  reasoning := by
    have := h.reasoning
    rwa [List.map_map] at this
  answer := by
    have := h.answer
    rwa [List.map_map] at this
  reasoned m hm := h.reasoned m.bare (List.mem_map_of_mem hm)
  faultless m hm := h.faultless m.bare (List.mem_map_of_mem hm)
  sized m hm := h.sized m.bare (List.mem_map_of_mem hm)
  continued m hm := by
    refine h.continued m.bare ?_
    rw [← List.map_dropLast]
    exact List.mem_map_of_mem hm
  ended := by
    obtain ⟨m, hm, hended⟩ := h.ended
    rw [List.getLast?_map] at hm
    obtain ⟨m', hm', rfl⟩ := Option.map_eq_some_iff.1 hm
    exact ⟨m', hm', hended⟩
  linked := by
    have := h.linked
    rwa [List.map_map] at this

namespace Publisher

variable {p : Publisher} {sent : List Sent} {r : Reply} {full : List (String × Part)}

@[simp] theorem text_piece (previous : Option String) (part : Part) : (p.piece previous part).text = part := by
  simp [piece, message, Message.text, Message.withAgent, Message.reply]

@[simp] theorem text_tail (previous : Option String) (part : Part) : (p.tail previous part r).text = part := by
  simp [tail, message, Message.text, Message.withAgent, Message.reply]

theorem text_pieces (previous : Option String) (full : List (String × Part)) :
    (p.pieces previous full).map Message.text = full.map (·.2) := by
  induction full generalizing previous with
  | nil => rfl
  | cons c full ih => rw [pieces, List.map_cons, List.map_cons, text_piece, ih]

theorem mem_pieces {previous : Option String} {m : Message} (h : m ∈ p.pieces previous full) :
    ∃ previous', ∃ c ∈ full, m = p.piece previous' c.2 := by
  induction full generalizing previous with
  | nil => cases h
  | cons c full ih =>
    rcases List.mem_cons.1 h with rfl | h
    · exact ⟨previous, c, List.mem_cons_self, rfl⟩
    · obtain ⟨previous', c', hc', rfl⟩ := ih h
      exact ⟨previous', c', List.mem_cons_of_mem c hc', rfl⟩

/-- Full events and one more behind them are linked each to the one before. -/
theorem continuationOf_pieces (previous : Option String) (full : List (String × Part)) (m : Message)
    (hm : m.continuationOf = (full.getLast?.map (·.1)).or previous) :
    (p.pieces previous full ++ [m]).map (·.continuationOf) = previous :: full.map (some ·.1) := by
  induction full generalizing previous with
  | nil => simpa [pieces] using hm
  | cons c full ih =>
    have hm' : m.continuationOf = (full.getLast?.map (·.1)).or (some c.1) := by
      rw [hm, List.getLast?_cons]
      cases full.getLast? <;> rfl
    rw [pieces, List.cons_append, List.map_cons, ih (some c.1) hm', List.map_cons]
    rfl

theorem chain_eventIds (hids : p.chain.dropLast.map (·.eventId) = full.map (some ·.1)) {id : String}
    (hid : p.last.eventId = some id) : p.chain.map (·.eventId) = (full.map (·.1) ++ [id]).map some := by
  rcases List.eq_nil_or_concat p.chain with hnil | ⟨init, l, hchain⟩
  · simp only [last, hnil] at hid
    cases hid
  · rw [List.concat_eq_append] at hchain
    simp only [last, hchain, List.getLast?_concat, Option.getD_some] at hid
    rw [hchain, List.dropLast_concat] at hids
    rw [hchain, List.map_append, hids, List.map_cons, List.map_nil, hid, List.map_append, List.map_map]
    rfl

theorem eventIds_of_map {ids : List String} (h : p.chain.map (·.eventId) = ids.map some) : p.eventIds = ids := by
  have hchain : p.eventIds = (p.chain.map (·.eventId)).filterMap id := by
    rw [List.filterMap_map]
    rfl
  rw [hchain, h, List.filterMap_map]
  exact List.filterMap_some

theorem firstId_of_map {ids : List String} (h : p.chain.map (·.eventId) = ids.map some) :
    p.firstId = ids.head? := by
  have hchain : p.firstId = (p.chain.map (·.eventId)).head?.bind id := by
    rw [firstId, List.head?_map]
    cases p.chain.head? <;> rfl
  rw [hchain, h, List.head?_map]
  cases ids.head? <;> rfl

/-- The messages of a chain that carries parts of the reply, with all that is
left in the last. -/
theorem Carries.shownBy (h : p.Carries sent r full) (hfits : (p.last.remainder r).size ≤ p.ceiling)
    (id : String) : r.ShownBy p.ceiling (full.map (·.1) ++ [id])
      (p.pieces none full ++ [p.tail p.previousId (p.last.remainder r) r]) := by
  obtain ⟨rest, hrest⟩ := h.cut
  rw [h.remainder_eq hrest] at hfits ⊢
  have htexts : (p.pieces none full ++ [p.tail p.previousId rest r]).map Message.text =
      full.map (·.2) ++ [rest] := by
    rw [List.map_append, text_pieces, List.map_cons, List.map_nil, text_tail]
  have hjoin : Part.join ((p.pieces none full ++ [p.tail p.previousId rest r]).map Message.text) = r.text := by
    rw [htexts, Part.join_concat, hrest]
  exact {
    reasoning := by
      rw [← String.toList_inj, Message.toList_join_reasoning, hjoin]
      rfl
    answer := by
      rw [← String.toList_inj, Message.toList_join_body, hjoin]
      rfl
    reasoned := by
      intro m hm
      rcases List.mem_append.1 hm with hm | hm
      · obtain ⟨_, _, _, rfl⟩ := mem_pieces hm
        rfl
      · obtain rfl := List.mem_singleton.1 hm
        rfl
    faultless := by
      intro m hm
      rcases List.mem_append.1 hm with hm | hm
      · obtain ⟨_, _, _, rfl⟩ := mem_pieces hm
        rfl
      · obtain rfl := List.mem_singleton.1 hm
        rfl
    sized := by
      intro m hm
      rcases List.mem_append.1 hm with hm | hm
      · obtain ⟨_, c, hc, rfl⟩ := mem_pieces hm
        rw [text_piece]
        exact h.fits c hc
      · obtain rfl := List.mem_singleton.1 hm
        rw [text_tail]
        exact .inl hfits
    continued := by
      intro m hm
      rw [List.dropLast_concat] at hm
      obtain ⟨_, _, _, rfl⟩ := mem_pieces hm
      exact ⟨rfl, rfl, rfl⟩
    ended := ⟨_, List.getLast?_concat .., rfl, rfl, rfl, rfl⟩
    linked := by
      rw [continuationOf_pieces none full _ (by rw [Option.or_none, ← h.previousId_eq]; rfl),
        List.dropLast_concat, List.map_map]
      rfl }

/-- The last event shows what is left of the reply, whatever was reported. -/
theorem Shows.shown_last (h : p.Shows sent r full) :
    ∃ id, p.last.eventId = some id ∧ ¬Sent.Hidden sent id ∧
      (Sent.shown (Sent.replies sent) id).map Message.bare =
        some (p.tail p.previousId (p.last.remainder r) r) := by
  obtain ⟨id, hid, hend⟩ := h.ends
  obtain ⟨m, hm, hbare⟩ := Option.map_eq_some_iff.1 hend
  have hunhidden : ¬Sent.Hidden sent id := by
    rintro ⟨m', hm', hreport⟩
    rw [hm] at hm'
    cases hm'
    have : m.errorMessage = none := congrArg (·.errorMessage) hbare
    rw [this] at hreport
    cases hreport
  refine ⟨id, hid, hunhidden, ?_⟩
  rw [(Sent.hidden_or_shown sent id).resolve_left hunhidden]
  exact hend

theorem Shows.shownBy (h : p.Shows sent r full) :
    ∃ ids ms, p.chain.map (·.eventId) = ids.map some ∧
      ids.map (Sent.shown (Sent.replies sent)) = ms.map some ∧ r.ShownBy p.ceiling ids ms := by
  obtain ⟨id, hid, -, hend⟩ := h.shown_last
  have hshown : (full.map (·.1) ++ [id]).map (fun id => (Sent.shown (Sent.replies sent) id).map Message.bare) =
      (p.pieces none full ++ [p.tail p.previousId (p.last.remainder r) r]).map some := by
    rw [List.map_append, List.map_map, List.map_append, ← h.shows, List.map_cons, List.map_nil, hend]
    rfl
  obtain ⟨ms, hms, hbare⟩ := exists_map_eq_of_map_map hshown
  refine ⟨_, ms, chain_eventIds h.ids hid, hms, .of_bare ?_⟩
  rw [hbare]
  exact h.toCarries.shownBy h.closes id

end Publisher

/-! ## Publishing -/

/-- Behind a publish that goes through, the events show the reply, whatever
was asked for before, if no two new events have the same id. -/
theorem Publisher.Carries.shows_of_publish {σ : Type} {room : String}
    {send : σ → Post → σ × Except TransportFault String} {sent : σ → List Sent} (logs : Logs room send sent)
    {p p₁ p₂ : Publisher} {requests : List Request} {r₀ r : Reply} {s s₁ s₂ : σ} {id : String}
    {base ours : List Sent} {full : List (String × Part)} (h : p.Carries ours r₀ full) (hours : sent s = base ++ ours)
    (hfollows : List.IsChain (Reply.Follows p.ceiling) (r₀ :: (requests.filterMap (·.reply?) ++ [r])))
    (hrun : p.respondAll send s requests = (s₁, p₁)) (hpublish : p₁.publish send s₁ r = (s₂, p₂, .ok id)) :
    p.Alike p₂ ∧ ∃ new, sent s₂ = sent s ++ new ∧
      (∀ x ∈ new, ∃ q ∈ requests ++ [.publish r], p.Posted room q.isReport x) ∧
      (Sent.DistinctIds (ours ++ new) → ∃ full', p₂.Shows (ours ++ new) r full') := by
  obtain ⟨halike, new, hnew, hposted⟩ := respondAll_appends logs hrun
  obtain ⟨halike', new', hnew', hposted'⟩ := publish_appends logs hpublish
  refine ⟨halike.trans halike', new ++ new', by rw [hnew', hnew, List.append_assoc], ?_, fun hdistinct => ?_⟩
  · intro x hx
    rcases List.mem_append.1 hx with hx | hx
    · obtain ⟨q, hq, hx⟩ := hposted x hx
      exact ⟨q, List.mem_append_left _ hq, hx⟩
    · exact ⟨.publish r, by simp, (hposted' x hx).of_alike halike⟩
  · rw [← List.append_assoc] at hdistinct ⊢
    have hours₁ : sent s₁ = base ++ (ours ++ new) := by rw [hnew, hours, List.append_assoc]
    have hours₂ : sent s₂ = base ++ (ours ++ new ++ new') := by rw [hnew', hours₁, List.append_assoc]
    obtain ⟨more, hfull⟩ := h.respondAll logs hrun hours hours₁ hdistinct.of_append hfollows
    obtain ⟨more', -, hshows⟩ := hfull.publish logs hpublish hours₁ hours₂ hdistinct
    exact ⟨_, hshows id rfl⟩

/-- The same for a chain that was begun anew, when no fault is reported. -/
theorem Publisher.shows_of_publish {σ : Type} {room : String} {send : σ → Post → σ × Except TransportFault String}
    {sent : σ → List Sent} (logs : Logs room send sent) {p p₁ p₂ : Publisher} {requests : List Request} {r : Reply}
    {s s₁ s₂ : σ} {id : String} (hp : p.chain = []) (hreports : ∀ q ∈ requests, q.isReport = false)
    (hgrows : List.IsChain Reply.GrowsTo (requests.filterMap (·.reply?) ++ [r]))
    (hrun : p.respondAll send s requests = (s₁, p₁)) (hpublish : p₁.publish send s₁ r = (s₂, p₂, .ok id)) :
    p.Alike p₂ ∧ ∃ new, sent s₂ = sent s ++ new ∧ (∀ x ∈ new, p.Posted room false x) ∧
      (Sent.DistinctIds new → ∃ full, p₂.Shows new r full) := by
  have hfollows : List.IsChain (Reply.Follows p.ceiling) (.empty :: (requests.filterMap (·.reply?) ++ [r])) := by
    rw [List.isChain_cons]
    exact ⟨fun r' _ => .inl ⟨List.nil_prefix, List.nil_prefix⟩, hgrows.imp fun _ _ h => .inl h⟩
  obtain ⟨halike, new, hnew, hposted, hshows⟩ := (Carries.of_chain_nil hp .empty).shows_of_publish logs
    (List.append_nil (sent s)).symm hfollows hrun hpublish
  refine ⟨halike, new, hnew, fun x hx => ?_, hshows⟩
  obtain ⟨q, hq, hx⟩ := hposted x hx
  rcases List.mem_append.1 hq with hq | hq
  · rw [hreports q hq] at hx
    exact hx
  · obtain rfl := List.mem_singleton.1 hq
    exact hx

/-- **The chain represents the reply.** Over a way to send that gives no two
new events the same id: whatever was asked for before and whichever sends
failed, when a publish goes through the events of the chain, with the
messages sent last for them, are its reply in pieces. -/
theorem shownBy_of_publish {σ : Type} {send : σ → Post → σ × Except TransportFault String} {s : σ}
    {room agent : String} {c : Config.Publishing} {requests : List Request} {r : Reply} {s₁ s₂ : σ × List Sent}
    {p₁ p₂ : Publisher} {id : String} (hreports : ∀ q ∈ requests, q.isReport = false)
    (hgrows : List.IsChain Reply.GrowsTo (requests.filterMap (·.reply?) ++ [r]))
    (hrun : (Publisher.new room agent c).respondAll (recorded room send) (s, []) requests = (s₁, p₁))
    (hpublish : p₁.publish (recorded room send) s₁ r = (s₂, p₂, .ok id)) (hdistinct : Sent.DistinctIds s₂.2) :
    ∃ ids ms, p₂.chain.map (·.eventId) = ids.map some ∧ ids.map (Sent.shown s₂.2) = ms.map some ∧
      r.ShownBy (max c.eventSizeMax 1) ids ms := by
  obtain ⟨halike, new, hnew, hposted, hshows⟩ :=
    Publisher.shows_of_publish (recorded_logs room send) rfl hreports hgrows hrun hpublish
  obtain rfl : s₂.2 = new := hnew
  obtain ⟨full, hfull⟩ := hshows hdistinct
  obtain ⟨ids, ms, hids, hms, hshown⟩ := hfull.shownBy
  rw [Sent.replies_eq_self fun x hx => (hposted x hx).isReport_eq] at hms
  rw [halike.ceiling] at hshown
  exact ⟨ids, ms, hids, hms, hshown⟩

/-! A chain that was begun, whose first publish is lost. -/

/-- A way to send that goes by a plan; new events are numbered down. -/
def planned (plan : List Bool) (_ : Post) : List Bool × Except TransportFault String :=
  match plan with
  | true :: rest => (rest, .ok (Backend.sentId rest.length))
  | _ => (plan.tail, .error .unavailable)

def plannedStart : (List Bool × List Sent) × Publisher :=
  (Publisher.new "!room" "bot" ⟨2, 0, "thinking"⟩).respondAll (recorded "!room" planned)
    ([true, false, true, true], []) [.opening, .publish (.ofText "" "ab")]

def plannedEnd : (List Bool × List Sent) × Publisher × Except TransportFault String :=
  plannedStart.2.publish (recorded "!room" planned) plannedStart.1 (.ofText "" "abc")

theorem shownBy_of_publish_planned :
    plannedEnd.2.2 = .ok "$sent0" ∧
      ∃ ids ms, plannedEnd.2.1.chain.map (·.eventId) = ids.map some ∧
        ids.map (Sent.shown plannedEnd.1.2) = ms.map some ∧ (Reply.ofText "" "abc").ShownBy 2 ids ms := by
  have hok : plannedEnd.2.2 = .ok "$sent0" := by decide +kernel
  have hids : (plannedEnd.1.2.filter (·.replaces.isNone)).map (·.eventId) = ["$sent3", "$sent0"] := by decide +kernel
  have hreports : ∀ q ∈ [.opening, .publish (.ofText "" "ab")], Request.isReport q = false := by decide
  have hgrows : List.IsChain Reply.GrowsTo [.ofText "" "ab", .ofText "" "abc"] :=
    List.isChain_pair.2 ⟨List.prefix_rfl, ⟨['c'], by decide⟩⟩
  have hpublish : plannedStart.2.publish (recorded "!room" planned) plannedStart.1 (.ofText "" "abc") =
      (plannedEnd.1, plannedEnd.2.1, .ok "$sent0") := Prod.ext rfl (Prod.ext rfl hok)
  have hdistinct : Sent.DistinctIds plannedEnd.1.2 := by
    rw [Sent.DistinctIds, hids]
    decide
  exact ⟨hok, shownBy_of_publish hreports hgrows rfl hpublish hdistinct⟩

end ReplyStream
