/-
The timeline of a log in which nothing is continued: for each event that is no
card fragment one entry, which shows the newest of its versions and of several
newest ones the first (`FirstNewest`). Its entries are in order of time, and
those of one time in the order in which their events first came
(`reconstruct_newest`). A replacement counts whatever event it comes with, a
card fragment never (`mixedLog_counts`).
-/
import ReplyStream.Proofs.Timeline.Groups

namespace ReplyStream

/-! ## What is put into the data of an event -/

namespace Event

/-- Where something is put into the data of an event: the files that come with
it, the cards it names and, if it is the output of a command, its card file. -/
def IsFilledAt (e : Event) (fields : Json.Fields) (key : String) : Prop :=
  key = "attachedFiles" ∧ (fields.get? "attachedFiles").isSome ∨
    key = "attachedCards" ∧ (fields.get? "attachedCardsEventIds").isSome ∨
    key = "card" ∧ e.isCommandOutput = true ∧ (fields.get? "card").isSome

/-- The event with what it refers to in place, and otherwise as it was. -/
inductive Resolves (e : Event) : Event → Prop
  | fields {fields fields' : Json.Fields} (hdata : e.content.data = some (.obj fields))
      (hkept : ∀ key, ¬e.IsFilledAt fields key → fields'.get? key = fields.get? key) :
      Resolves e { e with content.data := some (.obj fields') }
  | other (hdata : ∀ fields, e.content.data ≠ some (.obj fields)) : Resolves e e

theorem Resolves.filled {e resolved : Event} (h : e.Resolves resolved) : e.Filled resolved := by
  cases h with
  | fields => exact ⟨_, rfl⟩
  | other =>
    refine ⟨e.content.data, ?_⟩
    cases e
    rfl

end Event

namespace Timeline

variable {σ : Type}

/-- What is replaced stands where it is put, and only if there is something to read. -/
theorem get?_of_replaceAt_other {α : Type} {eventId key target : String} {read : Json → Option α}
    {f : α → Loading σ Json} {fields fields' : Json.Fields} {s s' : σ}
    (h : (replaceAt eventId key target read f fields).Gives s fields' s') {other : String}
    (hother : ¬(other = target ∧ (fields.get? key).isSome)) : fields'.get? other = fields.get? other := by
  by_cases htarget : target = other
  · have hnone : fields.get? key = none := by
      rw [← Option.not_isSome_iff_eq_none]
      exact fun hsome => hother ⟨htarget.symm, hsome⟩
    simp only [replaceAt, hnone] at h
    rw [(Loading.gives_pure.1 h).1]
  · exact get?_of_replaceAt h htarget

theorem resolves_of_embed {load : Loader σ} {fragments : Fragments} {e e' : Event} {s s' : σ}
    (h : (embed load fragments e).Gives s e' s') : e.Resolves e' := by
  by_cases hobj : ∃ fields, e.content.data = some (.obj fields)
  · obtain ⟨fields, hdata⟩ := hobj
    rw [embed_obj hdata] at h
    obtain ⟨fields₁, s₁, hfiles, h⟩ := Loading.gives_bind.1 h
    obtain ⟨fields₂, s₂, hcards, h⟩ := Loading.gives_bind.1 h
    obtain ⟨fields₃, s₃, houtput, h⟩ := Loading.gives_bind.1 h
    obtain rfl := (Loading.gives_pure.1 h).1
    refine .fields hdata fun key hkey => ?_
    -- what each stage looks for is still where the stages before found it
    have hids : Json.Fields.get? fields₁ "attachedCardsEventIds" = Json.Fields.get? fields "attachedCardsEventIds" :=
      get?_of_replaceAt hfiles (by decide)
    have hcard : Json.Fields.get? fields₂ "card" = Json.Fields.get? fields "card" :=
      (get?_of_replaceAt hcards (by decide)).trans (get?_of_replaceAt hfiles (by decide))
    have hfirst : Json.Fields.get? fields₁ key = Json.Fields.get? fields key :=
      get?_of_replaceAt_other hfiles fun hand => hkey (.inl hand)
    have hsecond : Json.Fields.get? fields₂ key = Json.Fields.get? fields₁ key :=
      get?_of_replaceAt_other hcards fun hand => hkey (.inr (.inl ⟨hand.1, hids ▸ hand.2⟩))
    have hthird : Json.Fields.get? fields₃ key = Json.Fields.get? fields₂ key := by
      by_cases hout : e.isCommandOutput = true
      · rw [if_pos hout] at houtput
        exact get?_of_replaceAt_other houtput fun hand => hkey (.inr (.inr ⟨hand.1, hout, hcard ▸ hand.2⟩))
      · rw [if_neg hout] at houtput
        rw [(Loading.gives_pure.1 houtput).1]
    rw [hthird, hsecond, hfirst]
  · unfold embed at h
    split at h
    next fields hdata => exact absurd ⟨fields, hdata⟩ hobj
    next =>
      obtain rfl := (Loading.gives_pure.1 h).1
      exact .other fun fields hdata => hobj ⟨fields, hdata⟩

/-! ## The order of the timeline -/

theorem keys_keepNewest (t : Table Event) (e : Event) :
    (keepNewest t e).keys = if e.id ∈ t.keys then t.keys else t.keys ++ [e.id] := by
  cases hold : t.get? e.id with
  | none =>
    rw [keepNewest_of_none hold]
    exact Table.keys_put t e.id e
  | some old =>
    have hmem : e.id ∈ t.keys := Table.get?_isSome.1 (by rw [hold]; rfl)
    rw [keepNewest_of_some hold, if_pos hmem]
    split
    · rw [Table.keys_put, if_pos hmem]
    · rfl

/-- Newest versions stand in the order in which their events first came. -/
theorem pairwise_keys_foldl_keepNewest (events : List Event) :
    (Table.keys (events.foldl keepNewest [])).Pairwise fun a b =>
      (events.map (·.id)).idxOf a < (events.map (·.id)).idxOf b := by
  induction events using List.reverseRecOn with
  | nil => exact .nil
  | append_singleton events e ih =>
    have hcame : ∀ id ∈ Table.keys (events.foldl keepNewest []), id ∈ events.map (·.id) := by
      intro id hid
      rw [mem_keys_foldl_keepNewest] at hid
      simpa [Table.keys] using hid
    have hbefore : ∀ id ∈ Table.keys (events.foldl keepNewest []),
        ((events ++ [e]).map (·.id)).idxOf id = (events.map (·.id)).idxOf id := by
      intro id hid
      rw [List.map_append, List.idxOf_append_of_mem (hcame id hid)]
    have hold : (Table.keys (events.foldl keepNewest [])).Pairwise fun a b =>
        ((events ++ [e]).map (·.id)).idxOf a < ((events ++ [e]).map (·.id)).idxOf b := by
      refine ih.imp_of_mem fun {a b} ha hb hlt => ?_
      rw [hbefore a ha, hbefore b hb]
      exact hlt
    rw [List.foldl_append, List.foldl_cons, List.foldl_nil, keys_keepNewest]
    split
    · exact hold
    next hnew =>
      refine List.pairwise_append.2 ⟨hold, List.pairwise_singleton _ _, fun a ha b hb => ?_⟩
      obtain rfl := List.mem_singleton.1 hb
      have hlate : e.id ∉ events.map (·.id) := by
        intro hmem
        obtain ⟨f, hf, hid⟩ := List.mem_map.1 hmem
        exact hnew (mem_keys_foldl_keepNewest.2 (.inr ⟨f, hf, hid⟩))
      rw [hbefore a ha, List.map_append, List.idxOf_append_of_notMem hlate]
      exact Nat.lt_of_lt_of_le (List.idxOf_lt_length_iff.2 (hcame a ha)) (Nat.le_add_right _ _)

/-- Events of one time stay in order. -/
theorem filter_byTime (events : List Event) (time : Nat) :
    (byTime events).filter (·.timestamp == time) = events.filter (·.timestamp == time) := by
  have hlevel : (events.filter (·.timestamp == time)).Pairwise
      fun a b => decide (a.timestamp ≤ b.timestamp) = true := by
    refine List.pairwise_of_forall_mem_list fun a ha b hb => ?_
    have hatime : a.timestamp = time := by simpa using (List.mem_filter.1 ha).2
    have hbtime : b.timestamp = time := by simpa using (List.mem_filter.1 hb).2
    rw [hatime, hbtime]
    exact decide_eq_true (Nat.le_refl _)
  have hsub : (events.filter (·.timestamp == time)).Sublist (byTime events) :=
    List.sublist_mergeSort earlier_trans earlier_total hlevel List.filter_sublist
  have hfiltered := hsub.filter (·.timestamp == time)
  rw [List.filter_filter, show (fun e : Event => e.timestamp == time && e.timestamp == time) =
    fun e => e.timestamp == time from funext fun e => Bool.and_self _] at hfiltered
  have hperm : (byTime events).Perm events := List.mergeSort_perm _ _
  exact (hfiltered.eq_of_length ((hperm.filter _).length_eq).symm).symm

/-- What orders events of one time orders them behind the sorting, too. -/
theorem pairwise_byTime_lex {events : List Event} {R : Event → Event → Prop} (h : events.Pairwise R) :
    (byTime events).Pairwise fun a b => a.timestamp < b.timestamp ∨ a.timestamp = b.timestamp ∧ R a b := by
  refine List.pairwise_iff_forall_sublist.2 fun {a b} hab => ?_
  have hle : a.timestamp ≤ b.timestamp := List.pairwise_iff_forall_sublist.1 (pairwise_byTime events) hab
  rcases Nat.lt_or_eq_of_le hle with hlt | heq
  · exact .inl hlt
  · refine .inr ⟨heq, List.pairwise_iff_forall_sublist.1 h ?_⟩
    have hsame := hab.filter (·.timestamp == b.timestamp)
    rw [filter_byTime, List.filter_eq_self.2 (by simp [heq])] at hsame
    exact hsame.trans List.filter_sublist

/-! ## The timeline -/

/-- The versions of events that are not card fragments, in the order in which they come. -/
def messageVersions (versions : List Event) : List Event := versions.filter (!·.isFragment)

theorem map_id_inPlaces (versions : List Event) :
    (inPlaces versions).map (·.id) = (messageVersions versions).map (·.effectiveId) := by
  rw [inPlaces, List.map_map]
  rfl

/-- What survives shows the first of the newest versions. -/
theorem exists_firstNewest {versions : List Event} {e : Event} (h : e ∈ survivors versions) :
    ∃ v, FirstNewest ((messageVersions versions).filter (·.effectiveId == e.id)) v ∧ e = v.inPlace := by
  obtain ⟨entry, hentry, rfl⟩ := List.mem_map.1 h
  have hnewest := newest_inPlaces versions
  have hget := Table.get?_of_mem hnewest.nodup hentry
  rw [(hnewest.holds entry hentry).1] at hget
  have hplaces : (inPlaces versions).filter (·.id == entry.2.id) =
      ((messageVersions versions).filter (·.effectiveId == entry.2.id)).map Event.inPlace := by
    rw [inPlaces, List.filter_map]
    rfl
  obtain ⟨before, after, hsplit, hbefore, hafter⟩ := firstNewest_of_get? hget
  rw [hplaces] at hsplit
  obtain ⟨before', rest, hversions, rfl, hrest⟩ := List.map_eq_append_iff.1 hsplit
  obtain ⟨v, after', rfl, hv, rfl⟩ := List.map_eq_cons_iff.1 hrest
  refine ⟨v, ⟨before', after', hversions, fun w hw => ?_, fun w hw => ?_⟩, hv.symm⟩
  · rw [← hv] at hbefore
    exact hbefore w.inPlace (List.mem_map_of_mem hw)
  · rw [← hv] at hafter
    exact hafter w.inPlace (List.mem_map_of_mem hw)

/-- What survives stands in the order in which the events first came. -/
theorem pairwise_survivors (versions : List Event) :
    (survivors versions).Pairwise fun a b => ((messageVersions versions).map (·.effectiveId)).idxOf a.id <
      ((messageVersions versions).map (·.effectiveId)).idxOf b.id := by
  have hpairwise := pairwise_keys_foldl_keepNewest (inPlaces versions)
  rw [← map_id_survivors, map_id_inPlaces, List.pairwise_map] at hpairwise
  exact hpairwise

theorem stitch_of_alone {events : List Event} (h : ∀ e ∈ events, e.content.continuationOf = none) :
    stitch events = events := by
  have hempty : continuations events = [] := by
    rw [← List.map_eq_nil_iff (f := (·.2)), List.eq_nil_iff_forall_not_mem]
    intro e he
    obtain ⟨entry, hentry, rfl⟩ := List.mem_map.1 he
    obtain ⟨hmem, hprevious⟩ := mem_continuations hentry
    rw [h _ hmem] at hprevious
    cases hprevious
  have hcomplete : ∀ heads : List Event, complete [] heads = (heads, []) := by
    intro heads
    induction heads with
    | nil => rfl
    | cons head heads ih =>
      rw [complete, List.length_nil, follow]
      simp only [ih]
  have hheads : events.filter (fun e => e.content.continuationOf.isNone) = events :=
    List.filter_eq_self.2 fun e he => by rw [h e he]; rfl
  simp only [stitch, hempty, hheads, hcomplete, List.map_nil, List.append_nil]

/-- A timeline of the newest versions. It has one entry for each event that is
no card fragment, which shows the newest version of the event, of several the
first, with what it refers to in place and without what it relates to. Entries
are in order of time, those of one time in the order in which their events
first came. -/
structure ShowsNewest (versions timeline : List Event) : Prop where
  distinct : (timeline.map (·.id)).Nodup
  ids : ∀ id, id ∈ timeline.map (·.id) ↔ id ∈ (messageVersions versions).map (·.effectiveId)
  unsigned : ∀ entry ∈ timeline, entry.unsigned = none
  newest : ∀ entry ∈ timeline, ∃ v,
    FirstNewest ((messageVersions versions).filter (·.effectiveId == entry.id)) v ∧ v.inPlace.Resolves entry
  inOrder : timeline.Pairwise fun a b => a.timestamp < b.timestamp ∨ a.timestamp = b.timestamp ∧
    ((messageVersions versions).map (·.effectiveId)).idxOf a.id <
      ((messageVersions versions).map (·.effectiveId)).idxOf b.id

/-- An entry shows the first of the newest versions of its event, with what it refers to in place. -/
theorem exists_shown {log versions entries : List Event} (hversions : candidates log = .ok versions)
    (hresolved : List.Forall₂ Event.Resolves (byTime (survivors versions)) entries) {e : Event} (he : e ∈ entries) :
    ∃ v raw, FirstNewest ((messageVersions versions).filter (·.effectiveId == e.id)) v ∧ v.inPlace.Resolves e ∧
      raw ∈ log.flatMap Event.versions ∧ v.unsigned = none ∧
      v.content.continuationOf = raw.content.continuationOf := by
  obtain ⟨f, hf, hresolves⟩ := exists_left_of_forall₂ hresolved he
  obtain ⟨v, hfirst, rfl⟩ := exists_firstNewest (mem_byTime.1 hf)
  obtain ⟨raw, hraw, hunsigned, -, hprevious⟩ := exists_raw_of_candidates hversions
    (List.mem_filter.1 (List.mem_filter.1 hfirst.mem).1).1
  have hid : e.id = v.inPlace.id := by
    obtain ⟨data, rfl⟩ := hresolves.filled
    rfl
  rw [← hid] at hfirst
  exact ⟨v, raw, hfirst, hresolves, hraw, hunsigned, hprevious⟩

/-- **Where nothing is continued the timeline is that of the newest versions.** -/
theorem reconstruct_newest {load : Loader σ} {log : List Event} {s s' : σ} {timeline : List Event}
    (h : (reconstruct load log).Gives s timeline s')
    (halone : ∀ v ∈ log.flatMap Event.versions, v.content.continuationOf = none) :
    ∃ versions, candidates log = .ok versions ∧ ShowsNewest versions timeline := by
  obtain ⟨versions, fragments, entries, hversions, -, hentries, rfl⟩ := gives_of_reconstruct.1 h
  have hresolved : List.Forall₂ Event.Resolves (byTime (survivors versions)) entries :=
    (Loading.forall₂_of_mapM hentries).imp fun _ _ ⟨_, _, he⟩ => resolves_of_embed he
  have hfilled := hresolved.imp fun _ _ => Event.Resolves.filled
  have hmessages := messages_of_mapM hentries
  have hlone : ∀ e ∈ entries, e.content.continuationOf = none := by
    intro e he
    obtain ⟨v, raw, -, hresolves, hraw, -, hprevious⟩ := exists_shown hversions hresolved he
    obtain ⟨data, rfl⟩ := hresolves.filled
    exact hprevious.trans (halone raw hraw)
  have hkeys : entries.map (fun e => (e.timestamp, e.id)) =
      (byTime (survivors versions)).map fun e => (e.timestamp, e.id) :=
    map_eq_of_filled (fun ⟨_, h⟩ => by rw [h]) hfilled
  rw [stitch_of_alone hlone, byTime_of_pairwise hmessages.inOrder]
  refine ⟨versions, hversions, hmessages.distinct, fun id => ?_, fun e he => ?_, fun e he => ?_, ?_⟩
  · rw [hmessages.ids]
    simp [messageVersions, and_assoc]
  · obtain ⟨v, -, -, hresolves, -, hunsigned, -⟩ := exists_shown hversions hresolved he
    obtain ⟨data, rfl⟩ := hresolves.filled
    exact hunsigned
  · obtain ⟨v, -, hfirst, hresolves, -⟩ := exists_shown hversions hresolved he
    exact ⟨v, hfirst, hresolves⟩
  · have hsorted := pairwise_byTime_lex (pairwise_survivors versions)
    have hpairs : (entries.map fun e => (e.timestamp, e.id)).Pairwise fun a b =>
        a.1 < b.1 ∨ a.1 = b.1 ∧ ((messageVersions versions).map (·.effectiveId)).idxOf a.2 <
          ((messageVersions versions).map (·.effectiveId)).idxOf b.2 := by
      rw [hkeys]
      exact List.pairwise_map.2 hsorted
    exact List.pairwise_map.1 hpairs

/-! A room in which edits came before what they edit, and without it. -/

/-- A message that takes the place of another one. -/
def revision (id : String) (time : Nat) (body of : String) : Event :=
  ⟨id, "!room", "@bot:example.org", .message, time, { Content.empty with body, relatesTo := some (.replace of) }, none⟩

def revisedLog : List Event :=
  [revision "$e1" 1 "lost and found" "$gone", revision "$e2" 3 "two" "$a",
   { piece "$b" 2 "b" none none with unsigned := some ⟨some ⟨some (revision "$e3" 3 "bb" "$b")⟩⟩ },
   piece "$a" 1 "one" none none, revision "$e4" 3 "too late" "$a"]

/-- The newest versions of its events. -/
def revised : List Event :=
  [piece "$gone" 1 "lost and found" none none, piece "$a" 3 "two" none none, piece "$b" 3 "bb" none none]

theorem revisedLog_gives :
    (reconstruct (Depot.load 0) revisedLog).Gives emptyDepot revised emptyDepot := by
  have hsorted : byTime revised = revised := byTime_of_pairwise (by decide)
  refine gives_of_reconstruct.2 ⟨_, [], revised, rfl, rfl, ?_, ?_⟩
  · rw [show survivors _ = revised from rfl, hsorted]
    rfl
  · rw [stitch_of_alone (by simp [revised, piece]), hsorted]

theorem reconstruct_newest_revised :
    (∀ v ∈ revisedLog.flatMap Event.versions, v.content.continuationOf = none) ∧
      (reconstruct (Depot.load 0) revisedLog).Gives emptyDepot revised emptyDepot ∧
        ∃ versions, candidates revisedLog = .ok versions ∧ ShowsNewest versions revised := by
  have halone : ∀ v ∈ revisedLog.flatMap Event.versions, v.content.continuationOf = none := by decide
  exact ⟨halone, revisedLog_gives, reconstruct_newest revisedLog_gives halone⟩

/-! A room in which a card fragment was edited into a message, and in which
the server added a message to an event of another kind, as its replacement. -/

/-- The versions that come with messages and command results. -/
def ownVersions (log : List Event) : List Event := (log.filter (·.isCandidate)).flatMap Event.versions

def mixedLog : List Event :=
  [{ piece "$f" 1 "" none none with
      content.msgtype := some Event.fragmentType, content.data := some (CardFragment.toJson ⟨"[]", 0, 1, none⟩) },
    piece "$a" 5 "a" none none, revision "$e" 5 "no card" "$f",
    { piece "$o" 6 "" none none with
      kind := .other "m.sticker", unsigned := some ⟨some ⟨some (revision "$r" 7 "o" "$o")⟩⟩ }]

/-- The newest versions of its events. -/
def mixed : List Event :=
  [piece "$a" 5 "a" none none, piece "$f" 5 "no card" none none, piece "$o" 7 "o" none none]

theorem mixedLog_gives : (reconstruct (Depot.load 0) mixedLog).Gives emptyDepot mixed emptyDepot := by
  have hsorted : byTime mixed = mixed := byTime_of_pairwise (by decide)
  refine gives_of_reconstruct.2 ⟨_, [("$f", ⟨"[]", 0, 1, none⟩)], mixed, rfl, rfl, ?_, ?_⟩
  · rw [show survivors _ = mixed from rfl, hsorted]
    rfl
  · rw [stitch_of_alone (by simp [mixed, piece]), hsorted]

/-- **A replacement counts whatever it comes with, a card fragment never.** An
event is in the timeline that is neither a message nor the result of a command,
and an event that first came as a card fragment is behind one that came later. -/
theorem mixedLog_counts :
    (reconstruct (Depot.load 0) mixedLog).Gives emptyDepot mixed emptyDepot ∧
      (∀ v ∈ mixedLog.flatMap Event.versions, v.content.continuationOf = none) ∧
      (∃ entry ∈ mixed, entry.id ∉ (ownVersions mixedLog).map (·.effectiveId)) ∧
      ∃ a b, [a, b].Sublist mixed ∧ a.timestamp = b.timestamp ∧
        ((ownVersions mixedLog).map (·.effectiveId)).idxOf b.id <
          ((ownVersions mixedLog).map (·.effectiveId)).idxOf a.id := by
  refine ⟨mixedLog_gives, by decide, ⟨piece "$o" 7 "o" none none, by simp [mixed], by decide⟩,
    piece "$a" 5 "a" none none, piece "$f" 5 "no card" none none, ?_, rfl, by decide⟩
  exact .cons_cons _ (.cons_cons _ (.cons _ .slnil))

end Timeline

end ReplyStream
