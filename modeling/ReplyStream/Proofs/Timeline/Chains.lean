/-
A chain of events is stitched to one entry (`stitch_filter`). Its events, each
the only one that continues the one before, may stand among any others, in any
order. They are one group (`Grouped.mem_groups`): an event that is the only one
to continue another stands, and where it stands it is behind that one, since no
group ends before an event that it could still absorb.
-/
import ReplyStream.Proofs.Timeline.Stitch

namespace ReplyStream

/-- The entries continue one another, from the first on, and the last one is
not flagged as continued. -/
def Event.Linked : Event → List Event → Prop
  | e, [] => e.content.hasContinuation ≠ some true
  | e, next :: rest =>
    e.content.hasContinuation = some true ∧ next.content.continuationOf = some e.id ∧ next.Linked rest

namespace Timeline

/-! ## Chains -/

/-- A message is flagged as continued, and of the messages one continues it. -/
structure Continues (messages : List Event) (e next : Event) : Prop where
  flagged : e.content.hasContinuation = some true
  only : ∀ f ∈ messages, f.content.continuationOf = some e.id ↔ f = next

/-- Messages that continue one another, from one that continues nothing to one
that is not flagged as continued or that none continues. -/
structure Chain (messages : List Event) (first : Event) (rest : List Event) : Prop where
  mem : ∀ e ∈ first :: rest, e ∈ messages
  begins : first.content.continuationOf = none
  linked : (first :: rest).IsChain (Continues messages)
  ends : (rest.getLastD first).content.hasContinuation ≠ some true ∨
    ∀ f ∈ messages, f.content.continuationOf ≠ some (rest.getLastD first).id

theorem Continues.mem_standing {messages : List Event} {e next : Event} (h : Continues messages e next)
    (hnext : next ∈ messages) : next ∈ standing messages :=
  Timeline.mem_standing hnext fun f hf hsame _ =>
    (h.only f hf).1 (hsame.trans ((h.only next hnext).2 rfl))

namespace Grouped

variable {messages : List Event} {groups : List Group}

/-- In a group behind each message is the only one that continues it. -/
theorem exists_next (h : Grouped messages groups) (hdistinct : (messages.map (·.id)).Nodup) {g : Group}
    (hg : g ∈ groups) (hbegins : g.head.content.continuationOf = none) {e next : Event} {before after : List Event}
    (hmembers : g.members = before ++ e :: after) (hcontinues : Continues messages e next)
    (hnext : next ∈ messages) : ∃ rest, after = next :: rest := by
  have he : e ∈ g.members := by rw [hmembers]; simp
  have hprevious : next.content.continuationOf = some e.id := (hcontinues.only next hnext).2 rfl
  obtain ⟨g', hg', hmem⟩ := h.exists_group (hcontinues.mem_standing hnext)
  rcases List.mem_cons.1 hmem with rfl | habsorbed
  · exact absurd hprevious (h.closed g hg hbegins e he hcontinues.flagged g' hg')
  obtain ⟨before', e', after', hmembers', hleads⟩ := (h.sound g' hg').exists_before habsorbed
  have he' : e' ∈ g'.members := by rw [hmembers']; simp
  have hid : e.id = e'.id := Option.some.inj (hprevious.symm.trans hleads.2)
  obtain rfl := eq_of_mem_members (h.once hdistinct) hg hg' he he' hid
  obtain rfl := List.inj_on_of_nodup_map (nodup_members (h.once hdistinct) hg) he he' hid
  have hnodup := (nodup_members (h.once hdistinct) hg).of_map
  rw [hmembers'] at hnodup hmembers
  obtain ⟨hbefore, hafter⟩ : e ∉ before' ∧ e ∉ next :: after' := by
    rw [List.nodup_middle, List.nodup_cons, List.mem_append, not_or] at hnodup
    exact hnodup.1
  obtain ⟨-, -, rfl⟩ := (List.append_cons_inj_of_notMem hbefore hafter).1 hmembers
  exact ⟨after', rfl⟩

/-- Behind a message of a group come those that continue it, one after another, and no others. -/
theorem absorbed_eq (h : Grouped messages groups) (hdistinct : (messages.map (·.id)).Nodup) {g : Group}
    (hg : g ∈ groups) (hbegins : g.head.content.continuationOf = none) {e : Event} {before after rest : List Event}
    (hmembers : g.members = before ++ e :: after) (hmem : ∀ f ∈ rest, f ∈ messages)
    (hlinked : (e :: rest).IsChain (Continues messages))
    (hends : (rest.getLastD e).content.hasContinuation ≠ some true ∨
      ∀ f ∈ messages, f.content.continuationOf ≠ some (rest.getLastD e).id) : after = rest := by
  induction rest generalizing e before after with
  | nil =>
    cases after with
    | nil => rfl
    | cons next after =>
      have hnext : next ∈ messages := h.mem_events hg (by rw [hmembers]; simp)
      have hleads := (h.sound g hg).linked
      rw [hmembers, List.isChain_append_cons_cons] at hleads
      obtain ⟨hflagged, hprevious⟩ := hleads.2.1
      rcases hends with hlast | hnone
      · exact absurd hflagged hlast
      · exact absurd hprevious (hnone next hnext)
  | cons next rest ih =>
    obtain ⟨hcontinues, hlinked⟩ := List.isChain_cons_cons.1 hlinked
    obtain ⟨hnext, hmem⟩ := List.forall_mem_cons.1 hmem
    obtain ⟨more, rfl⟩ := h.exists_next hdistinct hg hbegins hmembers hcontinues hnext
    rw [List.append_cons] at hmembers
    rw [List.getLastD_cons] at hends
    rw [ih hmembers hmem hlinked hends]

/-- A chain is one group. -/
theorem mem_groups (h : Grouped messages groups) (hdistinct : (messages.map (·.id)).Nodup) {first : Event}
    {rest : List Event} (hchain : Chain messages first rest) : ⟨first, rest⟩ ∈ groups := by
  obtain ⟨hfirst, hrest⟩ := List.forall_mem_cons.1 hchain.mem
  have hstands : first ∈ standing messages := mem_standing hfirst fun f _ hsame hsome => by
    rw [hsame, hchain.begins] at hsome
    cases hsome
  obtain ⟨g, hg, hmem⟩ := h.exists_group hstands
  obtain rfl := (h.sound g hg).head_eq hmem hchain.begins
  have hmembers : g.members = [] ++ g.head :: g.absorbed := rfl
  obtain rfl := h.absorbed_eq hdistinct hg hchain.begins hmembers hrest hchain.linked hchain.ends
  exact hg

/-- The entries of a kind are one, if the events of that kind are those of one group. -/
theorem filter_stitch (h : Grouped messages groups) (hdistinct : (messages.map (·.id)).Nodup) {q : String → Bool}
    {g : Group} (hg : g ∈ groups) (hmine : q g.head.id = true)
    (hothers : ∀ m ∈ messages, q m.id = true → m ∈ g.members) : (stitch messages).filter (q ·.id) = [g.entry] := by
  have honce := h.once hdistinct
  have hone : (groups.filter fun g => q g.head.id) = [g] := by
    refine List.perm_singleton.1 ((List.perm_ext_iff_of_nodup ((nodup_heads honce).of_map.filter _)
      (List.nodup_singleton g)).2 fun g' => ?_)
    rw [List.mem_filter, List.mem_singleton]
    constructor
    · rintro ⟨hg', hkind⟩
      have hmem : g'.head ∈ g'.members := List.mem_cons_self
      exact eq_of_mem_members honce hg' hg hmem (hothers _ (h.mem_events hg' hmem) hkind) rfl
    · rintro rfl
      exact ⟨hg, hmine⟩
  have hids : (fun entry : Event => q entry.id) ∘ Group.entry = fun g => q g.head.id :=
    funext fun g => congrArg q g.id_entry
  rw [h.entries, List.filter_map, hids, hone, List.map_singleton]

/-- Of the entries one has the id of an event of a group. -/
theorem filter_ids (h : Grouped messages groups) (hdistinct : (messages.map (·.id)).Nodup) {g : Group}
    (hg : g ∈ groups) :
    (stitch messages).filter (fun entry => (g.members.map (·.id)).contains entry.id) = [g.entry] := by
  refine h.filter_stitch hdistinct hg ?_ fun m hm hid => ?_
  · exact List.contains_iff_mem.2 (List.mem_map_of_mem List.mem_cons_self)
  · obtain ⟨f, hf, hid⟩ := List.mem_map.1 (List.contains_iff_mem.1 hid)
    rw [← List.inj_on_of_nodup_map hdistinct (h.mem_events hg hf) hm hid]
    exact hf

end Grouped

/-! ## Chains of a kind -/

/-- The ids of the entries of a chain that another one continues. -/
def continued (e : Event) (rest : List Event) : List String := (e :: rest).dropLast.map (·.id)

/-- What continues an entry of a chain is named by it. -/
theorem continuationOf_of_linked : ∀ {rest : List Event} {e : Event}, e.Linked rest →
    rest.map (·.content.continuationOf) = (continued e rest).map some
  | [], _, _ => rfl
  | next :: rest, e, h => by
    have hcontinued : continued e (next :: rest) = e.id :: continued next rest := rfl
    rw [hcontinued, List.map_cons, List.map_cons, h.2.1, continuationOf_of_linked h.2.2]

theorem isChain_of_linked {e : Event} {rest : List Event} (h : e.Linked rest) : (e :: rest).IsChain Event.LeadsTo := by
  induction rest generalizing e with
  | nil => exact .singleton e
  | cons next rest ih => exact (ih h.2.2).cons_cons ⟨h.1, h.2.1⟩

theorem last_of_linked {e : Event} {rest : List Event} (h : e.Linked rest) :
    (rest.getLastD e).content.hasContinuation ≠ some true := by
  induction rest generalizing e with
  | nil => exact h
  | cons next rest ih =>
    rw [List.getLastD_cons]
    exact ih h.2.2

variable {q : String → Bool}

/-- Of the events those of a kind are a chain, in some order, and none of the
others continues one of them. -/
structure Chained (q : String → Bool) (events : List Event) (e : Event) (rest : List Event) : Prop where
  perm : (events.filter (q ·.id)).Perm (e :: rest)
  first : e.content.continuationOf = none
  linked : e.Linked rest
  nodup : ((e :: rest).map (·.id)).Nodup
  others : ∀ f ∈ events, q f.id = false → ∀ previous ∈ f.content.continuationOf, q previous = false

namespace Chained

variable {events : List Event} {e : Event} {rest : List Event}

theorem mem_iff (h : Chained q events e rest) {f : Event} : f ∈ e :: rest ↔ f ∈ events ∧ q f.id = true := by
  rw [← h.perm.mem_iff, List.mem_filter]

theorem mem_rest (h : Chained q events e rest) {f : Event} (hf : f ∈ events) {id : String} (hid : q id = true)
    (hprevious : f.content.continuationOf = some id) : f ∈ rest := by
  have hkind : q f.id = true := by
    cases hkind : q f.id with
    | true => rfl
    | false => rw [h.others f hf hkind id hprevious] at hid; exact hid
  rcases List.mem_cons.1 (h.mem_iff.2 ⟨hf, hkind⟩) with rfl | hrest
  · rw [h.first] at hprevious
    cases hprevious
  · exact hrest

theorem chain (h : Chained q events e rest) : Chain events e rest where
  mem f hf := (h.mem_iff.1 hf).1
  begins := h.first
  linked := by
    have hprevious : (rest.map (·.content.continuationOf)).Nodup := by
      rw [continuationOf_of_linked h.linked]
      exact List.Nodup.map (fun _ _ heq => Option.some.inj heq) (h.nodup.sublist ((List.dropLast_sublist _).map _))
    refine (isChain_of_linked h.linked).imp_of_mem_tail_imp fun f next hf hnext hleads => ⟨hleads.1, fun g hg => ?_⟩
    constructor
    · intro hcontinues
      have hgrest := h.mem_rest hg (h.mem_iff.1 hf).2 hcontinues
      exact List.inj_on_of_nodup_map hprevious hgrest hnext (hcontinues.trans hleads.2.symm)
    · rintro rfl
      exact hleads.2
  ends := .inl (last_of_linked h.linked)

end Chained

/-- **A chain is stitched to one entry.** Entries of a kind that are a chain,
among others none of which continues one of them, are folded into the first,
and nothing else is left of them. -/
theorem stitch_filter {events : List Event} {e : Event} {rest : List Event} (h : Chained q events e rest)
    (hdistinct : (events.map (·.id)).Nodup) : (stitch events).filter (q ·.id) = [rest.foldl Event.absorb e] := by
  obtain ⟨groups, hgroups⟩ := stitch_groups events
  exact hgroups.filter_stitch hdistinct (hgroups.mem_groups hdistinct h.chain) (h.mem_iff.1 List.mem_cons_self).2
    fun f hf hkind => h.mem_iff.2 ⟨hf, hkind⟩

end Timeline

end ReplyStream
