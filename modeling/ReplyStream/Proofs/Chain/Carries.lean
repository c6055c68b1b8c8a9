/-
What a chain of events carries. Every link but the last is full: its event
shows one part of the reply, flagged as continued, and names the event before
it (`Publisher.Carries`). The parts are cut off the front of the reply, so
they stay right while the reply grows (`Carries.follows`); what is left of
it belongs to the last link.

Sending a part moves the chain on (`Carries.send_part`), sending the rest
closes it (`Carries.send_rest`), and a report leaves it as it is
(`Carries.send_report`). Behind a publish that went through the events show
the reply (`Publisher.Shows`).
-/
import ReplyStream.Chain.Publisher
import ReplyStream.Proofs.Chain.Parts
import ReplyStream.Proofs.Room.Shown

namespace ReplyStream

/-- The message without what it relates to. -/
def Message.bare (m : Message) : Message := { m with relatesTo := none }

namespace Reply

/-- Both texts of the later reply begin with those of the earlier one. -/
structure GrowsTo (r r' : Reply) : Prop where
  reasoning : r.reasoning.toList <+: r'.reasoning.toList
  answer : r.answer.toList <+: r'.answer.toList

theorem GrowsTo.trans {r r' r'' : Reply} (h : r.GrowsTo r') (h' : r'.GrowsTo r'') : r.GrowsTo r'' :=
  ⟨h.reasoning.trans h'.reasoning, h.answer.trans h'.answer⟩

theorem GrowsTo.text {r r' : Reply} (h : r.GrowsTo r') : ∃ more, r'.text = r.text ++ more := by
  obtain ⟨reasoning, hreasoning⟩ := h.reasoning
  obtain ⟨answer, hanswer⟩ := h.answer
  exact ⟨⟨reasoning, answer⟩, Part.ext hreasoning.symm hanswer.symm⟩

/-- The later reply goes on where the earlier one ends, unless that fits in
one event, which a later publish writes anew. -/
def Follows (ceiling : Nat) (r r' : Reply) : Prop := r.GrowsTo r' ∨ r.text.size ≤ ceiling

end Reply

namespace Publisher

variable {p : Publisher} {r : Reply} {full : List (String × Part)}

/-! ## What is posted -/

/-- What a full event shows: a part of the reply, and that it is continued. -/
def piece (p : Publisher) (previous : Option String) (part : Part) : Message :=
  { p.message part true with hasContinuation := some true, continuationOf := previous }

/-- What the last event of a reply shows. -/
def tail (p : Publisher) (previous : Option String) (part : Part) (r : Reply) : Message :=
  { p.message part r.isFinished with
    isCanceled := if r.isCanceled then some true else none
    commands := r.toolCalls.map (·.encode)
    continuationOf := previous }

/-- What full events show, each of which continues the one before. -/
def pieces (p : Publisher) : Option String → List (String × Part) → List Message
  | _, [] => []
  | previous, (id, part) :: rest => p.piece previous part :: pieces p (some id) rest

theorem pieces_concat (previous : Option String) (full : List (String × Part)) (id : String) (part : Part) :
    p.pieces previous (full ++ [(id, part)]) =
      p.pieces previous full ++ [p.piece ((full.getLast?.map (·.1)).or previous) part] := by
  induction full generalizing previous with
  | nil => rfl
  | cons c full ih =>
    simp only [List.cons_append, pieces, ih, List.getLast?_cons]
    cases full.getLast? <;> rfl

theorem pieces_of_agent {q : Publisher} (h : q.agent = p.agent) (previous : Option String)
    (full : List (String × Part)) : q.pieces previous full = p.pieces previous full := by
  induction full generalizing previous with
  | nil => rfl
  | cons c full ih => simp only [pieces, piece, message, h, ih]

theorem post_part {parts : List Part} {part : Part} :
    p.post (.publish r (part :: parts)) = address p.last.eventId (p.piece p.previousId part) := rfl

theorem post_rest (h : p.last.continued = false) :
    p.post (.publish r []) = address p.last.eventId (p.tail p.previousId (p.last.remainder r) r) := by
  simp only [post, h]
  rfl

theorem addressed_address (target : Option String) (m : Message) :
    (address target m).addressed = { m with relatesTo := target.map .replace } := by
  cases target <;> rfl

/-- An accepted post, as the record keeps it. -/
def entry (room : String) (post : Post) (id : String) : Sent := ⟨id, room, post.addressed, post.target⟩

@[simp] theorem entry_bare (room id : String) (target : Option String) (m : Message) :
    (entry room (address target m) id).message.bare = m.bare := by
  simp only [entry, addressed_address, Message.bare]

@[simp] theorem entry_isReport (room id : String) (target : Option String) (m : Message) :
    (entry room (address target m) id).isReport = m.errorMessage.isSome := by
  simp only [entry, Sent.isReport, addressed_address]

@[simp] theorem entry_isContinued (room id : String) (target : Option String) (m : Message) :
    (entry room (address target m) id).isContinued = (m.hasContinuation == some true) := by
  simp only [entry, Sent.isContinued, addressed_address]

/-! ## The chain -/

theorem chain_eq (h : p.chain ≠ []) : p.chain = p.chain.dropLast ++ [p.last] := by
  conv => lhs; rw [← List.dropLast_concat_getLast h]
  simp [last, List.getLast?_eq_some_getLast h]

theorem eventIds_eq (p : Publisher) :
    p.eventIds = p.chain.dropLast.filterMap (·.eventId) ++ p.last.eventId.toList := by
  rcases List.eq_nil_or_concat p.chain with hnil | ⟨init, l, hchain⟩
  · simp only [eventIds, last, hnil]
    rfl
  · rw [List.concat_eq_append] at hchain
    simp only [eventIds, last, hchain, List.filterMap_append, List.dropLast_concat, List.getLast?_concat,
      Option.getD_some]
    cases h : l.eventId <;> simp [h]

/-- What an accepted part makes of the chain: its link is full, and a new one is last. -/
theorem heard_part (p : Publisher) (r : Reply) (part : Part) (parts : List Part) (id : String) :
    (p.heard (.publish r (part :: parts)) (.ok id)).1.chain.dropLast =
        p.chain.dropLast ++ [{ p.filled part id with continued := true }] ∧
      (p.heard (.publish r (part :: parts)) (.ok id)).1.last = p.last.advance part := by
  have hchain : (p.heard (.publish r (part :: parts)) (.ok id)).1.chain =
      p.chain.dropLast ++ [{ p.filled part id with continued := true }, p.last.advance part] := rfl
  constructor
  · rw [hchain, List.dropLast_append_of_ne_nil (by simp)]
    rfl
  · simp only [last, hchain]
    simp

theorem eventIds_of_ids (h : p.chain.dropLast.map (·.eventId) = full.map (some ·.1)) :
    p.eventIds = full.map (·.1) ++ p.last.eventId.toList := by
  have hinit : p.chain.dropLast.filterMap (·.eventId) = (p.chain.dropLast.map (·.eventId)).filterMap id := by
    rw [List.filterMap_map]
    rfl
  have hfull : ∀ full : List (String × Part), (full.map (some ·.1)).filterMap id = full.map (·.1) := by
    intro full
    induction full with
    | nil => rfl
    | cons c full ih => simp
  rw [eventIds_eq, hinit, h, hfull]

/-- The chain carries `full`, the events that are full with their parts, all
cut off the front of the reply; what `sent` shows of it is right. -/
structure Carries (p : Publisher) (sent : List Sent) (r : Reply) (full : List (String × Part)) : Prop where
  ids : p.chain.dropLast.map (·.eventId) = full.map (some ·.1)
  grows : p.last.continued = false
  starts : p.last.At (Part.join (full.map (·.2)))
  cut : ∃ rest, r.text = Part.join (full.map (·.2)) ++ rest
  fits : ∀ c ∈ full, c.2.Fits p.ceiling
  /-- Only what does not fit in one event is cut. -/
  long : full = [] ∨ p.ceiling < r.text.size
  shows : full.map (fun c => (Sent.shown (Sent.replies sent) c.1).map Message.bare) =
    (p.pieces none full).map some
  distinct : p.eventIds.Nodup
  known : ∀ id ∈ p.eventIds, ∃ s ∈ sent, s.replaces = none ∧ s.eventId = id
  placed : ∀ s ∈ Sent.replies sent, s.place ∈ p.eventIds
  uncut : full = [] → ∀ s ∈ sent, s.isContinued = false
  /-- A report hides the first event until the chain grows, and for good behind that. -/
  hidden : ∀ c ∈ full.head?, (∃ s ∈ sent, s.isContinued = true) ∧
    ((∀ s ∈ sent, s.isReport = true → s.place = c.1) → (Sent.Hidden sent c.1 ↔ ¬Sent.Timely sent))

/-- The events show the reply: the full ones their parts, the last one what
is left. -/
structure Shows (p : Publisher) (sent : List Sent) (r : Reply) (full : List (String × Part)) : Prop
    extends Carries p sent r full where
  ends : ∃ id, p.last.eventId = some id ∧ (Sent.shown sent id).map Message.bare =
    some (p.tail p.previousId (p.last.remainder r) r)
  closes : (p.last.remainder r).size ≤ p.ceiling

namespace Carries

variable {sent : List Sent}

theorem of_chain_nil (h : p.chain = []) (r : Reply) : p.Carries [] r [] where
  ids := by rw [h]; rfl
  grows := by simp only [last, h]; rfl
  starts := by simp only [last, h]; exact Link.at_first
  cut := ⟨r.text, rfl⟩
  fits := by simp
  long := .inl rfl
  shows := rfl
  distinct := by simp only [eventIds, h]; exact List.nodup_nil
  known := by simp [eventIds, h]
  placed := by simp [Sent.replies]
  uncut := by simp
  hidden := by simp

theorem eventIds_eq (h : p.Carries sent r full) : p.eventIds = full.map (·.1) ++ p.last.eventId.toList :=
  eventIds_of_ids h.ids

theorem previousId_eq (h : p.Carries sent r full) : p.previousId = full.getLast?.map (·.1) := by
  have : p.previousId = (p.chain.dropLast.map (·.eventId)).getLast?.bind id := by
    rw [List.getLast?_map]
    simp only [previousId]
    cases p.chain.dropLast.getLast? <;> rfl
  rw [this, h.ids, List.getLast?_map]
  cases full.getLast? <;> rfl

theorem remainder_eq (h : p.Carries sent r full) {rest : Part}
    (hr : r.text = Part.join (full.map (·.2)) ++ rest) : p.last.remainder r = rest :=
  Link.remainder_of_at h.starts hr

/-- What the chain carries stays right for a reply that follows. -/
theorem follows (h : p.Carries sent r full) {r' : Reply} (hr : r.Follows p.ceiling r') :
    p.Carries sent r' full := by
  rcases hr with hr | hr
  · obtain ⟨more, hmore⟩ := hr.text
    obtain ⟨rest, hrest⟩ := h.cut
    refine { h with cut := ⟨rest ++ more, ?_⟩, long := ?_ }
    · rw [hmore, hrest, Part.append_assoc]
    · have := h.long
      rw [hmore, Part.size_append]
      exact this.imp_right fun hlong => by omega
  · obtain rfl : full = [] := h.long.resolve_right (by omega)
    exact { h with cut := ⟨r'.text, rfl⟩, long := .inl rfl }

/-! ## One send -/

section Step

variable {s : Sent}

theorem place_fresh (h : p.Carries sent r full) (hs : s.replaces = p.last.eventId)
    (hdistinct : Sent.DistinctIds (sent ++ [s])) : (full.map (·.1) ++ [s.place]).Nodup := by
  have hids := h.eventIds_eq
  have hnodup := h.distinct
  cases hlast : p.last.eventId with
  | some id =>
    have hplace : s.place = id := by simp only [Sent.place, hs, hlast]; rfl
    rw [hids, hlast] at hnodup
    rw [hplace]
    exact hnodup
  | none =>
    have hnew : s.replaces = none := hs.trans hlast
    have hplace : s.place = s.eventId := by simp only [Sent.place, hnew]; rfl
    rw [hids, hlast] at hnodup
    refine List.nodup_append.2 ⟨by simpa using hnodup, by simp, ?_⟩
    intro id hid id' hid' heq
    obtain rfl := List.mem_singleton.1 hid'
    obtain ⟨t, ht, htnew, rfl⟩ := h.known id (by rw [hids]; exact List.mem_append_left _ hid)
    exact hdistinct.fresh hnew t ht htnew (heq.trans hplace)

theorem known_concat (h : p.Carries sent r full) (hs : s.replaces = p.last.eventId) :
    ∀ id ∈ full.map (·.1) ++ [s.place], ∃ t ∈ sent ++ [s], t.replaces = none ∧ t.eventId = id := by
  intro id hid
  rcases List.mem_append.1 hid with hid | hid
  · obtain ⟨t, ht, hnew⟩ := h.known id (by rw [h.eventIds_eq]; exact List.mem_append_left _ hid)
    exact ⟨t, List.mem_append_left _ ht, hnew⟩
  obtain rfl := List.mem_singleton.1 hid
  cases hlast : p.last.eventId with
  | some id =>
    have hplace : s.place = id := by simp only [Sent.place, hs, hlast]; rfl
    obtain ⟨t, ht, hnew, hid⟩ := h.known id (by rw [h.eventIds_eq, hlast]; simp)
    exact ⟨t, List.mem_append_left _ ht, hnew, by rw [hid, hplace]⟩
  | none =>
    have hnew : s.replaces = none := hs.trans hlast
    exact ⟨s, by simp, hnew, by simp only [Sent.place, hnew]; rfl⟩

theorem placed_concat (h : p.Carries sent r full) (hs : s.replaces = p.last.eventId) :
    ∀ t ∈ Sent.replies (sent ++ [s]), t.place ∈ full.map (·.1) ++ [s.place] := by
  intro t ht
  rw [Sent.replies_append] at ht
  rcases List.mem_append.1 ht with ht | ht
  · have hplace := h.placed t ht
    rw [h.eventIds_eq] at hplace
    rcases List.mem_append.1 hplace with hfull | hlast
    · exact List.mem_append_left _ hfull
    · rw [Option.mem_toList] at hlast
      have hsame : s.place = t.place := by
        rw [Sent.place, hs, hlast]
        rfl
      rw [hsame]
      exact List.mem_append_right _ List.mem_cons_self
  · obtain rfl := List.mem_singleton.1 (Sent.mem_of_mem_replies ht)
    exact List.mem_append_right _ List.mem_cons_self

/-- Behind a post for the last link the full events show what they did. -/
theorem shows_concat (h : p.Carries sent r full) (hs : s.replaces = p.last.eventId)
    (hdistinct : Sent.DistinctIds (sent ++ [s])) (hreply : s.isReport = false) :
    full.map (fun c => (Sent.shown (Sent.replies (sent ++ [s])) c.1).map Message.bare) =
      (p.pieces none full).map some := by
  rw [← h.shows]
  apply List.map_congr_left
  intro c hc
  have hne : s.place ≠ c.1 := by
    intro heq
    have hnodup := h.place_fresh hs hdistinct
    exact (List.nodup_append.1 hnodup).2.2 c.1 (List.mem_map_of_mem hc) s.place (by simp) heq.symm
  rw [Sent.replies_concat hreply, Sent.shown_concat_other hne]

theorem hidden_concat (h : p.Carries sent r full) (hs : s.replaces = p.last.eventId)
    (hdistinct : Sent.DistinctIds (sent ++ [s])) (hreply : s.isReport = false) :
    ∀ c ∈ full.head?, (∃ t ∈ sent ++ [s], t.isContinued = true) ∧
      ((∀ t ∈ sent ++ [s], t.isReport = true → t.place = c.1) →
        (Sent.Hidden (sent ++ [s]) c.1 ↔ ¬Sent.Timely (sent ++ [s]))) := by
  intro c hc
  obtain ⟨⟨t, ht, hcontinued⟩, hhidden⟩ := h.hidden c hc
  refine ⟨⟨t, List.mem_append_left _ ht, hcontinued⟩, fun hplaces => ?_⟩
  have hne : s.place ≠ c.1 := by
    intro heq
    have hmem : c.1 ∈ full.map (·.1) := List.mem_map_of_mem (List.mem_of_mem_head? hc)
    exact (List.nodup_append.1 (h.place_fresh hs hdistinct)).2.2 c.1 hmem s.place (by simp) heq.symm
  rw [Sent.Hidden, Sent.shown_concat_other hne, Sent.timely_concat]
  simp only [hreply, implies_true, and_true]
  exact hhidden fun t ht => hplaces t (List.mem_append_left _ ht)

theorem shown_place (hreply : s.isReport = false) :
    Sent.shown (Sent.replies (sent ++ [s])) s.place = some s.message := by
  rw [Sent.replies_concat hreply, Sent.shown_concat_self]

theorem uncut_concat (h : p.Carries sent r full) (huncut : s.isContinued = false) :
    full = [] → ∀ t ∈ sent ++ [s], t.isContinued = false := by
  intro hfull t ht
  rcases List.mem_append.1 ht with ht | ht
  · exact h.uncut hfull t ht
  · obtain rfl := List.mem_singleton.1 ht
    exact huncut

theorem hidden_first (h : p.Carries sent r []) (hreply : s.isReport = false) :
    Sent.Hidden (sent ++ [s]) s.place ↔ ¬Sent.Timely (sent ++ [s]) := by
  have htimely : Sent.Timely (sent ++ [s]) :=
    Sent.timely_concat.2 ⟨Sent.timely_of_uncut (h.uncut rfl), fun _ _ _ => hreply⟩
  constructor
  · exact fun hhidden => absurd hhidden (Sent.not_hidden_concat hreply)
  · exact fun hlate => absurd htimely hlate

/-- A part that was sent for the last link makes its event full; the chain
goes on with a new link. -/
theorem send_part (h : p.Carries sent r full) {rest part : Part} {parts : List Part}
    (hr : r.text = Part.join (full.map (·.2)) ++ rest) (hcuts : Part.Cuts p.ceiling rest (part :: parts))
    (hs : s.replaces = p.last.eventId) (hm : s.message.bare = p.piece p.previousId part)
    (hdistinct : Sent.DistinctIds (sent ++ [s])) :
    (p.heard (.publish r (part :: parts)) (.ok s.eventId)).1.Carries (sent ++ [s]) r
      (full ++ [(s.place, part)]) := by
  obtain ⟨hlong, hfits, behind, hbehind, -⟩ := hcuts
  have hreply : s.isReport = false := congrArg (·.errorMessage.isSome) hm
  have hcontinued : s.isContinued = true := congrArg (·.hasContinuation == some true) hm
  have hplace : s.place = p.last.eventId.getD s.eventId := by rw [← hs]; rfl
  obtain ⟨hinit, hlast⟩ := heard_part p r part parts s.eventId
  have hpieces := pieces_of_agent (q := (p.heard (.publish r (part :: parts)) (.ok s.eventId)).1) (p := p) rfl
  have hids : (p.heard (.publish r (part :: parts)) (.ok s.eventId)).1.chain.dropLast.map (·.eventId) =
      (full ++ [(s.place, part)]).map (some ·.1) := by
    rw [hinit, List.map_append, List.map_append, h.ids, hplace]
    rfl
  have hevents : (p.heard (.publish r (part :: parts)) (.ok s.eventId)).1.eventIds =
      full.map (·.1) ++ [s.place] := by
    rw [eventIds_of_ids hids, hlast, List.map_append]
    exact List.append_nil _
  have hjoin : Part.join ((full ++ [(s.place, part)]).map (·.2)) = Part.join (full.map (·.2)) ++ part := by
    rw [List.map_append, List.map_cons, List.map_nil, Part.join_concat]
  exact {
    ids := hids
    grows := by rw [hlast]; rfl
    starts := by
      rw [hlast, hjoin]
      exact h.starts.advance part
    cut := ⟨behind, by
      rw [hjoin, Part.append_assoc, ← hbehind]
      exact hr⟩
    fits := by
      intro c hc
      rcases List.mem_append.1 hc with hc | hc
      · exact h.fits c hc
      · obtain rfl := List.mem_singleton.1 hc
        exact hfits
    long := by
      right
      have hlong' : p.ceiling < r.text.size := by
        rw [hr, Part.size_append]
        omega
      exact hlong'
    shows := by
      rw [List.map_append, h.shows_concat hs hdistinct hreply, List.map_cons, List.map_nil,
        shown_place hreply, hpieces, pieces_concat, List.map_append, ← h.previousId_eq, Option.or_none,
        Option.map_some, hm]
      rfl
    distinct := by
      rw [hevents]
      exact h.place_fresh hs hdistinct
    known := by
      rw [hevents]
      exact h.known_concat hs
    placed := by
      rw [hevents]
      exact h.placed_concat hs
    uncut := by simp
    hidden := by
      intro c hc
      cases full with
      | cons c' full => exact h.hidden_concat hs hdistinct hreply c hc
      | nil =>
        obtain rfl : (s.place, part) = c := Option.some.inj hc
        exact ⟨⟨s, by simp, hcontinued⟩, fun _ => h.hidden_first hreply⟩ }

/-- A message that was sent for the last link gives it an event, or leaves it
the one it has; the full events stay. -/
theorem fill {q : Publisher} {l : Link} (h : p.Carries sent r full) (hchain : q.chain = p.chain.dropLast ++ [l])
    (hagent : q.agent = p.agent) (hceiling : q.ceiling = p.ceiling) (hid : l.eventId = some s.place)
    (hgrows : l.continued = false) (hstarts : l.At (Part.join (full.map (·.2))))
    (hs : s.replaces = p.last.eventId) (hdistinct : Sent.DistinctIds (sent ++ [s]))
    (hreply : s.isReport = false) (huncut : s.isContinued = false) : q.Carries (sent ++ [s]) r full := by
  have hlast : q.last = l := by simp only [last, hchain, List.getLast?_concat, Option.getD_some]
  have hids : q.chain.dropLast.map (·.eventId) = full.map (some ·.1) := by
    rw [hchain, List.dropLast_concat]
    exact h.ids
  have hevents : q.eventIds = full.map (·.1) ++ [s.place] := by
    rw [eventIds_of_ids hids, hlast, hid]
    rfl
  exact {
    ids := hids
    grows := by rw [hlast]; exact hgrows
    starts := by rw [hlast]; exact hstarts
    cut := h.cut
    fits := by rw [hceiling]; exact h.fits
    long := by rw [hceiling]; exact h.long
    shows := by
      rw [pieces_of_agent hagent]
      exact h.shows_concat hs hdistinct hreply
    distinct := by
      rw [hevents]
      exact h.place_fresh hs hdistinct
    known := by
      rw [hevents]
      exact h.known_concat hs
    placed := by
      rw [hevents]
      exact h.placed_concat hs
    uncut := h.uncut_concat huncut
    hidden := h.hidden_concat hs hdistinct hreply }

theorem send_rest (h : p.Carries sent r full) (hfits : (p.last.remainder r).size ≤ p.ceiling)
    (hs : s.replaces = p.last.eventId)
    (hm : s.message.bare = p.tail p.previousId (p.last.remainder r) r)
    (hdistinct : Sent.DistinctIds (sent ++ [s])) :
    (p.heard (.publish r []) (.ok s.eventId)).1.Shows (sent ++ [s]) r full := by
  have hreply : s.isReport = false := congrArg (·.errorMessage.isSome) hm
  have hplace : some (p.last.eventId.getD s.eventId) = some s.place := by rw [← hs]; rfl
  have hchain : (p.heard (.publish r []) (.ok s.eventId)).1.chain =
      p.chain.dropLast ++ [p.filled (p.last.remainder r) s.eventId] := rfl
  have hlast : (p.heard (.publish r []) (.ok s.eventId)).1.last =
      p.filled (p.last.remainder r) s.eventId := by
    simp only [last, hchain, List.getLast?_concat, Option.getD_some]
  have hprevious : (p.heard (.publish r []) (.ok s.eventId)).1.previousId = p.previousId := by
    simp only [previousId, hchain, List.dropLast_concat]
  have huncut : s.isContinued = false := congrArg (·.hasContinuation == some true) hm
  have hcarries := h.fill hchain rfl rfl hplace h.grows h.starts hs hdistinct hreply huncut
  have hremainder : (p.heard (.publish r []) (.ok s.eventId)).1.last.remainder r = p.last.remainder r := by
    rw [hlast]
    rfl
  exact {
    hcarries with
    ends := ⟨s.place, by rw [hlast]; exact hplace, by
      rw [Sent.shown_concat_self, Option.map_some, hm, hprevious, hremainder]
      rfl⟩
    closes := by rw [hremainder]; exact hfits }

theorem send_opening (h : p.Carries sent r full) (hfirst : p.firstId = none) (hs : s.replaces = none)
    (hreply : s.isReport = false) (huncut : s.isContinued = false)
    (hdistinct : Sent.DistinctIds (sent ++ [s])) : (p.opened s.eventId).Carries (sent ++ [s]) r full := by
  have hplace : s.place = s.eventId := by simp only [Sent.place, hs]; rfl
  cases hchain : p.chain with
  | nil =>
    have hlast : p.last = .first := by simp only [last, hchain]; rfl
    have hopened : (p.opened s.eventId).chain =
        p.chain.dropLast ++ [{ Link.first with eventId := some s.eventId }] := by
      simp only [opened, hchain]
      rfl
    refine h.fill hopened ?_ ?_ (by rw [hplace]) rfl ?_ (by rw [hs, hlast]; rfl) hdistinct hreply huncut
    · simp only [opened, hchain]
    · simp only [opened, hchain]
    · have hstarts := h.starts
      rw [hlast] at hstarts
      exact hstarts
  | cons l links =>
    have hnil : links = [] := by
      cases links with
      | nil => rfl
      | cons l' links =>
        have hids := h.ids
        rw [hchain] at hids
        cases full with
        | nil => cases hids
        | cons c full =>
          have : l.eventId = some c.1 := (List.cons.inj hids).1
          simp only [firstId, hchain, List.head?_cons, Option.bind_some, this] at hfirst
          cases hfirst
    subst hnil
    have hlast : p.last = l := by simp only [last, hchain]; rfl
    have hid : l.eventId = none := by
      simpa only [firstId, hchain, List.head?_cons, Option.bind_some] using hfirst
    have hopened : (p.opened s.eventId).chain = p.chain.dropLast ++ [{ l with eventId := some s.eventId }] := by
      simp only [opened, hchain]
      rfl
    refine h.fill hopened ?_ ?_ (by rw [hplace]) ?_ ?_ (by rw [hs, hlast, hid]) hdistinct hreply huncut
    · simp only [opened, hchain]
    · simp only [opened, hchain]
    · rw [← hlast]; exact h.grows
    · have hstarts := h.starts
      rw [hlast] at hstarts
      exact hstarts

theorem send_report (h : p.Carries sent r full) (hreport : s.isReport = true) (huncut : s.isContinued = false) :
    p.Carries (sent ++ [s]) r full := by
  refine {
    h with
    shows := by rw [Sent.replies_concat_report hreport]; exact h.shows
    known := ?_
    placed := by rw [Sent.replies_concat_report hreport]; exact h.placed
    uncut := h.uncut_concat huncut
    hidden := ?_ }
  · intro id hid
    obtain ⟨t, ht, hnew⟩ := h.known id hid
    exact ⟨t, List.mem_append_left _ ht, hnew⟩
  · intro c hc
    obtain ⟨⟨t, ht, hcontinued⟩, -⟩ := h.hidden c hc
    refine ⟨⟨t, List.mem_append_left _ ht, hcontinued⟩, fun hplaces => ?_⟩
    have hplace : s.place = c.1 := hplaces s (by simp) hreport
    constructor
    · intro _ htimely
      have := (Sent.timely_concat.1 htimely).2 t ht hcontinued
      rw [hreport] at this
      cases this
    · intro _
      exact ⟨s.message, by rw [← hplace, Sent.shown_concat_self], hreport⟩

end Step

end Carries

end Publisher

end ReplyStream
