/-
How many rounds a split takes, and how much each of them takes. `Link.Splits`
are the rounds of a split one after the other, with no bound on their number;
there are no more of them than characters are left (`Link.Splits.length_le`),
so that many rounds are the whole split (`Link.splits_split`).

Where no character is wider than `width`, a part that is cut leaves less than
`width` bytes of the ceiling unused (`Part.carve_packs`). Every character has
four bytes at most, and ASCII characters have one: the parts of an ASCII reply
are full, and how many events it takes follows from its length alone.
-/
import ReplyStream.Proofs.Chain.Carve
import ReplyStream.Proofs.Chain.Resume
import ReplyStream.Proofs.Chain.Split

namespace ReplyStream

namespace Text

variable {n width : Nat} {s : List Char}

theorem mem_of_mem_dropBytes {c : Char} (h : c ∈ dropBytes n s) : c ∈ s := by
  rw [← takeBytes_append_dropBytes n s]
  exact List.mem_append_right _ h

theorem takeBytes_of_byteLength_le (h : byteLength s ≤ n) : takeBytes n s = s :=
  (longest_takeBytes n s).unique ⟨List.prefix_rfl, h, fun _ hp _ => hp⟩

theorem lt_byteLength_takeBytes_add (hwidth : ∀ c ∈ s, c.utf8Size ≤ width) (h : n < byteLength s) :
    n < byteLength (takeBytes n s) + width := by
  induction s generalizing n with
  | nil => cases h
  | cons c s ih =>
    have hc := hwidth c List.mem_cons_self
    simp only [takeBytes]
    split
    · have hrest := ih (n := n - c.utf8Size) (fun d hd => hwidth d (List.mem_cons_of_mem c hd)) (by
        rw [byteLength_cons] at h
        omega)
      rw [byteLength_cons]
      omega
    · rw [byteLength_nil]
      omega

end Text

open Text (byteLength takeBytes)

namespace Part

variable {width ceiling : Nat} {rest : Part}

/-- No character is wider than `width`. -/
def Narrow (width : Nat) (p : Part) : Prop := ∀ c ∈ p.reasoning ++ p.answer, c.utf8Size ≤ width

theorem narrow_four (p : Part) : p.Narrow 4 := fun c _ => c.utf8Size_le_four

/-- A part that is carved from what is too long fills the ceiling, but for
less than one character. -/
theorem carve_packs (hnarrow : rest.Narrow width) (hwidth : width ≤ ceiling) (h : ceiling < rest.size) :
    (rest.carve ceiling).size ≤ ceiling ∧ ceiling < (rest.carve ceiling).size + width := by
  have hreasoning : ∀ c ∈ rest.reasoning, c.utf8Size ≤ width := fun c hc => hnarrow c (List.mem_append_left _ hc)
  have hanswer : ∀ c ∈ rest.answer, c.utf8Size ≤ width := fun c hc => hnarrow c (List.mem_append_right _ hc)
  have hruns : ¬ rest.Stalls ceiling := by
    intro hstalls
    obtain ⟨c, hwide, hleader⟩ := exists_leader hstalls
    have hc : c.utf8Size ≤ width := by
      rcases hleader with ⟨-, hfront⟩ | ⟨-, hfront⟩
      · exact hreasoning c (hfront.subset List.mem_cons_self)
      · exact hanswer c (hfront.subset List.mem_cons_self)
    omega
  rw [carve_of_not_stalls hruns]
  have hr := Text.byteLength_takeBytes_le ceiling rest.reasoning
  have ha := Text.byteLength_takeBytes_le (ceiling - byteLength (takeBytes ceiling rest.reasoning)) rest.answer
  simp only [size] at h ⊢
  refine ⟨by omega, ?_⟩
  by_cases hcut : ceiling < byteLength rest.reasoning
  · have := Text.lt_byteLength_takeBytes_add hreasoning hcut
    omega
  · rw [Text.takeBytes_of_byteLength_le (n := ceiling) (s := rest.reasoning) (by omega)]
    have := Text.lt_byteLength_takeBytes_add (n := ceiling - byteLength rest.reasoning) hanswer (by omega)
    omega

/-- What is cut into parts of `ceiling` bytes and a last piece has more bytes
than the parts, if there are any, and no more than one part more would have. -/
theorem Cuts.size_bounds {parts : List Part} (h : Cuts ceiling rest parts)
    (hfull : ∀ part ∈ parts, part.size = ceiling) :
    rest.size ≤ (parts.length + 1) * ceiling ∧ (parts = [] ∨ parts.length * ceiling < rest.size) := by
  induction parts generalizing rest with
  | nil => exact ⟨by simpa [Cuts] using h, .inl rfl⟩
  | cons part parts ih =>
    obtain ⟨hlong, -, behind, rfl, hcuts⟩ := h
    obtain ⟨hupper, hlower⟩ := ih hcuts fun part hpart => hfull part (List.mem_cons_of_mem _ hpart)
    have hpart := hfull part List.mem_cons_self
    rw [size_append] at hlong ⊢
    simp only [List.length_cons, Nat.succ_mul] at hupper ⊢
    refine ⟨by omega, .inr ?_⟩
    rcases hlower with rfl | hlower
    · rw [List.length_nil, Nat.zero_mul]
      omega
    · omega

/-- Their number, the last piece counted, is that of the bytes by `ceiling`, rounded up. -/
theorem Cuts.length_eq {parts : List Part} (hceiling : 1 ≤ ceiling) (h : Cuts ceiling rest parts)
    (hfull : ∀ part ∈ parts, part.size = ceiling) :
    parts.length + 1 = max 1 ((rest.size + ceiling - 1) / ceiling) := by
  obtain ⟨hupper, hlower⟩ := h.size_bounds hfull
  rw [Nat.succ_mul] at hupper
  rcases hlower with rfl | hlower
  · rw [List.length_nil, Nat.zero_mul] at hupper
    have hone : (rest.size + ceiling - 1) / ceiling ≤ 1 :=
      Nat.le_of_lt_succ ((Nat.div_lt_iff_lt_mul hceiling).2 (by omega))
    rw [Nat.max_eq_left hone]
    rfl
  · have hdiv : (rest.size + ceiling - 1) / ceiling = parts.length + 1 := by
      refine Nat.div_eq_of_lt_le ?_ ?_
      · rw [Nat.succ_mul]
        omega
      · rw [Nat.succ_mul, Nat.succ_mul]
        omega
    rw [hdiv]
    omega

end Part

/-- All characters are ASCII. -/
def Reply.IsAscii (r : Reply) : Prop := ∀ c ∈ r.reasoning.toList ++ r.answer.toList, c.toNat < 128

theorem Reply.IsAscii.narrow {r : Reply} (h : r.IsAscii) : r.text.Narrow 1 := by
  intro c hc
  have hone : c.utf8Size = 1 := by
    rw [Char.utf8Size_eq_one_iff, UInt32.le_iff_toNat_le]
    exact Nat.le_of_lt_succ (h c hc)
  omega

namespace Link

variable {r : Reply} {ceiling width : Nat} {l last : Link} {parts : List Part}

/-- The rounds of a split: as long as what is left is too long, a part of it
is carved, marked as sent, and the next link begins behind it. -/
inductive Splits (r : Reply) (ceiling : Nat) : Link → List Part → Link → Prop where
  | done {l : Link} (h : l.exceeds r ceiling = false) : Splits r ceiling l [] l
  | round {l last : Link} {parts : List Part} (h : l.exceeds r ceiling = true)
      (rest : Splits r ceiling (l.advance (l.carve r ceiling)) parts last) :
      Splits r ceiling l (l.carve r ceiling :: parts) last

/-- A round for each character is enough. -/
theorem splits_split {rounds : Nat} (h : (l.remainder r).length ≤ rounds) :
    l.Splits r ceiling (l.split r ceiling rounds).1 (l.split r ceiling rounds).2 := by
  induction rounds generalizing l with
  | zero => exact .done (exceeds_of_length_eq_zero ceiling (Nat.le_zero.1 h))
  | succ rounds ih =>
    rw [split]
    split
    next hexceeds =>
      have hless := length_advance_lt hexceeds
      exact .round hexceeds (ih (by omega))
    next hfits => exact .done (by simpa using hfits)

theorem splits_parts (l : Link) (r : Reply) (ceiling : Nat) : ∃ last, l.Splits r ceiling (l.parts r ceiling) last :=
  ⟨_, splits_split (Nat.le_refl _)⟩

theorem Splits.unique {parts' : List Part} {last' : Link} (h : l.Splits r ceiling parts last)
    (h' : l.Splits r ceiling parts' last') : parts' = parts ∧ last' = last := by
  induction h generalizing parts' with
  | done hfits =>
    cases h' with
    | done => exact ⟨rfl, rfl⟩
    | round hexceeds =>
      rw [hfits] at hexceeds
      cases hexceeds
  | round hexceeds _ ih =>
    cases h' with
    | done hfits =>
      rw [hfits] at hexceeds
      cases hexceeds
    | round _ rest' =>
      obtain ⟨rfl, rfl⟩ := ih rest'
      exact ⟨rfl, rfl⟩

theorem Splits.length_le (h : l.Splits r ceiling parts last) : parts.length ≤ (l.remainder r).length := by
  induction h with
  | done => exact Nat.zero_le _
  | round hexceeds _ ih =>
    have hless := length_advance_lt hexceeds
    rw [List.length_cons]
    omega

theorem narrow_remainder (h : r.text.Narrow width) (l : Link) : (l.remainder r).Narrow width := by
  intro c hc
  refine h c ?_
  rcases List.mem_append.1 hc with hc | hc
  · exact List.mem_append_left _ (Text.mem_of_mem_dropBytes hc)
  · exact List.mem_append_right _ (Text.mem_of_mem_dropBytes hc)

/-- Each round of a split fills the ceiling, but for less than one character. -/
theorem Splits.packs (hnarrow : r.text.Narrow width) (hwidth : width ≤ ceiling)
    (h : l.Splits r ceiling parts last) :
    ∀ part ∈ parts, part.size ≤ ceiling ∧ ceiling < part.size + width := by
  induction h with
  | done => simp
  | round hexceeds _ ih =>
    intro part hpart
    rcases List.mem_cons.1 hpart with rfl | hpart
    · exact Part.carve_packs (narrow_remainder hnarrow _) hwidth (of_decide_eq_true hexceeds)
    · exact ih part hpart

theorem Splits.full (hascii : r.IsAscii) (hceiling : 1 ≤ ceiling) (h : l.Splits r ceiling parts last) :
    ∀ part ∈ parts, part.size = ceiling := by
  intro part hpart
  have := h.packs hascii.narrow hceiling part hpart
  omega

theorem length_parts_first (hascii : r.IsAscii) (hceiling : 1 ≤ ceiling) :
    (first.parts r ceiling).length + 1 = max 1 ((r.text.size + ceiling - 1) / ceiling) := by
  obtain ⟨last, hsplits⟩ := splits_parts first r ceiling
  have hcuts : Part.Cuts ceiling r.text (first.parts r ceiling) := by
    have hrest : first.remainder r = r.text := remainder_of_at at_first rfl
    rw [parts, hrest]
    exact split_cuts at_first rfl (Nat.le_refl _)
  exact hcuts.length_eq hceiling (hsplits.full hascii hceiling)

end Link

namespace Publisher

variable {σ : Type} {room : String} {send : σ → Post → σ × Except TransportFault String} {sent : σ → List Sent}

/-- Of an errand no more is sent than its posts, and all of them just when it
ends well. -/
theorem run_posts (logs : Logs room send sent) {s s' : σ} {p p' : Publisher} {e : Errand}
    {result : Except TransportFault String} (h : p.run send s e = (s', p', result)) :
    ∃ new, sent s' = sent s ++ new ∧ new.length ≤ e.posts ∧ (result.isOk = true ↔ new.length = e.posts) := by
  have hpos : 0 < e.posts := by cases e <;> simp [Errand.posts]
  rcases run_refused_or_accepted logs h with ⟨fault, tally, rfl, hsent, -⟩ | ⟨s₁, id, tally, hsent, hcases⟩
  · refine ⟨[], by rw [hsent, List.append_nil], Nat.zero_le _, ?_⟩
    simp only [Except.isOk, Except.toBool, List.length_nil]
    constructor
    · intro hfalse
      cases hfalse
    · intro hzero
      omega
  · rcases hcases with ⟨p₁, e₁, hheard, hrun⟩ | ⟨rfl, hheard⟩
    · have hless := posts_lt_of_heard_next hheard
      have hposts : e.posts = e₁.posts + 1 := by
        simp only [heard] at hheard
        split at hheard <;> cases hheard
        rfl
      obtain ⟨new, hnew, hle, hall⟩ := run_posts logs hrun
      refine ⟨_ :: new, by rw [hnew, hsent, List.append_assoc, List.singleton_append], ?_, ?_⟩
      · rw [List.length_cons]
        omega
      · rw [hall, List.length_cons]
        omega
    · have hposts : e.posts = 1 ∧ result.isOk = true := by
        simp only [heard] at hheard
        split at hheard <;> cases hheard <;> exact ⟨rfl, rfl⟩
      exact ⟨_, hsent, by rw [hposts.1]; rfl, by rw [hposts.1, hposts.2]; simp⟩
termination_by e.posts

theorem isOk_of_run (hsend : ∀ s post, (send s post).2.isOk = true) {s s' : σ} {p p' : Publisher} {e : Errand}
    {result : Except TransportFault String} (h : p.run send s e = (s', p', result)) : result.isOk = true := by
  obtain ⟨s₁, answer, hpost, hcases⟩ := run_cases h
  have hanswer := hsend s (p.post e)
  rw [hpost] at hanswer
  rcases hcases with ⟨p₁, e₁, hheard, hrun⟩ | ⟨-, hheard⟩
  · exact isOk_of_run hsend hrun
  · rw [result_of_heard_ended hheard]
    exact hanswer
termination_by e.posts
decreasing_by exact posts_lt_of_heard_next hheard

/-- A publish of `r` takes so many events: it sends no more, and all of them
just when it ends well, which it does when no send fails. -/
def TakesEvents (p : Publisher) (r : Reply) (count : Nat) : Prop :=
  ∀ (σ : Type) (room : String) (send : σ → Post → σ × Except TransportFault String) (s s' : σ × List Sent)
    (p' : Publisher) (result : Except TransportFault String),
    p.publish (recorded room send) s r = (s', p', result) →
      (∃ new, s'.2 = s.2 ++ new ∧ new.length ≤ count ∧ (result.isOk = true ↔ new.length = count)) ∧
        ((∀ s post, (send s post).2.isOk = true) → result.isOk = true)

theorem recorded_isOk {s : σ × List Sent} {post : Post} :
    (recorded room send s post).2.isOk = (send s.1 post).2.isOk := by
  unfold recorded
  split <;> simp_all

theorem takesEvents_parts (p : Publisher) (r : Reply) :
    p.TakesEvents r ((p.last.parts r p.ceiling).length + 1) := by
  intro σ room send s s' p' result h
  simp only [publish, (publishing_due p r).1] at h
  refine ⟨run_posts (recorded_logs room send) h, fun hsend => isOk_of_run (fun s post => ?_) h⟩
  rw [recorded_isOk]
  exact hsend s.1 post

end Publisher

/-- **A split ends, and packs tightly.** Wherever the link begins and whatever
the ceiling, carving until the rest fits comes to an end, in one way only and
after no more rounds than characters are left. From a ceiling of four on each
round leaves at most three bytes of it unused; with an ASCII reply none, from
a ceiling of one on. A publish carries out the split of its last link, with an
event for each round and one for the rest; so the first publish of an ASCII
reply takes as many events as its bytes need, and one if there are none. -/
theorem split_packs (r : Reply) :
    (∀ (l : Link) (ceiling : Nat), ∃ parts last, l.Splits r ceiling parts last ∧
      (∀ parts' last', l.Splits r ceiling parts' last' → parts' = parts ∧ last' = last) ∧
      parts.length ≤ (l.remainder r).length ∧
      (4 ≤ ceiling → ∀ part ∈ parts, ceiling ≤ part.size + 3) ∧
      (r.IsAscii → 1 ≤ ceiling → ∀ part ∈ parts, part.size = ceiling)) ∧
    (∀ p : Publisher, ∃ parts last, p.last.Splits r p.ceiling parts last ∧
      (p.publishing r).2 = .publish r parts ∧ p.TakesEvents r (parts.length + 1)) ∧
    (r.IsAscii → ∀ (room agent : String) (config : Config.Publishing),
      let ceiling := max config.eventSizeMax 1
      let bytes := r.reasoning.utf8ByteSize + r.answer.utf8ByteSize
      (Publisher.new room agent config).TakesEvents r (max 1 ((bytes + ceiling - 1) / ceiling))) := by
  refine ⟨fun l ceiling => ?_, fun p => ?_, fun hascii room agent config => ?_⟩
  · obtain ⟨last, hsplits⟩ := l.splits_parts r ceiling
    refine ⟨_, last, hsplits, fun _ _ h' => hsplits.unique h', hsplits.length_le, fun hfour part hpart => ?_,
      fun hascii hone => hsplits.full hascii hone⟩
    have := hsplits.packs r.text.narrow_four hfour part hpart
    omega
  · obtain ⟨last, hsplits⟩ := p.last.splits_parts r p.ceiling
    exact ⟨_, last, hsplits, (Publisher.publishing_due p r).1, Publisher.takesEvents_parts p r⟩
  · have hbytes : r.text.size = r.reasoning.utf8ByteSize + r.answer.utf8ByteSize := by
      simp only [Part.size, Reply.text, ← Text.utf8ByteSize_ofList, String.ofList_toList]
    have hcount := Link.length_parts_first hascii (Nat.le_max_right config.eventSizeMax 1)
    have htakes : (Publisher.new room agent config).TakesEvents r
        ((Link.first.parts r (max config.eventSizeMax 1)).length + 1) := Publisher.takesEvents_parts _ r
    rw [hcount, hbytes] at htakes
    exact htakes

end ReplyStream
