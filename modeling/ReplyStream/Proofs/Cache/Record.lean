/-
What the record of a desk tells: what has become of each call (`Fate`), and where
each text comes from that the cache holds. Each has a download that is on record,
with the time at which its text was stored (`Sound.kept`), so whatever is served has
one too. No act of a call makes the record untrue (`Sound.act`).
-/
import ReplyStream.Proofs.Cache.Desk

namespace ReplyStream.Desk

/-- A download of `url` gave the text, and `time` is when it was stored: a
call that downloads is answered when it has stored the text. -/
def Stored (notes : List (Nat × Note)) (url text : String) (time : Nat) : Prop :=
  ∃ n, (n, .ended url (.ok text)) ∈ notes ∧ (n, .answered time (.ok text)) ∈ notes

/-- What has become of a call, and all that was seen of it. -/
inductive Fate (ttl : Nat) (d : Desk) (n : Nat) (file : AttachedFile) : Prop where
  | refused (time : Nat) (htext : file.isText = false) (hcall : d.calls n = none)
      (hseen : d.seen n =
        [.asked file, .answered time (.error (.unsupportedAttachment file.url file.contentType))])
  /-- Served from the cache, with a text stored before. -/
  | hit (time stored : Nat) (text : String) (before after : List (Nat × Note)) (htext : file.isText = true)
      (hcall : d.calls n = none) (hseen : d.seen n = [.asked file, .answered time (.ok text)])
      (hnotes : d.notes = before ++ (n, .answered time (.ok text)) :: after)
      (hstored : Stored before file.url text stored) (hpast : stored ≤ time) (hfresh : time - stored < ttl)
  | loading (htext : file.isText = true) (hcall : d.calls n = some (.loading file))
      (hseen : d.seen n = [.asked file, .began file.url])
  | landed (result : Except TransportFault String) (htext : file.isText = true)
      (hcall : d.calls n = some (.landed file result))
      (hseen : d.seen n = [.asked file, .began file.url, .ended file.url result])
  /-- Answered with what the one download came to. -/
  | missed (time : Nat) (result : Except TransportFault String) (htext : file.isText = true)
      (hcall : d.calls n = none)
      (hseen : d.seen n = [.asked file, .began file.url, .ended file.url result,
        .answered time (result.mapError (.attachmentFetch file.url))])

def Note.asksText : Note → Bool
  | .asked file => file.isText
  | _ => false

def Note.begins : Note → Bool
  | .began _ => true
  | _ => false

/-- Each call for the text of a text file is counted once, and as a miss if
its download begins. -/
structure Counted (d : Desk) : Prop where
  all : d.cache.tally.hits + d.cache.tally.misses = d.notes.countP (·.2.asksText)
  misses : d.cache.tally.misses = d.notes.countP (·.2.begins)

/-- The record tells what has become of the calls, and where each entry of the
cache comes from. -/
structure Sound (ttl : Nat) (d : Desk) : Prop where
  ttl_eq : d.cache.ttl = ttl
  coming : ∀ n, d.asked ≤ n → d.calls n = none ∧ d.seen n = []
  fates : ∀ n, n < d.asked → ∃ file, Fate ttl d n file
  kept : ∀ entry ∈ d.cache.entries,
    Stored d.notes entry.1 entry.2.text entry.2.fetchedAt ∧ entry.2.fetchedAt ≤ d.now
  counted : Counted d

variable {ttl n m asked : Nat} {d d' : Desk} {file file' : AttachedFile} {cache : Cache} {call : Option Call}
  {seen : List Note}

theorem sound_new (ttl maxEntries : Nat) : Sound ttl (new ttl maxEntries) where
  ttl_eq := rfl
  coming _ _ := ⟨rfl, rfl⟩
  fates _ hn := absurd hn (Nat.not_lt_zero _)
  kept _ hentry := (by cases hentry)
  counted := ⟨rfl, rfl⟩

theorem Stored.mono {notes notes' : List (Nat × Note)} {url text : String} {time : Nat}
    (h : Stored notes url text time) (hsub : notes ⊆ notes') : Stored notes' url text time := by
  obtain ⟨n, hended, hanswered⟩ := h
  exact ⟨n, hsub hended, hsub hanswered⟩

/-! ## Calls that others do not touch -/

theorem Fate.of_same (h : Fate ttl d n file) (hcalls : d'.calls n = d.calls n) (hseen : d'.seen n = d.seen n)
    {more : List (Nat × Note)} (hnotes : d'.notes = d.notes ++ more) : Fate ttl d' n file := by
  cases h with
  | refused time htext hcall hs => exact .refused time htext (hcalls.trans hcall) (hseen.trans hs)
  | hit time stored text before after htext hcall hs hn hstored hpast hfresh =>
    refine .hit time stored text before (after ++ more) htext (hcalls.trans hcall) (hseen.trans hs) ?_ hstored
      hpast hfresh
    rw [hnotes, hn, List.append_assoc]
    rfl
  | loading htext hcall hs => exact .loading htext (hcalls.trans hcall) (hseen.trans hs)
  | landed result htext hcall hs => exact .landed result htext (hcalls.trans hcall) (hseen.trans hs)
  | missed time result htext hcall hs => exact .missed time result htext (hcalls.trans hcall) (hseen.trans hs)

theorem Sound.under_way {c : Call} (h : Sound ttl d) (hcall : d.calls n = some c) : n < d.asked := by
  rcases Nat.lt_or_ge n d.asked with hlt | hge
  · exact hlt
  · rw [(h.coming n hge).1] at hcall
    cases hcall

theorem Sound.loading (h : Sound ttl d) (hcall : d.calls n = some (.loading file)) :
    file.isText = true ∧ d.seen n = [.asked file, .began file.url] := by
  obtain ⟨_, hfate⟩ := h.fates n (h.under_way hcall)
  cases hfate <;> simp_all

theorem Sound.landed {result : Except TransportFault String} (h : Sound ttl d)
    (hcall : d.calls n = some (.landed file result)) :
    file.isText = true ∧ d.seen n = [.asked file, .began file.url, .ended file.url result] := by
  obtain ⟨_, hfate⟩ := h.fates n (h.under_way hcall)
  cases hfate <;> simp_all

/-! ## One act -/

theorem Acts.lt_asked (ha : Acts d n asked cache call seen) (h : Sound ttl d) : n < asked := by
  cases ha with
  | refused | hit | missed => exact Nat.lt_succ_self _
  | landed _ _ _ hcall | stored _ _ _ hcall | failed _ _ _ hcall => exact h.under_way hcall

theorem Acts.asked_cases (ha : Acts d n asked cache call seen) :
    asked = d.asked ∨ n = d.asked ∧ asked = d.asked + 1 := by
  cases ha with
  | refused | hit | missed => exact .inr ⟨rfl, rfl⟩
  | landed | stored | failed => exact .inl rfl

theorem Acts.fate (ha : Acts d n asked cache call seen) (h : Sound ttl d) :
    ∃ file, Fate ttl (d.act n asked cache call seen) n file := by
  cases ha with
  | refused file htext =>
    refine ⟨file, .refused d.now htext act_calls_self ?_⟩
    rw [act_seen_self, (h.coming _ (Nat.le_refl _)).2, List.nil_append]
  | hit file e htext hget hfresh =>
    obtain ⟨hstored, hpast⟩ := h.kept _ (Table.mem_of_get? hget)
    refine ⟨file, .hit d.now e.fetchedAt e.text (d.notes ++ [(d.asked, .asked file)]) [] htext act_calls_self ?_ ?_
      (hstored.mono (List.subset_append_left _ _)) hpast ?_⟩
    · rw [act_seen_self, (h.coming _ (Nat.le_refl _)).2, List.nil_append]
    · rw [List.append_assoc]
      rfl
    · rw [← h.ttl_eq]
      exact of_decide_eq_true hfresh
  | missed file entries htext hspares =>
    refine ⟨file, .loading htext act_calls_self ?_⟩
    rw [act_seen_self, (h.coming _ (Nat.le_refl _)).2, List.nil_append]
  | landed _ file result hcall =>
    obtain ⟨htext, hseen⟩ := h.loading hcall
    refine ⟨file, .landed result htext act_calls_self ?_⟩
    rw [act_seen_self, hseen]
    rfl
  | stored _ file text hcall =>
    obtain ⟨htext, hseen⟩ := h.landed hcall
    refine ⟨file, .missed d.now (.ok text) htext act_calls_self ?_⟩
    rw [act_seen_self, hseen]
    rfl
  | failed _ file fault hcall =>
    obtain ⟨htext, hseen⟩ := h.landed hcall
    refine ⟨file, .missed d.now (.error fault) htext act_calls_self ?_⟩
    rw [act_seen_self, hseen]
    rfl

/-- What the cache holds was there before, or is the text that was stored. -/
theorem Acts.kept (ha : Acts d n asked cache call seen) (h : Sound ttl d) :
    ∀ entry ∈ cache.entries, Stored (d.act n asked cache call seen).notes entry.1 entry.2.text entry.2.fetchedAt ∧
      entry.2.fetchedAt ≤ d.now := by
  have hold : ∀ entry ∈ d.cache.entries,
      Stored (d.act n asked cache call seen).notes entry.1 entry.2.text entry.2.fetchedAt ∧
        entry.2.fetchedAt ≤ d.now := by
    intro entry hentry
    obtain ⟨hstored, hpast⟩ := h.kept entry hentry
    exact ⟨hstored.mono (List.subset_append_left _ _), hpast⟩
  intro entry hentry
  cases ha with
  | refused | landed | failed => exact hold entry hentry
  | hit file e htext hget hfresh =>
    rcases Table.mem_put hentry with rfl | hentry
    · exact hold (file.url, e) (Table.mem_of_get? hget)
    · exact hold entry hentry
  | missed file entries htext hspares => exact hold entry (hspares.subset hentry)
  | stored _ file text hcall =>
    rcases Table.mem_put (Cache.insert_subset _ _ _ _ hentry) with rfl | hentry
    · obtain ⟨-, hseen⟩ := h.landed hcall
      have hended : (n, .ended file.url (.ok text)) ∈ d.notes := by
        rw [← mem_seen, hseen]
        simp
      have hanswered := List.mem_append_right d.notes (List.mem_singleton_self (n, Note.answered d.now (.ok text)))
      exact ⟨⟨n, List.mem_append_left _ hended, hanswered⟩, Nat.le_refl _⟩
    · exact hold entry hentry

theorem Acts.tally (ha : Acts d n asked cache call seen) :
    cache.tally.hits + cache.tally.misses =
        d.cache.tally.hits + d.cache.tally.misses + seen.countP Note.asksText ∧
      cache.tally.misses = d.cache.tally.misses + seen.countP Note.begins := by
  cases ha with
  | refused file htext => simp [Note.asksText, Note.begins, htext]
  | hit file e htext =>
    have hasks : [Note.asked file, .answered d.now (.ok e.text)].countP Note.asksText = 1 := by
      simp [Note.asksText, htext]
    rw [hasks]
    exact ⟨Nat.add_right_comm .., rfl⟩
  | missed file entries htext =>
    have hasks : [Note.asked file, .began file.url].countP Note.asksText = 1 := by
      simp [Note.asksText, htext]
    rw [hasks]
    exact ⟨rfl, rfl⟩
  | landed | stored | failed => simp [Note.asksText, Note.begins]

theorem Acts.counted (ha : Acts d n asked cache call seen) (h : Counted d) :
    Counted (d.act n asked cache call seen) := by
  have hnotes : ∀ p : Note → Bool, (d.act n asked cache call seen).notes.countP (p ·.2) =
      d.notes.countP (p ·.2) + seen.countP p := by
    intro p
    simp only [act, List.countP_append, List.countP_map]
    rfl
  obtain ⟨hall, hmisses⟩ := ha.tally
  refine ⟨?_, ?_⟩
  · rw [hnotes, ← h.all]
    exact hall
  · rw [hnotes, ← h.misses]
    exact hmisses

theorem Acts.ttl_eq (ha : Acts d n asked cache call seen) : cache.ttl = d.cache.ttl := by
  cases ha <;> rfl

theorem Sound.act (h : Sound ttl d) (ha : Acts d n asked cache call seen) :
    Sound ttl (d.act n asked cache call seen) where
  ttl_eq := ha.ttl_eq.trans h.ttl_eq
  coming m hm := by
    have hlt := ha.lt_asked h
    have hle : d.asked ≤ m := by
      rcases ha.asked_cases with rfl | ⟨-, rfl⟩
      · exact hm
      · exact Nat.le_of_succ_le hm
    have hne : m ≠ n := by
      rintro rfl
      exact Nat.lt_irrefl _ (Nat.lt_of_lt_of_le hlt hm)
    rw [act_calls_other hne, act_seen_other hne]
    exact h.coming m hle
  fates m hm := by
    by_cases hne : m = n
    · exact hne ▸ ha.fate h
    · have hlt : m < d.asked := by
        rcases ha.asked_cases with rfl | ⟨rfl, rfl⟩
        · exact hm
        · exact Nat.lt_of_le_of_ne (Nat.le_of_lt_succ hm) hne
      obtain ⟨file, hfate⟩ := h.fates m hlt
      exact ⟨file, hfate.of_same (act_calls_other hne) (act_seen_other hne) rfl⟩
  kept := ha.kept h
  counted := ha.counted h.counted

theorem Sound.wait (h : Sound ttl d) (duration : Nat) : Sound ttl { d with now := d.now + duration } where
  ttl_eq := h.ttl_eq
  coming := h.coming
  fates n hn := by
    obtain ⟨file, hfate⟩ := h.fates n hn
    exact ⟨file, hfate.of_same rfl rfl (List.append_nil _).symm⟩
  kept entry hentry := by
    obtain ⟨hstored, hpast⟩ := h.kept entry hentry
    exact ⟨hstored, Nat.le_add_right_of_le hpast⟩
  counted := ⟨h.counted.all, h.counted.misses⟩

theorem Sound.move (h : Sound ttl d) (m : Move) : Sound ttl (d.move m) := by
  rcases d.move_cases m with ⟨duration, hmove⟩ | ⟨n, asked, cache, call, seen, -, hacts, hmove⟩
  · rw [hmove]
    exact h.wait duration
  · rw [hmove]
    exact h.act hacts

end ReplyStream.Desk
