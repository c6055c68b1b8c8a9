/-
A desk serves only genuine and fresh texts (`serves_genuine`), however the
calls run into one another, whatever the downloads come to, however long
they take, and whichever of several texts that have gone unused for equally long are
dropped (`Turns`).

What is said of a call is read off its fate, and that off the record of any desk
that can be reached (`Reached.sound_tidy`).
-/
import Mathlib.Logic.Relation
import ReplyStream.Proofs.Cache.Recency

namespace ReplyStream.Desk

variable {ttl maxEntries n asked : Nat} {d d' d'' : Desk} {m : Move} {file file' : AttachedFile} {cache : Cache}
  {call : Option Call} {seen : List Note}

/-! ## Calls that fail -/

theorem Sound.ask_refused (h : Sound ttl d) (htext : file.isText = false) :
    d.move (.ask file) =
      { d with
        asked := d.asked + 1
        notes := d.notes ++ [(d.asked, .asked file),
          (d.asked, .answered d.now (.error (.unsupportedAttachment file.url file.contentType)))] } := by
  have hcalls : Function.update d.calls d.asked none = d.calls :=
    Function.update_eq_self_iff.2 (h.coming d.asked (Nat.le_refl _)).1.symm
  have hask : d.cache.ask d.now file =
      (d.cache, .settled (.error (.unsupportedAttachment file.url file.contentType))) := by
    simp [Cache.ask, htext]
  rw [Desk.move, ask, hask]
  simp only [Desk.act, hcalls]
  rfl

theorem Sound.fate (h : Sound ttl d) (hasked : (n, .asked file) ∈ d.notes) : Fate ttl d n file := by
  have hseen := mem_seen.2 hasked
  have hlt : n < d.asked := by
    rcases Nat.lt_or_ge n d.asked with hlt | hge
    · exact hlt
    · rw [(h.coming n hge).2] at hseen
      cases hseen
  obtain ⟨file', hfate⟩ := h.fates n hlt
  have hfile : file = file' := by cases hfate <;> simp_all
  exact hfile ▸ hfate

theorem Fate.file_unique (h : Fate ttl d n file) (hasked : (n, .asked file') ∈ d.notes) : file' = file := by
  have hseen := mem_seen.2 hasked
  cases h <;> simp_all

theorem Fate.answer_unique (h : Fate ttl d n file) {time time' : Nat} {answer answer' : Except Fault String}
    (h₁ : (n, .answered time answer) ∈ d.notes) (h₂ : (n, .answered time' answer') ∈ d.notes) :
    answer = answer' := by
  have hseen₁ := mem_seen.2 h₁
  have hseen₂ := mem_seen.2 h₂
  cases h <;> simp_all

theorem Acts.spares (ha : Acts d n asked cache call seen) (hfile : ∀ file', .asked file' ∈ seen → file' = file)
    (hfails : ∀ time text, .answered time (.ok text) ∉ seen) : d.cache.Spares d.now file.url cache.entries := by
  cases ha with
  | refused | landed | failed => exact .inl rfl
  | hit file e => exact absurd (List.mem_cons_of_mem _ (List.mem_singleton_self _)) (hfails d.now e.text)
  | stored _ _ text => exact absurd (List.mem_singleton_self _) (hfails d.now text)
  | missed file' entries htext hspares =>
    obtain rfl : file' = file := hfile file' (by simp)
    exact hspares

/-! ## Turns -/

/-- Some turns lead from one desk to the other. -/
def Precedes (d d' : Desk) : Prop := Relation.ReflTransGen (fun d d' => ∃ m, d.Turns m d') d d'

/-- A turn lets time pass, or a call acts; room may be made in other ways than
`Acts` says, but only by a call that is answered with a text. -/
theorem Turns.cases (h : d.Turns m d') :
    (∃ duration, d' = { d with now := d.now + duration }) ∨
      ∃ n asked cache call seen, m.caller d = some n ∧ d' = d.act n asked cache call seen ∧
        (Acts d n asked cache call seen ∨ ∃ text, .answered d.now (.ok text) ∈ seen) := by
  cases h with
  | stores => exact .inr ⟨_, _, _, _, _, rfl, rfl, .inr ⟨_, List.mem_singleton_self _⟩⟩
  | moves =>
    refine (d.move_cases m).imp_right ?_
    rintro ⟨n, asked, cache, call, seen, hcaller, hacts, hmove⟩
    exact ⟨n, asked, cache, call, seen, hcaller, hmove, .inl hacts⟩

theorem Turns.notes_subset (h : d.Turns m d') : d.notes ⊆ d'.notes := by
  rcases h.cases with ⟨duration, rfl⟩ | ⟨n, asked, cache, call, seen, -, rfl, -⟩
  · exact List.Subset.refl _
  · exact List.subset_append_left _ _

theorem Precedes.notes_subset (h : d.Precedes d') : d.notes ⊆ d'.notes := by
  induction h with
  | refl => exact List.Subset.refl _
  | tail _ hturn ih =>
    obtain ⟨m, hturns⟩ := hturn
    exact List.Subset.trans ih hturns.notes_subset

theorem Precedes.reached (h : d.Precedes d') (hd : Reached ttl maxEntries d) : Reached ttl maxEntries d' := by
  induction h with
  | refl => exact hd
  | tail _ hturn ih =>
    obtain ⟨m, hturns⟩ := hturn
    exact ih.turn hturns

/-- A call that fails in the end only drops a stale entry of its file. -/
theorem Turns.spares (h : d.Turns m d') (hsound : Sound ttl d'') (hnotes : d'.notes ⊆ d''.notes)
    (hcaller : m.caller d = some n) (hasked : (n, .asked file) ∈ d''.notes) {time : Nat} {fault : Fault}
    (hfailed : (n, .answered time (.error fault)) ∈ d''.notes) :
    d.cache.Spares d.now file.url d'.cache.entries := by
  have hfate := hsound.fate hasked
  rcases h.cases with ⟨duration, rfl⟩ | ⟨n', asked, cache, call, seen, hcaller', rfl, hacts⟩
  · exact .inl rfl
  · obtain rfl : n' = n := Option.some.inj (hcaller'.symm.trans hcaller)
    have hseen : ∀ x ∈ seen, (n', x) ∈ d''.notes := fun x hx =>
      hnotes (List.mem_append_right _ (List.mem_map_of_mem hx))
    have hfails : ∀ time text, .answered time (.ok text) ∉ seen := by
      intro time text hok
      cases hfate.answer_unique (hseen _ hok) hfailed
    rcases hacts with hacts | ⟨text, hok⟩
    · exact hacts.spares (fun file' hfile => hfate.file_unique (hseen _ hfile)) hfails
    · exact absurd hok (hfails d.now text)

/-! ## Calls that are answered -/

theorem turns_ask_refused (hsound : Sound ttl d) (htext : file.isText = false) :
    d.Turns (.ask file) d' ↔ d' = { d with
      asked := d.asked + 1
      notes := d.notes ++ [(d.asked, .asked file),
        (d.asked, .answered d.now (.error (.unsupportedAttachment file.url file.contentType)))] } := by
  rw [← hsound.ask_refused htext]
  constructor
  · intro h
    cases h
    rfl
  · rintro rfl
    refine .moves ?_
    rintro ⟨n, file, text, hmove, -⟩
    cases hmove

/-- A call that takes what its download has come to is answered with that. -/
theorem answered_of_landed {result : Except TransportFault String} (hcall : d.calls n = some (.landed file result))
    (h : d.Turns (.settle n) d') : (n, .answered d.now (result.mapError (.attachmentFetch file.url))) ∈ d'.notes := by
  cases h with
  | stores hstored =>
    rw [hcall] at hstored
    cases hstored
    exact List.mem_append_right _ (List.mem_singleton_self _)
  | moves hnot =>
    cases result with
    | ok text => exact absurd ⟨n, file, text, rfl, hcall⟩ hnot
    | error fault =>
      rw [Desk.move, settle, hcall]
      exact List.mem_append_right _ (List.mem_singleton_self _)

theorem answered_of_loading {d₁ d₂ : Desk} {result : Except TransportFault String}
    (hcall : d.calls n = some (.loading file)) (hland : d.Turns (.land n result) d₁) (hsettle : d₁.Turns (.settle n) d₂) :
    (n, .answered d.now (result.mapError (.attachmentFetch file.url))) ∈ d₂.notes := by
  have hlanded : d₁ = d.act n d.asked d.cache (some (.landed file result)) [.ended file.url result] := by
    cases hland
    rw [Desk.move, land, hcall]
  have hcall₁ : d₁.calls n = some (.landed file result) := by
    rw [hlanded]
    exact act_calls_self
  have hnow : d₁.now = d.now := by rw [hlanded, act]
  rw [← hnow]
  exact answered_of_landed hcall₁ hsettle

/-- When the downloads of a URL that succeed all give the same text, that is
what a call for it comes to, unless its own download fails. -/
theorem Fate.unchanging (h : Fate ttl d n file) {files : String → String}
    (hfiles : ∀ m url text, (m, .ended url (.ok text)) ∈ d.notes → text = files url) (htext : file.isText = true)
    {time : Nat} {answer : Except Fault String} (hanswer : (n, .answered time answer) ∈ d.notes) :
    answer = .ok (files file.url) ∨
      ∃ fault, (n, .ended file.url (.error fault)) ∈ d.notes ∧
        answer = .error (.attachmentFetch file.url fault) := by
  have hmem := mem_seen.2 hanswer
  cases h with
  | refused _ hnot => simp_all
  | hit time stored text before rest _ _ hseen hnotes hstored =>
    obtain ⟨m, hended, -⟩ := hstored
    have hfile := hfiles m file.url text (by rw [hnotes]; exact List.mem_append_left _ hended)
    left
    simp_all
  | loading _ _ hseen => simp_all
  | landed _ _ _ hseen => simp_all
  | missed time result _ _ hseen =>
    have hended : (n, .ended file.url result) ∈ d.notes := by
      rw [← mem_seen, hseen]
      simp
    obtain rfl : answer = result.mapError (.attachmentFetch file.url) := by simp_all
    cases result with
    | ok text => exact .inl (congrArg Except.ok (hfiles n file.url text hended))
    | error fault => exact .inr ⟨fault, hended, rfl⟩

/-- **Only genuine and fresh texts are served**, however calls, downloads and
time run into one another: a call is refused, served with a text that was
downloaded and stored for its URL less than the limit ago, or answered with
what its one download came to, and is counted accordingly. A call that fails
takes at most a stale entry of its own URL out of the cache; and when files
never change, each text served is the file. -/
theorem serves_genuine (ttl maxEntries : Nat) :
    (∀ moves, Reached ttl maxEntries ((new ttl maxEntries).after moves)) ∧
    ∀ d, Reached ttl maxEntries d →
      (∀ m, d.Turns m (d.move m)) ∧
      (∀ file : AttachedFile, file.isText = false → ∀ d', d.Turns (.ask file) d' ↔
        d' = { d with
          asked := d.asked + 1
          notes := d.notes ++ [(d.asked, .asked file),
            (d.asked, .answered d.now (.error (.unsupportedAttachment file.url file.contentType)))] }) ∧
      (∀ n file, (n, .asked file) ∈ d.notes → Fate ttl d n file) ∧ Counted d ∧
      (∀ n file result d₁ d₂, d.calls n = some (.loading file) → d.Turns (.land n result) d₁ →
        d₁.Turns (.settle n) d₂ →
          (n, .answered d.now (result.mapError (.attachmentFetch file.url))) ∈ d₂.notes) ∧
      (∀ m d' d'' n file time fault, d.Turns m d' → d'.Precedes d'' → m.caller d = some n →
        (n, .asked file) ∈ d''.notes → (n, .answered time (.error fault)) ∈ d''.notes →
          d.cache.Spares d.now file.url d'.cache.entries) ∧
      ∀ files : String → String, (∀ n url text, (n, .ended url (.ok text)) ∈ d.notes → text = files url) →
        ∀ n file time answer, (n, .asked file) ∈ d.notes → file.isText = true →
          (n, .answered time answer) ∈ d.notes →
          answer = .ok (files file.url) ∨
            ∃ fault, (n, .ended file.url (.error fault)) ∈ d.notes ∧
              answer = .error (.attachmentFetch file.url fault) := by
  refine ⟨Reached.new.after, fun d hreached => ?_⟩
  obtain ⟨hsound, htidy⟩ := hreached.sound_tidy
  refine ⟨turns_move htidy.nodup, fun file htext d' => turns_ask_refused hsound htext, fun n file => hsound.fate,
    hsound.counted, fun _ _ _ _ _ => answered_of_loading, ?_, ?_⟩
  · intro m d' d'' n file time fault hturns hlater hcaller hasked hfailed
    have hsound' := (hlater.reached (hreached.turn hturns)).sound_tidy.1
    exact hturns.spares hsound' hlater.notes_subset hcaller hasked hfailed
  · intro files hfiles n file time answer hasked htext hanswer
    exact (hsound.fate hasked).unchanging hfiles htext hanswer

end ReplyStream.Desk
