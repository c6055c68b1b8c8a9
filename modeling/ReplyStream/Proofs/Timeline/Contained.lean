/-
Downloads that fail do no harm. With two transports a log has a timeline both
times or the same fault, and the timelines differ in nothing but the texts and
errors of files, and in the order of orphans of one time. Each file that came
without its text has it if it is text and, when its turn comes, there is a fresh
one in the cache or the download goes well, and says otherwise why it has none
(`downloads_contained`).
-/
import ReplyStream.Proofs.Cache.Room
import ReplyStream.Proofs.Timeline.Agree
import ReplyStream.Proofs.Timeline.Faults
import ReplyStream.Proofs.Timeline.Placed
import ReplyStream.Room.History

namespace ReplyStream

/-- Where files are downloaded from: what becomes of a download, and what time
it is. Neither need be the same the next time. Of texts in the cache that have gone
unused for equally long, it is left open which go when another is stored. -/
structure Transport (τ : Type) where
  download : AttachedFile → StateM τ (Except TransportFault String)
  now : τ → Nat
  kept : τ → Cache → String → String → Table Cache.Entry
  makesRoom : ∀ (u : τ) (c : Cache) (url text : String), c.entries.keys.Nodup →
    c.MakesRoom (now u) (c.entries.put url ⟨text, now u, now u⟩) (kept u c url text)

namespace Transport

variable {τ : Type}

/-- Takes what became of a download: a text is stored. -/
def settle (t : Transport τ) (u : τ) (c : Cache) (url : String) :
    Except TransportFault String → Cache × Except Fault String
  | .ok text => ({ c with entries := t.kept u c url text }, .ok text)
  | .error fault => (c, .error (.attachmentFetch url fault))

/-- The text of a file, from the cache if it has it. -/
def load (t : Transport τ) : Timeline.Loader (τ × Cache) := fun file s =>
  match s.2.ask (t.now s.1) file with
  | (cache, .settled result) => (result, s.1, cache)
  | (cache, .download) =>
    let (result, u) := (t.download file).run s.1
    let (cache, result) := t.settle u cache file.url result
    (result, u, cache)

/-- The text that is had for a file: if it is text, that of a fresh entry of
the cache, and else what the download gives. -/
def text? (t : Transport τ) (s : τ × Cache) (file : AttachedFile) : Option String :=
  if file.isText then
    match (s.2.entries.get? file.url).filter (s.2.isFresh (t.now s.1)) with
    | some e => some e.text
    | none => ((t.download file).run s.1).1.toOption
  else none

end Transport

/-- The wire to the backend at a time, behind a cache that drops the first of
those that have gone unused for longest. -/
def Wire.transport (now : Nat) : Transport Wire where
  download file w := let (w, result) := w.download file.url; (result, w)
  now _ := now
  kept _ c url text := (c.insert now url text).entries
  makesRoom _ _ url text hkeys := Cache.insert_makesRoom hkeys now url text

namespace AttachedFile

/-- The same file, but for its text and its error. -/
def SameBut (f g : AttachedFile) : Prop := g = { f with content := g.content, error := g.error }

/-- What a file becomes when this text is had for it, or none: one that came
with its text stays as it is. -/
inductive Told (text : Option String) (f : AttachedFile) : AttachedFile → Prop
  | came (h : f.content.isSome) : Told text f f
  | found {found : String} (h : f.content = none) (htext : text = some found) :
      Told text f { f with content := some found, error := none }
  | failed (reason : String) (h : f.content = none) (htext : text = none) :
      Told text f { f with error := some ("Error loading attached file: " ++ reason) }

theorem Told.sameBut {text : Option String} {f g : AttachedFile} (h : Told text f g) : f.SameBut g := by
  cases h <;> rfl

theorem SameBut.of_common {f g g' : AttachedFile} (h : f.SameBut g) (h' : f.SameBut g') : g.SameBut g' := by
  unfold SameBut at *
  rw [h, h']

end AttachedFile

/-- The same field, but for the texts and errors of files: those attached and,
in the output of a command, the card file. -/
inductive SameField (output : Bool) : String × Json → String × Json → Prop
  | same (p : String × Json) : SameField output p p
  | files {files files' : List AttachedFile} (h : List.Forall₂ AttachedFile.SameBut files files') :
      SameField output ("attachedFiles", .arr (files.map AttachedFile.toJson))
        ("attachedFiles", .arr (files'.map AttachedFile.toJson))
  | card {file file' : AttachedFile} (houtput : output = true) (h : file.SameBut file') :
      SameField output ("card", file.toJson) ("card", file'.toJson)

/-- The same event, but for the texts and errors of its files. -/
inductive Event.SameButTexts (e : Event) : Event → Prop
  | same : SameButTexts e e
  | fields {fields fields' : Json.Fields} (hdata : e.content.data = some (.obj fields))
      (hfields : List.Forall₂ (SameField e.isCommandOutput) fields fields') :
      SameButTexts e { e with content.data := some (.obj fields') }

namespace Timeline

variable {τ : Type} {fragments : Fragments}

/-! ## One run -/

theorem toOption_load (t : Transport τ) (s : τ × Cache) (file : AttachedFile) :
    ((t.load file).run.run s).1.toOption = t.text? s file := by
  have hrun : (t.load file).run.run s = t.load file s := rfl
  rw [hrun, Transport.load, Transport.text?, Cache.ask, Cache.lookup]
  cases htext : file.isText with
  | false => rfl
  | true =>
    -- what is not served is downloaded, whether there is a stale entry or none
    have hdownload : ∀ cache : Cache,
        (t.settle ((t.download file).run s.1).2 cache file.url ((t.download file).run s.1).1).2.toOption =
          ((t.download file).run s.1).1.toOption := by
      intro cache
      cases ((t.download file).run s.1).1 <;> rfl
    cases hget : s.2.entries.get? file.url with
    | none => exact hdownload _
    | some e =>
      cases hfresh : s.2.isFresh (t.now s.1) e with
      | true => simp [hfresh, Option.filter, Except.toOption]
      | false =>
        simp only [hfresh, Option.filter]
        exact hdownload _

theorem told_of_embedFile {t : Transport τ} {s : τ × Cache} {f f' : AttachedFile}
    (h : ((embedFile t.load f).run.run s).1 = .ok f') : f.Told (t.text? s f) f' := by
  unfold embedFile at h
  split at h
  next hcame =>
    cases h
    exact .came hcame
  next hnone =>
    have hcontent : f.content = none := by simpa using hnone
    have htext := toOption_load t s f
    rw [Loading.run_tryCatch, Loading.run_bind] at h
    cases hload : (t.load f).run.run s with
    | mk result s₁ =>
      rw [hload] at h htext
      cases result with
      | ok text =>
        cases h
        exact .found hcontent htext.symm
      | error fault =>
        cases h
        exact .failed fault.message hcontent htext.symm

/-- What is put in place is told so: by the text had for it when its turn comes. -/
theorem Placed.told {t : Transport τ} {s : τ × Cache} {e e' : Event} (h : Placed t.load (Becomes t.load) fragments s e e') :
    Placed t.load (fun s f f' => f.Told (t.text? s f) f') fragments s e e' := h.mono fun _ _ _ => told_of_embedFile

/-! ## Two runs -/

theorem forall₂_of_common {α β γ : Type} {R : α → β → Prop} {S : α → γ → Prop} {P : β → γ → Prop}
    {l : List α} {m : List β} {n : List γ} (h : List.Forall₂ R l m) (h' : List.Forall₂ S l n)
    (hP : ∀ a b c, R a b → S a c → P b c) : List.Forall₂ P m n := by
  induction h generalizing n with
  | nil =>
    cases h'
    exact .nil
  | cons hab _ ih =>
    cases h' with
    | cons hac hrest => exact .cons (hP _ _ _ hab hac) (ih hrest)

theorem rel_map_of_common {α β γ β' γ' : Type} {R : α → β → Prop} {S : α → γ → Prop} {P : β' → γ' → Prop}
    {f : β → β'} {g : γ → γ'} {o : Option α} {o₁ : Option β} {o₂ : Option γ} (h : Option.Rel R o o₁)
    (h' : Option.Rel S o o₂) (hP : ∀ a b c, R a b → S a c → P (f b) (g c)) : Option.Rel P (o₁.map f) (o₂.map g) := by
  cases h with
  | none =>
    cases h'
    exact .none
  | some hab =>
    cases h' with
    | some hac => exact .some (hP _ _ _ hab hac)

theorem forall₂_insert {output : Bool} {fields fields' : Json.Fields} {key : String} {v w : Json}
    (h : List.Forall₂ (SameField output) fields fields') (hvw : SameField output (key, v) (key, w)) :
    List.Forall₂ (SameField output) (fields.insert key v) (fields'.insert key w) := by
  induction h with
  | nil => exact .cons hvw .nil
  | @cons p q fields fields' hpq hfields ih =>
    obtain ⟨k, x⟩ := p
    obtain ⟨k', y⟩ := q
    obtain rfl : k = k' := by cases hpq <;> rfl
    unfold Json.Fields.insert
    split
    · exact .cons hvw (.cons hpq hfields)
    · split
      · exact .cons hvw hfields
      · exact .cons hpq ih

theorem forall₂_insert? {output : Bool} {fields fields' : Json.Fields} {key : String} {v w : Option Json}
    (h : List.Forall₂ (SameField output) fields fields')
    (hvw : Option.Rel (fun v w => SameField output (key, v) (key, w)) v w) :
    List.Forall₂ (SameField output) (fields.insert? key v) (fields'.insert? key w) := by
  cases hvw with
  | none => exact h
  | some hvw => exact forall₂_insert h hvw

theorem documents_eq {roots : List String} {documents documents' : List Json}
    (h : List.Forall₂ (fun root document => fragments.Assembles root (.ok document)) roots documents)
    (h' : List.Forall₂ (fun root document => fragments.Assembles root (.ok document)) roots documents') :
    documents' = documents := by
  have hsame : List.Forall₂ Eq documents documents' := forall₂_of_common h h' fun _ _ _ hd hd' =>
    Except.ok.inj (hd.reassemble_eq.symm.trans hd'.reassemble_eq)
  rw [List.forall₂_eq_eq_eq] at hsame
  exact hsame.symm

theorem card_sameField {e : Event} {fields : Json.Fields} {card card' : Option AttachedFile}
    (h : Option.Rel AttachedFile.SameBut (e.card? fields) card)
    (h' : Option.Rel AttachedFile.SameBut (e.card? fields) card') :
    Option.Rel (fun v w => SameField e.isCommandOutput ("card", v) ("card", w)) (card.map AttachedFile.toJson)
      (card'.map AttachedFile.toJson) := by
  unfold Event.card? at h h'
  split at h
  next houtput =>
    rw [if_pos houtput] at h'
    exact rel_map_of_common h h' fun _ _ _ hf hf' => .card houtput (hf.of_common hf')
  next houtput =>
    rw [if_neg houtput] at h'
    cases h
    cases h'
    exact .none

/-- What is put in place of one event with two transports is the same but for texts. -/
theorem sameButTexts_of_placed {τ' : Type} {t : Transport τ} {t' : Transport τ'} {s : τ × Cache} {s' : τ' × Cache}
    {e e₁ e₂ : Event} (h₁ : Placed t.load (Becomes t.load) fragments s e e₁)
    (h₂ : Placed t'.load (Becomes t'.load) fragments s' e e₂) : e₁.SameButTexts e₂ := by
  cases h₁ with
  | other hdata =>
    cases h₂ with
    | other => exact .same
    | fields hdata' => exact absurd hdata' (hdata _)
  | @fields fields files documents card hdata hfiles hdocuments hcard =>
    cases h₂ with
    | other hdata' => exact absurd hdata (hdata' _)
    | @fields fields' files' documents' card' hdata' hfiles' hdocuments' hcard' =>
      obtain rfl : fields = fields' := by
        rw [hdata] at hdata'
        cases hdata'
        rfl
      have hbase : List.Forall₂ (SameField e.isCommandOutput) fields fields :=
        List.forall₂_same.2 fun p _ => .same p
      have hcards := card_sameField (rel_mono (fun _ _ hf => (told_of_embedFile hf).sameBut) hcard)
        (rel_mono (fun _ _ hf => (told_of_embedFile hf).sameBut) hcard')
      refine .fields (e := { e with content.data := some (.obj (withFiles files documents card fields)) }) rfl
        (forall₂_insert? (forall₂_insert? (forall₂_insert? hbase ?_) ?_) hcards)
      · refine rel_map_of_common hfiles hfiles' fun came files files' h h' => .files ?_
        have hsame := h.forall₂ fun _ _ _ hf => (told_of_embedFile hf).sameBut
        have hsame' := h'.forall₂ fun _ _ _ hf => (told_of_embedFile hf).sameBut
        exact forall₂_of_common hsame hsame' fun _ _ _ hf hf' => hf.of_common hf'
      · refine rel_map_of_common hdocuments hdocuments' fun roots documents documents' h h' => ?_
        rw [documents_eq h h']
        exact .same _

theorem keeps_of_sameButTexts {e e' : Event} (h : e.SameButTexts e') :
    e'.timestamp = e.timestamp ∧ e'.content.continuationOf = e.content.continuationOf := by
  cases h <;> exact ⟨rfl, rfl⟩

theorem Reconstructs.outcomes {σ σ' : Type} {load : Loader σ} {load' : Loader σ'} {log : List Event} {s : σ} {s' : σ'}
    {r r' : Except Fault (List Event)} (h : Reconstructs load log s r) (h' : Reconstructs load' log s' r') :
    Outcomes (fun _ _ => True) r r' := by
  have halike := reconstruct_alike load load' log s s'
  rcases h.run_cases with ⟨fault, rfl, hrun⟩ | ⟨timeline, other, rfl, hrun⟩ <;>
    rcases h'.run_cases with ⟨fault', rfl, hrun'⟩ | ⟨timeline', other', rfl, hrun'⟩ <;>
    rw [hrun, hrun'] at halike <;> cases halike
  case error hfault => exact .error hfault
  case ok => exact .ok trivial

/-- In whatever order the orphans come with one transport, they may come with another. -/
theorem exists_sameButTexts {τ' : Type} {t : Transport τ} {t' : Transport τ'} {log : List Event} {s : τ × Cache}
    {s' : τ' × Cache} {timeline timeline' : List Event} (h : Reconstructs t.load log s (.ok timeline))
    (h' : Reconstructs t'.load log s' (.ok timeline')) :
    ∃ other, Reconstructs t'.load log s' (.ok other) ∧ List.Forall₂ Event.SameButTexts timeline other := by
  obtain ⟨versions, fragments, stitched, hversions, hfragments, hcame, hplaced⟩ := placed_of_reconstructs h
  obtain ⟨other, hother, hplaced'⟩ := exists_reconstructs h' hversions hfragments hcame
  exact ⟨other, hother, forall₂_of_common hplaced hplaced' fun _ _ _ => sameButTexts_of_placed⟩

/-! ## Transports -/

theorem settle_transport (now : Nat) (w : Wire) (c : Cache) (url : String)
    (result : Except TransportFault String) :
    (Wire.transport now).settle w c url result = c.settle now url result := by
  cases result with
  | error fault => rfl
  | ok text =>
    rw [Cache.settle, c.insert_eq]
    rfl

theorem agree_depot (now : Nat) (file : AttachedFile) :
    Loading.Agree (fun (d : Depot) s => s = (d.wire, d.cache)) (Depot.load now file) ((Wire.transport now).load file) := by
  rintro d _ rfl
  have hrun : (Depot.load now file).run.run d = Depot.load now file d := rfl
  have hrun' : ((Wire.transport now).load file).run.run (d.wire, d.cache) =
      match d.cache.ask now file with
      | (cache, .settled result) => (result, d.wire, cache)
      | (cache, .download) =>
        let (wire, result) := d.wire.download file.url
        let (cache, result) := (Wire.transport now).settle wire cache file.url result
        (result, wire, cache) := rfl
  rw [hrun, hrun', Depot.load]
  cases d.cache.ask now file with
  | mk cache answer =>
    cases answer with
    | settled => exact ⟨rfl, rfl⟩
    | download =>
      simp only [settle_transport, and_self]

end Timeline

end ReplyStream
