/-
What stands in a timeline for the files its events refer to. Files are loaded in
turn (`Event.files`), those of one message after those of the one before, and
each is put where it was: a timeline is that of the newest versions as they came
(`cameAs`), with files and card documents in place (`placed_of_reconstructs`). It is one
of those a log may come to, as orphans have no order (`Reconstructs`).
-/
import ReplyStream.Proofs.Timeline.Documents
import ReplyStream.Proofs.Timeline.Order
import ReplyStream.Proofs.Timeline.Orphans

namespace ReplyStream

/-- The fields with a value at a key, if there is one. -/
def Json.Fields.insert? (fields : Json.Fields) (key : String) (v : Option Json) : Json.Fields :=
  v.elim fields (fields.insert key)

namespace Event

/-- The files that come with an event of such data. -/
def attached? (fields : Json.Fields) : Option (List AttachedFile) :=
  (fields.get? "attachedFiles").bind (Json.list? AttachedFile.ofJson?)

/-- The events with the first pieces of its cards. -/
def roots? (fields : Json.Fields) : Option (List String) :=
  (fields.get? "attachedCardsEventIds").bind (Json.list? Json.string?)

/-- The card file, if it is the output of a command. -/
def card? (e : Event) (fields : Json.Fields) : Option AttachedFile :=
  if e.isCommandOutput then (fields.get? "card").bind AttachedFile.ofJson? else none

/-- The files of an event, in the order in which they are put in place. -/
def files (e : Event) : List AttachedFile :=
  match e.content.data with
  | some (.obj fields) => (attached? fields).getD [] ++ (e.card? fields).toList
  | _ => []

end Event

namespace Timeline

/-- Such data with files, card documents and a card file put into it. -/
def withFiles (files : Option (List AttachedFile)) (documents : Option (List Json)) (card : Option AttachedFile)
    (fields : Json.Fields) : Json.Fields :=
  ((fields.insert? "attachedFiles" (files.map fun files => .arr (files.map AttachedFile.toJson))).insert?
    "attachedCards" (documents.map .arr)).insert? "card" (card.map AttachedFile.toJson)

variable {σ α : Type} {load : Loader σ} {told told' : σ → AttachedFile → AttachedFile → Prop} {s s' : σ}
  {fragments : Fragments}

/-! ## Files in turn -/

/-- The state of a loader behind some files. -/
def after (load : Loader σ) (s : σ) (files : List AttachedFile) : σ :=
  files.foldl (fun s f => ((embedFile load f).run.run s).2) s

theorem after_append (load : Loader σ) (s : σ) (files more : List AttachedFile) :
    after load s (files ++ more) = after load (after load s files) more := List.foldl_append

/-- What becomes of files one after another, each being told in the state in
which the loader is when its turn comes. -/
inductive InTurn (load : Loader σ) (told : σ → AttachedFile → AttachedFile → Prop) :
    σ → List AttachedFile → List AttachedFile → Prop where
  | nil (s : σ) : InTurn load told s [] []
  | cons {s : σ} {f f' : AttachedFile} {files files' : List AttachedFile} (hfirst : told s f f')
      (hrest : InTurn load told (after load s [f]) files files') : InTurn load told s (f :: files) (f' :: files')

theorem InTurn.mono {files files' : List AttachedFile} (h : InTurn load told s files files')
    (himp : ∀ s f f', told s f f' → told' s f f') : InTurn load told' s files files' := by
  induction h with
  | nil s => exact .nil s
  | cons hfirst _ ih => exact .cons (himp _ _ _ hfirst) ih

theorem InTurn.forall₂ {R : AttachedFile → AttachedFile → Prop} {files files' : List AttachedFile}
    (h : InTurn load told s files files') (himp : ∀ s f f', told s f f' → R f f') : List.Forall₂ R files files' := by
  induction h with
  | nil => exact .nil
  | cons hfirst _ ih => exact .cons (himp _ _ _ hfirst) ih

/-- What becomes of a file that is put in place. -/
def Becomes (load : Loader σ) (s : σ) (f f' : AttachedFile) : Prop := ((embedFile load f).run.run s).1 = .ok f'

theorem becomes_of_gives {f f' : AttachedFile} (h : (embedFile load f).Gives s f' s') :
    Becomes load s f f' ∧ s' = after load s [f] :=
  ⟨congrArg Prod.fst h, (congrArg Prod.snd h).symm⟩

theorem inTurn_of_mapM {files files' : List AttachedFile} (h : (files.mapM (embedFile load)).Gives s files' s') :
    InTurn load (Becomes load) s files files' ∧ s' = after load s files := by
  induction files generalizing files' s with
  | nil =>
    obtain ⟨rfl, rfl⟩ := Loading.gives_pure.1 h
    exact ⟨.nil s', rfl⟩
  | cons f files ih =>
    rw [List.mapM_cons] at h
    obtain ⟨f', s₁, hf, h₁⟩ := Loading.gives_bind.1 h
    obtain ⟨files'', s₂, hfiles, h₂⟩ := Loading.gives_bind.1 h₁
    obtain ⟨rfl, rfl⟩ := Loading.gives_pure.1 h₂
    obtain ⟨hfirst, rfl⟩ := becomes_of_gives hf
    obtain ⟨hrest, rfl⟩ := ih hfiles
    exact ⟨.cons hfirst hrest, (after_append load s [f] files).symm⟩

/-! ## Events -/

/-- An event with what it refers to in place: each file where it was, as it is
told to be when its turn comes, and the documents of its cards. The loader is
in state `s` when that of the event comes. -/
inductive Placed (load : Loader σ) (told : σ → AttachedFile → AttachedFile → Prop) (fragments : Fragments) (s : σ)
    (e : Event) : Event → Prop where
  | fields {fields : Json.Fields} {files : Option (List AttachedFile)} {documents : Option (List Json)}
      {card : Option AttachedFile} (hdata : e.content.data = some (.obj fields))
      (hfiles : Option.Rel (InTurn load told s) (Event.attached? fields) files)
      (hdocuments : Option.Rel (List.Forall₂ fun root document => fragments.Assembles root (.ok document))
        (Event.roots? fields) documents)
      (hcard : Option.Rel (told (after load s ((Event.attached? fields).getD []))) (e.card? fields) card) :
      Placed load told fragments s e { e with content.data := some (.obj (withFiles files documents card fields)) }
  | other (hdata : ∀ fields, e.content.data ≠ some (.obj fields)) : Placed load told fragments s e e

theorem rel_mono {β : Type} {R S : α → β → Prop} (himp : ∀ a b, R a b → S a b) {o : Option α} {o' : Option β}
    (h : Option.Rel R o o') : Option.Rel S o o' := by
  cases h with
  | none => exact .none
  | some hab => exact .some (himp _ _ hab)

theorem Placed.mono {e e' : Event} (h : Placed load told fragments s e e')
    (himp : ∀ s f f', told s f f' → told' s f f') : Placed load told' fragments s e e' := by
  cases h with
  | fields hdata hfiles hdocuments hcard =>
    exact .fields hdata (rel_mono (fun _ _ h => h.mono himp) hfiles) hdocuments (rel_mono (himp _) hcard)
  | other hdata => exact .other hdata

theorem Placed.filled {e e' : Event} (h : Placed load told fragments s e e') : e.Filled e' := by
  cases h with
  | fields => exact ⟨_, rfl⟩
  | other => exact .refl e

/-- An event that absorbs others has its own files in place, and no others. -/
theorem carried_placed (load : Loader σ) (told : σ → AttachedFile → AttachedFile → Prop) (fragments : Fragments)
    (start : String → σ) : Carried fun e e' => Placed load told fragments (start e.id) e e' where
  filled := Placed.filled
  absorb {e _ next _} h hnext := by
    obtain ⟨data, rfl⟩ := hnext.filled
    cases h with
    | fields hdata hfiles hdocuments hcard => exact .fields (e := e.absorb next) hdata hfiles hdocuments hcard
    | other hdata => exact .other (e := e.absorb next) hdata

theorem gives_replaceAt {eventId key target : String} {read : Json → Option α} {f : α → Loading σ Json}
    {fields fields' : Json.Fields} (h : (replaceAt eventId key target read f fields).Gives s fields' s') :
    ((fields.get? key).bind read = none ∧ fields' = fields ∧ s' = s) ∨
      ∃ a v, (fields.get? key).bind read = some a ∧ (f a).Gives s v s' ∧ fields' = fields.insert target v := by
  unfold replaceAt at h
  split at h
  next hnone =>
    obtain ⟨rfl, rfl⟩ := Loading.gives_pure.1 h
    exact .inl ⟨by rw [hnone]; rfl, rfl, rfl⟩
  next v hv =>
    split at h
    · exact absurd h Loading.not_gives_throw
    next a ha =>
      obtain ⟨w, s₁, hw, h₁⟩ := Loading.gives_bind.1 h
      obtain ⟨rfl, rfl⟩ := Loading.gives_pure.1 h₁
      exact .inr ⟨a, w, by rw [hv]; exact ha, hw, rfl⟩

section Steps

variable {eventId : String} {fields fields' : Json.Fields}

theorem files_of_gives (h : (embedFiles load eventId fields).Gives s fields' s') : ∃ files,
    Option.Rel (InTurn load (Becomes load) s) (Event.attached? fields) files ∧
      fields' = fields.insert? "attachedFiles" (files.map fun files => .arr (files.map AttachedFile.toJson)) ∧
      s' = after load s ((Event.attached? fields).getD []) := by
  rcases gives_replaceAt h with ⟨hnone, rfl, rfl⟩ | ⟨files, v, hread, hv, rfl⟩
  · rw [Event.attached?, hnone]
    exact ⟨none, .none, rfl, rfl⟩
  · obtain ⟨files', s₁, hfiles, hv⟩ := Loading.gives_bind.1 hv
    obtain ⟨rfl, rfl⟩ := Loading.gives_pure.1 hv
    obtain ⟨hturn, rfl⟩ := inTurn_of_mapM hfiles
    rw [Event.attached?, hread]
    exact ⟨some files', .some hturn, rfl, rfl⟩

theorem documents_of_gives (h : (embedCards fragments eventId fields).Gives s fields' s') : ∃ documents,
    Option.Rel (List.Forall₂ fun root document => fragments.Assembles root (.ok document)) (Event.roots? fields)
        documents ∧
      fields' = fields.insert? "attachedCards" (documents.map .arr) ∧ s' = s := by
  rcases gives_replaceAt h with ⟨hnone, rfl, rfl⟩ | ⟨roots, v, hread, hv, rfl⟩
  · rw [Event.roots?, hnone]
    exact ⟨none, .none, rfl, rfl⟩
  · obtain ⟨documents, s₁, hdocuments, hv⟩ := Loading.gives_bind.1 hv
    obtain ⟨rfl, rfl⟩ := Loading.gives_pure.1 hv
    obtain ⟨hall, rfl⟩ := Loading.gives_ofExcept.1 hdocuments
    rw [Event.roots?, hread]
    have hplaced := (forall₂_of_mapM_ok hall).imp fun _ _ hroot => Fragments.reassemble_eq_iff.1 hroot
    exact ⟨some documents, .some hplaced, rfl, rfl⟩

theorem card_of_gives {e : Event} (h : (if e.isCommandOutput then embedOutput load eventId fields else
    pure fields : Loading σ Json.Fields).Gives s fields' s') : ∃ card,
    Option.Rel (Becomes load s) (e.card? fields) card ∧
      fields' = fields.insert? "card" (card.map AttachedFile.toJson) ∧ s' = after load s (e.card? fields).toList := by
  unfold Event.card?
  split at h
  next houtput =>
    rw [if_pos houtput]
    rcases gives_replaceAt h with ⟨hnone, rfl, rfl⟩ | ⟨file, v, hread, hv, rfl⟩
    · rw [hnone]
      exact ⟨none, .none, rfl, rfl⟩
    · obtain ⟨file', s₁, hfile, hv⟩ := Loading.gives_bind.1 hv
      obtain ⟨rfl, rfl⟩ := Loading.gives_pure.1 hv
      obtain ⟨hbecomes, rfl⟩ := becomes_of_gives hfile
      rw [hread]
      exact ⟨some file', .some hbecomes, rfl, rfl⟩
  next houtput =>
    obtain ⟨rfl, rfl⟩ := Loading.gives_pure.1 h
    rw [if_neg houtput]
    exact ⟨none, .none, rfl, rfl⟩

end Steps

theorem get?_insert?_other {key other : String} (fields : Json.Fields) (v : Option Json) (hne : key ≠ other) :
    (fields.insert? key v).get? other = fields.get? other := by
  cases v with
  | none => rfl
  | some v => exact (Json.Fields.get?_insert fields key v other).trans (if_neg hne)

theorem placed_of_embed {e e' : Event} (h : (embed load fragments e).Gives s e' s') :
    Placed load (Becomes load) fragments s e e' ∧ s' = after load s e.files := by
  by_cases hobj : ∃ fields, e.content.data = some (.obj fields)
  · obtain ⟨fields, hdata⟩ := hobj
    rw [embed_obj hdata] at h
    obtain ⟨fields₁, s₁, h₁, hrest₁⟩ := Loading.gives_bind.1 h
    obtain ⟨fields₂, s₂, h₂, hrest₂⟩ := Loading.gives_bind.1 hrest₁
    obtain ⟨fields₃, s₃, h₃, hrest₃⟩ := Loading.gives_bind.1 hrest₂
    obtain ⟨rfl, rfl⟩ := Loading.gives_pure.1 hrest₃
    obtain ⟨files, hfiles, rfl, rfl⟩ := files_of_gives h₁
    obtain ⟨documents, hdocuments, rfl, rfl⟩ := documents_of_gives h₂
    obtain ⟨card, hcard, rfl, rfl⟩ := card_of_gives h₃
    -- what is put in place is not what is read behind it
    have hroots : ∀ v, Event.roots? (Json.Fields.insert? fields "attachedFiles" v) = Event.roots? fields := by
      intro v
      rw [Event.roots?, get?_insert?_other _ _ (by decide)]
      rfl
    have hkept : ∀ v w, e.card? (Json.Fields.insert? (Json.Fields.insert? fields "attachedFiles" v)
        "attachedCards" w) = e.card? fields := by
      intro v w
      rw [Event.card?, get?_insert?_other _ _ (by decide), get?_insert?_other _ _ (by decide)]
      rfl
    rw [hroots] at hdocuments
    rw [hkept] at hcard ⊢
    have hall : e.files = (Event.attached? fields).getD [] ++ (e.card? fields).toList := by rw [Event.files, hdata]
    rw [hall, after_append]
    exact ⟨.fields hdata hfiles hdocuments hcard, rfl⟩
  · have hfiles : e.files = [] := by
      unfold Event.files
      split
      next fields hdata => exact absurd ⟨fields, hdata⟩ hobj
      next => rfl
    unfold embed at h
    split at h
    next fields hdata => exact absurd ⟨fields, hdata⟩ hobj
    next =>
      obtain ⟨rfl, rfl⟩ := Loading.gives_pure.1 h
      exact ⟨.other fun fields hdata => hobj ⟨fields, hdata⟩, by rw [hfiles]; rfl⟩

/-- The files that are loaded before those of an event. -/
def filesBefore (id : String) (events : List Event) : List AttachedFile :=
  (events.takeWhile (·.id ≠ id)).flatMap Event.files

theorem filesBefore_of_append {earlier events : List Event} {e : Event}
    (hids : ((earlier ++ e :: events).map (·.id)).Nodup) :
    filesBefore e.id (earlier ++ e :: events) = earlier.flatMap Event.files := by
  have hearlier : ∀ f ∈ earlier, f.id ≠ e.id := by
    rw [List.map_append, List.map_cons, List.nodup_append] at hids
    exact fun f hf => hids.2.2 _ (List.mem_map_of_mem hf) _ List.mem_cons_self
  rw [filesBefore, List.takeWhile_append_of_pos (by simpa using hearlier), List.takeWhile_cons_of_neg (by simp),
    List.append_nil]

/-- Each event has its files put in place behind those of the events before. -/
theorem placed_of_mapM (earlier : List Event) {events entries : List Event}
    (hids : ((earlier ++ events).map (·.id)).Nodup)
    (h : (events.mapM (embed load fragments)).Gives (after load s (earlier.flatMap Event.files)) entries s') :
    List.Forall₂ (fun e e' => Placed load (Becomes load) fragments
      (after load s (filesBefore e.id (earlier ++ events))) e e') events entries := by
  induction events generalizing earlier entries with
  | nil =>
    obtain ⟨rfl, rfl⟩ := Loading.gives_pure.1 h
    exact .nil
  | cons e events ih =>
    rw [List.mapM_cons] at h
    obtain ⟨e', s₁, he, h₁⟩ := Loading.gives_bind.1 h
    obtain ⟨entries', s₂, hentries, h₂⟩ := Loading.gives_bind.1 h₁
    obtain ⟨rfl, rfl⟩ := Loading.gives_pure.1 h₂
    obtain ⟨hfirst, rfl⟩ := placed_of_embed he
    have hrest := ih (earlier ++ [e]) (by rwa [← List.append_cons])
      (by rwa [List.flatMap_append, List.flatMap_singleton, after_append])
    refine .cons ?_ (by rwa [← List.append_cons] at hrest)
    rwa [filesBefore_of_append hids]

/-! ## What a log may come to -/

/-- The messages of a room as they came, in order of time. -/
def cameAs (versions : List Event) : List Event := byTime (survivors versions)

theorem ids_cameAs (versions : List Event) : ((cameAs versions).map (·.id)).Nodup :=
  ((List.mergeSort_perm _ _).map _).nodup_iff.2 (ids_survivors versions).1

/-- What a log may come to: a fault, before anything is stitched, or a timeline. -/
inductive Reconstructs (load : Loader σ) (log : List Event) (s : σ) : Except Fault (List Event) → Prop where
  | failed {fault : Fault} (h : ((reconstruct load log).run.run s).1 = .error fault) :
      Reconstructs load log s (.error fault)
  | stitched {versions entries stitched : List Event} {fragments : Fragments} {s' : σ}
      (hversions : candidates log = .ok versions) (hfragments : Fragments.ofEvents versions = .ok fragments)
      (hentries : ((cameAs versions).mapM (embed load fragments)).Gives s entries s')
      (hstitched : Stitches entries stitched) : Reconstructs load log s (.ok (byTime stitched))

variable {log : List Event}

/-- What a log does come to is one of the things it may come to. -/
theorem reconstructs_run (load : Loader σ) (log : List Event) (s : σ) :
    Reconstructs load log s ((reconstruct load log).run.run s).1 := by
  cases h : (reconstruct load log).run.run s with
  | mk result s' =>
    cases result with
    | error fault => exact .failed (congrArg (·.1) h)
    | ok timeline =>
      obtain ⟨versions, fragments, entries, hversions, hfragments, hentries, rfl⟩ := gives_of_reconstruct.1 h
      exact .stitched hversions hfragments hentries (stitches_stitch entries)

/-- Whether a log has a timeline is the same in any order of orphans. -/
theorem Reconstructs.run_cases {r : Except Fault (List Event)} (h : Reconstructs load log s r) :
    (∃ fault, r = .error fault ∧ ((reconstruct load log).run.run s).1 = .error fault) ∨
      ∃ timeline timeline', r = .ok timeline ∧ ((reconstruct load log).run.run s).1 = .ok timeline' := by
  cases h with
  | failed h => exact .inl ⟨_, rfl, h⟩
  | stitched hversions hfragments hentries =>
    have hgives := gives_of_reconstruct.2 ⟨_, _, _, hversions, hfragments, hentries, rfl⟩
    exact .inr ⟨_, _, rfl, congrArg Prod.fst hgives⟩

theorem Reconstructs.reordered {timeline timeline' : List Event} (h : Reconstructs load log s (.ok timeline))
    (h' : Reconstructs load log s (.ok timeline')) : Reordered timeline timeline' := by
  cases h with
  | stitched hversions hfragments hentries hstitched =>
    cases h' with
    | stitched hversions' hfragments' hentries' hstitched' =>
      obtain rfl := Except.ok.inj (hversions.symm.trans hversions')
      obtain rfl := Except.ok.inj (hfragments.symm.trans hfragments')
      obtain rfl := Except.ok.inj (congrArg Prod.fst (hentries.symm.trans hentries'))
      exact reordered_of_stitches hstitched hstitched'

section Stitched

variable {versions stitched timeline : List Event}

/-- **A timeline is that of the messages as they came, with what they refer to in place.** -/
theorem placed_of_reconstructs (h : Reconstructs load log s (.ok timeline)) :
    ∃ versions fragments stitched, candidates log = .ok versions ∧ Fragments.ofEvents versions = .ok fragments ∧
      Stitches (cameAs versions) stitched ∧
      List.Forall₂ (fun e e' => Placed load (Becomes load) fragments
        (after load s (filesBefore e.id (cameAs versions))) e e') (byTime stitched) timeline := by
  cases h with
  | @stitched versions entries _ fragments _ hversions hfragments hentries hstitched =>
    have hcarried := carried_placed load (Becomes load) fragments fun id =>
      after load s (filesBefore id (cameAs versions))
    obtain ⟨stitched, hcame, hplaced⟩ :=
      hstitched.exists_left hcarried (placed_of_mapM [] (ids_cameAs versions) hentries)
    exact ⟨versions, fragments, stitched, hversions, hfragments, hcame, forall₂_byTime hcarried.timestamp_eq hplaced⟩

/-- Whichever order the orphans come in, there is a timeline of it. -/
theorem exists_reconstructs (h : Reconstructs load log s (.ok timeline)) (hversions : candidates log = .ok versions)
    (hfragments : Fragments.ofEvents versions = .ok fragments) (hcame : Stitches (cameAs versions) stitched) :
    ∃ timeline', Reconstructs load log s (.ok timeline') ∧
      List.Forall₂ (fun e e' => Placed load (Becomes load) fragments
        (after load s (filesBefore e.id (cameAs versions))) e e') (byTime stitched) timeline' := by
  cases h with
  | stitched hversions' hfragments' hentries =>
    obtain rfl := Except.ok.inj (hversions.symm.trans hversions')
    obtain rfl := Except.ok.inj (hfragments.symm.trans hfragments')
    have hcarried := carried_placed load (Becomes load) fragments fun id =>
      after load s (filesBefore id (cameAs versions))
    obtain ⟨stitched', hstitched, hplaced⟩ :=
      hcame.exists_right hcarried (placed_of_mapM [] (ids_cameAs versions) hentries)
    exact ⟨_, .stitched hversions hfragments hentries hstitched, forall₂_byTime hcarried.timestamp_eq hplaced⟩

end Stitched

end Timeline

end ReplyStream
