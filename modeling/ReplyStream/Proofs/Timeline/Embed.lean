/-
What is put in place of references. Whether that goes well depends on the
event and the card fragments alone, whatever the loader does: a file that
cannot be loaded is marked, and only data of the wrong shape or a broken
document is a fault (`embeds_of_gives`, `isTotal_embed`). Only the data of an
event changes (`same_of_embed`).
-/
import ReplyStream.Proofs.Json.Fields
import ReplyStream.Proofs.Timeline.Versions
import ReplyStream.Timeline.Embed

namespace ReplyStream.Timeline

variable {σ α β : Type}

/-- What a load gives, and the state behind it. -/
def Loading.Gives (x : Loading σ α) (s : σ) (a : α) (s' : σ) : Prop := x.run.run s = (.ok a, s')

/-- A load that gives something, whatever the state. -/
def Loading.IsTotal (x : Loading σ α) : Prop := ∀ s, ∃ a s', x.Gives s a s'

namespace Loading

theorem gives_pure {a b : α} {s s' : σ} : (pure a : Loading σ α).Gives s b s' ↔ b = a ∧ s' = s := by
  constructor
  · intro h
    cases h
    exact ⟨rfl, rfl⟩
  · rintro ⟨rfl, rfl⟩
    rfl

theorem run_bind (x : Loading σ α) (f : α → Loading σ β) (s : σ) :
    (x >>= f).run.run s = match x.run.run s with
      | (.ok a, s₁) => (f a).run.run s₁
      | (.error fault, s₁) => (.error fault, s₁) := by
  simp only [ExceptT.run_bind, StateT.run_bind]
  cases x.run.run s with
  | mk result s₁ => cases result <;> rfl

theorem run_tryCatch (x : Loading σ α) (handle : Fault → Loading σ α) (s : σ) :
    (tryCatch x handle).run.run s = match x.run.run s with
      | (.ok a, s₁) => (.ok a, s₁)
      | (.error fault, s₁) => (handle fault).run.run s₁ := by
  have hx : StateT.run x s = x.run.run s := rfl
  rw [tryCatch, instMonadExceptOfMonadExceptOf]
  simp only [tryCatchThe, MonadExceptOf.tryCatch, ExceptT.tryCatch, ExceptT.run_mk, StateT.run_bind, hx]
  cases x.run.run s with
  | mk result s₁ => cases result <;> rfl

theorem gives_bind {x : Loading σ α} {f : α → Loading σ β} {s s' : σ} {b : β} :
    (x >>= f).Gives s b s' ↔ ∃ a s₁, x.Gives s a s₁ ∧ (f a).Gives s₁ b s' := by
  rw [Gives, run_bind]
  simp only [Gives]
  cases x.run.run s with
  | mk result s₁ =>
    cases result with
    | error fault =>
      constructor
      · intro h
        cases h
      · rintro ⟨a, s₂, h, -⟩
        cases h
    | ok a =>
      constructor
      · exact fun h => ⟨a, s₁, rfl, h⟩
      · rintro ⟨a', s₂, h, h'⟩
        cases h
        exact h'

theorem not_gives_throw {fault : Fault} {s s' : σ} {a : α} : ¬(throw fault : Loading σ α).Gives s a s' := by
  intro h
  cases h

theorem gives_ofExcept {x : Except Fault α} {s s' : σ} {a : α} :
    (ofExcept x : Loading σ α).Gives s a s' ↔ x = .ok a ∧ s' = s := by
  cases x with
  | error fault =>
    refine ⟨fun h => absurd h not_gives_throw, ?_⟩
    rintro ⟨h, -⟩
    cases h
  | ok b =>
    refine gives_pure.trans ?_
    rw [Except.ok.injEq, eq_comm]

/-- What is tried and caught gives something, if the way out does. -/
theorem isTotal_tryCatch {x : Loading σ α} {handle : Fault → Loading σ α}
    (h : ∀ fault, (handle fault).IsTotal) : (tryCatch x handle).IsTotal := by
  intro s
  have hrun := run_tryCatch x handle s
  cases hx : x.run.run s with
  | mk result s₁ =>
    rw [hx] at hrun
    cases result with
    | ok a => exact ⟨a, s₁, hrun⟩
    | error fault =>
      obtain ⟨a, s', hgives⟩ := h fault s₁
      exact ⟨a, s', hrun.trans hgives⟩

theorem isTotal_pure (a : α) : (pure a : Loading σ α).IsTotal := fun s => ⟨a, s, rfl⟩

theorem IsTotal.bind {x : Loading σ α} {f : α → Loading σ β} (hx : x.IsTotal) (hf : ∀ a, (f a).IsTotal) :
    (x >>= f).IsTotal := by
  intro s
  obtain ⟨a, s₁, ha⟩ := hx s
  obtain ⟨b, s', hb⟩ := hf a s₁
  exact ⟨b, s', gives_bind.2 ⟨a, s₁, ha, hb⟩⟩

theorem isTotal_mapM {f : α → Loading σ β} {l : List α} (hf : ∀ a ∈ l, (f a).IsTotal) : (l.mapM f).IsTotal := by
  induction l with
  | nil => exact isTotal_pure []
  | cons a l ih =>
    rw [List.mapM_cons]
    exact (hf a List.mem_cons_self).bind fun b =>
      (ih fun a' ha' => hf a' (List.mem_cons_of_mem a ha')).bind fun bs => isTotal_pure _

/-- What a list of loads gives are the things they give. -/
theorem forall₂_of_mapM {f : α → Loading σ β} {l : List α} {bs : List β} {s s' : σ} (h : (l.mapM f).Gives s bs s') :
    List.Forall₂ (fun a b => ∃ s s', (f a).Gives s b s') l bs := by
  induction l generalizing bs s s' with
  | nil =>
    obtain rfl := (gives_pure.1 h).1
    exact .nil
  | cons a l ih =>
    rw [List.mapM_cons] at h
    obtain ⟨b, s₁, hb, h⟩ := gives_bind.1 h
    obtain ⟨bs', s₂, hbs, h⟩ := gives_bind.1 h
    obtain rfl := (gives_pure.1 h).1
    exact .cons ⟨s, s₁, hb⟩ (ih hbs)

theorem gives_of_mem {f : α → Loading σ β} {l : List α} {bs : List β} {s s' : σ} (h : (l.mapM f).Gives s bs s') {a : α}
    (ha : a ∈ l) : ∃ b s s', (f a).Gives s b s' := by
  obtain ⟨b, -, hb⟩ := exists_right_of_forall₂ (forall₂_of_mapM h) ha
  exact ⟨b, hb⟩

end Loading

/-- The text of a file never keeps a load from going on. -/
theorem isTotal_embedFile (load : Loader σ) (f : AttachedFile) : (embedFile load f).IsTotal := by
  unfold embedFile
  split
  · exact Loading.isTotal_pure f
  · exact Loading.isTotal_tryCatch fun fault => Loading.isTotal_pure _

section ReplaceAt

variable {eventId key target : String} {read : Json → Option α} {f : α → Loading σ Json}
  {fields fields' : Json.Fields} {s s' : σ}

theorem get?_of_replaceAt (h : (replaceAt eventId key target read f fields).Gives s fields' s') {other : String}
    (hother : target ≠ other) : fields'.get? other = fields.get? other := by
  unfold replaceAt at h
  split at h
  · rw [(Loading.gives_pure.1 h).1]
  next v hv =>
    split at h
    · exact absurd h Loading.not_gives_throw
    next a ha =>
      obtain ⟨w, s₁, -, hw⟩ := Loading.gives_bind.1 h
      rw [(Loading.gives_pure.1 hw).1, Json.Fields.get?_insert, if_neg hother]

/-- What stands at the key is read, if it gives anything. -/
theorem read_of_replaceAt (h : (replaceAt eventId key target read f fields).Gives s fields' s') :
    ∀ v ∈ fields.get? key, ∃ a, read v = some a ∧ ∃ w s₁, (f a).Gives s w s₁ := by
  intro v hv
  unfold replaceAt at h
  split at h
  next hnone => rw [hnone] at hv; cases hv
  next v' hv' =>
    rw [hv'] at hv
    cases hv
    split at h
    · exact absurd h Loading.not_gives_throw
    next a ha =>
      obtain ⟨w, s₁, hw, -⟩ := Loading.gives_bind.1 h
      exact ⟨a, ha, w, s₁, hw⟩

theorem isTotal_replaceAt (h : ∀ v ∈ fields.get? key, ∃ a, read v = some a ∧ (f a).IsTotal) :
    (replaceAt eventId key target read f fields).IsTotal := by
  unfold replaceAt
  split
  · exact Loading.isTotal_pure fields
  next v hv =>
    obtain ⟨a, ha, hf⟩ := h v hv
    simp only [ha]
    exact hf.bind fun w => Loading.isTotal_pure _

end ReplaceAt

/-! ## Events -/

/-- All an event refers to can be put in place. -/
structure Embeds (fragments : Fragments) (e : Event) (fields : Json.Fields) : Prop where
  files : ∀ v ∈ fields.get? "attachedFiles", ∃ files, Json.list? AttachedFile.ofJson? v = some files
  cards : ∀ v ∈ fields.get? "attachedCardsEventIds", ∃ roots, Json.list? Json.string? v = some roots ∧
    ∃ documents, roots.mapM fragments.reassemble = .ok documents
  output : e.isCommandOutput = true → ∀ v ∈ fields.get? "card", ∃ file, AttachedFile.ofJson? v = some file

theorem embed_obj {load : Loader σ} {fragments : Fragments} {e : Event} {fields : Json.Fields}
    (hdata : e.content.data = some (.obj fields)) :
    embed load fragments e =
      (embedFiles load e.id fields >>= fun fields => embedCards fragments e.id fields >>= fun fields =>
        (if e.isCommandOutput then embedOutput load e.id fields else pure fields) >>= fun fields =>
          pure { e with content.data := some (.obj fields) }) := by
  simp only [embed, hdata]
  congr 1
  funext fields
  congr 1
  funext fields
  split <;> rfl

theorem embeds_nothing {fragments : Fragments} {e : Event} {fields : Json.Fields}
    (hfiles : fields.get? "attachedFiles" = none) (hcards : fields.get? "attachedCardsEventIds" = none)
    (houtput : e.isCommandOutput = false) : Embeds fragments e fields where
  files v hv := by rw [hfiles] at hv; cases hv
  cards v hv := by rw [hcards] at hv; cases hv
  output h := by rw [houtput] at h; cases h

theorem embeds_of_gives {load : Loader σ} {fragments : Fragments} {e e' : Event} {s s' : σ}
    (h : (embed load fragments e).Gives s e' s') {fields : Json.Fields} (hdata : e.content.data = some (.obj fields)) :
    Embeds fragments e fields := by
  rw [embed_obj hdata] at h
  obtain ⟨fields₁, s₁, hfiles, h⟩ := Loading.gives_bind.1 h
  obtain ⟨fields₂, s₂, hcards, h⟩ := Loading.gives_bind.1 h
  obtain ⟨fields₃, s₃, houtput, h⟩ := Loading.gives_bind.1 h
  refine ⟨?_, ?_, ?_⟩
  · intro v hv
    obtain ⟨files, hread, -⟩ := read_of_replaceAt hfiles v hv
    exact ⟨files, hread⟩
  · intro v hv
    rw [← get?_of_replaceAt hfiles (by decide)] at hv
    obtain ⟨roots, hread, w, s₄, hw⟩ := read_of_replaceAt hcards v hv
    obtain ⟨documents, s₅, hdocuments, -⟩ := Loading.gives_bind.1 hw
    exact ⟨roots, hread, documents, (Loading.gives_ofExcept.1 hdocuments).1⟩
  · intro hout v hv
    rw [← get?_of_replaceAt hfiles (by decide), ← get?_of_replaceAt hcards (by decide)] at hv
    rw [if_pos hout] at houtput
    obtain ⟨file, hread, -⟩ := read_of_replaceAt houtput v hv
    exact ⟨file, hread⟩

/-- What can be put in place is, whatever the state of the loader. -/
theorem isTotal_embed {load : Loader σ} {fragments : Fragments} {e : Event}
    (h : ∀ fields, e.content.data = some (.obj fields) → Embeds fragments e fields) :
    (embed load fragments e).IsTotal := by
  by_cases hobj : ∃ fields, e.content.data = some (.obj fields)
  · obtain ⟨fields, hdata⟩ := hobj
    obtain ⟨hfiles, hcards, houtput⟩ := h fields hdata
    intro s
    have htotal : (embedFiles load e.id fields).IsTotal := by
      refine isTotal_replaceAt fun v hv => ?_
      obtain ⟨files, hread⟩ := hfiles v hv
      exact ⟨files, hread, (Loading.isTotal_mapM fun f _ => isTotal_embedFile load f).bind fun _ =>
        Loading.isTotal_pure _⟩
    obtain ⟨fields₁, s₁, h₁⟩ := htotal s
    have htotal : (embedCards (σ := σ) fragments e.id fields₁).IsTotal := by
      refine isTotal_replaceAt fun v hv => ?_
      rw [get?_of_replaceAt h₁ (by decide)] at hv
      obtain ⟨roots, hread, documents, hdocuments⟩ := hcards v hv
      refine ⟨roots, hread, ?_⟩
      rw [hdocuments]
      exact (Loading.isTotal_pure documents).bind fun _ => Loading.isTotal_pure _
    obtain ⟨fields₂, s₂, h₂⟩ := htotal s₁
    have htotal : (if e.isCommandOutput then embedOutput load e.id fields₂ else pure fields₂ :
        Loading σ Json.Fields).IsTotal := by
      split
      next hout =>
        refine isTotal_replaceAt fun v hv => ?_
        rw [get?_of_replaceAt h₂ (by decide), get?_of_replaceAt h₁ (by decide)] at hv
        obtain ⟨file, hread⟩ := houtput hout v hv
        exact ⟨file, hread, (isTotal_embedFile load file).bind fun _ => Loading.isTotal_pure _⟩
      · exact Loading.isTotal_pure fields₂
    obtain ⟨fields₃, s₃, h₃⟩ := htotal s₂
    rw [embed_obj hdata]
    exact ⟨_, s₃, Loading.gives_bind.2 ⟨fields₁, s₁, h₁, Loading.gives_bind.2
      ⟨fields₂, s₂, h₂, Loading.gives_bind.2 ⟨fields₃, s₃, h₃, rfl⟩⟩⟩⟩
  · unfold embed
    split
    next fields hdata => exact absurd ⟨fields, hdata⟩ hobj
    next => exact Loading.isTotal_pure e

/-- Only the data of an event changes. -/
theorem same_of_embed {load : Loader σ} {fragments : Fragments} {e e' : Event} {s s' : σ}
    (h : (embed load fragments e).Gives s e' s') : ∃ data, e' = { e with content.data := data } := by
  by_cases hobj : ∃ fields, e.content.data = some (.obj fields)
  · obtain ⟨fields, hdata⟩ := hobj
    rw [embed_obj hdata] at h
    obtain ⟨fields₁, s₁, -, h⟩ := Loading.gives_bind.1 h
    obtain ⟨fields₂, s₂, -, h⟩ := Loading.gives_bind.1 h
    obtain ⟨fields₃, s₃, -, h⟩ := Loading.gives_bind.1 h
    exact ⟨_, (Loading.gives_pure.1 h).1⟩
  · unfold embed at h
    split at h
    next fields hdata => exact absurd ⟨fields, hdata⟩ hobj
    next =>
      refine ⟨e.content.data, (Loading.gives_pure.1 h).1.trans ?_⟩
      cases e
      rfl

theorem eq_of_embed {load : Loader σ} {fragments : Fragments} {e e' : Event} {s s' : σ}
    (hembed : (embed load fragments e).Gives s e' s') {fields : Json.Fields}
    (hdata : e.content.data = some (.obj fields)) (hfiles : fields.get? "attachedFiles" = none)
    (hcards : fields.get? "attachedCardsEventIds" = none) (houtput : e.isCommandOutput = false) : e' = e := by
  rw [embed_obj hdata] at hembed
  obtain ⟨fields₁, s₁, h₁, hembed₁⟩ := Loading.gives_bind.1 hembed
  obtain ⟨fields₂, s₂, h₂, hembed₂⟩ := Loading.gives_bind.1 hembed₁
  obtain ⟨fields₃, s₃, h₃, hembed₃⟩ := Loading.gives_bind.1 hembed₂
  simp only [embedFiles, replaceAt, hfiles] at h₁
  obtain rfl := (Loading.gives_pure.1 h₁).1
  simp only [embedCards, replaceAt, hcards] at h₂
  obtain rfl := (Loading.gives_pure.1 h₂).1
  rw [houtput] at h₃
  obtain rfl := (Loading.gives_pure.1 h₃).1
  refine (Loading.gives_pure.1 hembed₃).1.trans ?_
  rw [← hdata]
  cases e
  rfl

end ReplyStream.Timeline
