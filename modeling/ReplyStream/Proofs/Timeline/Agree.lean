/-
A timeline depends on its loader only by the texts this gives. Two loaders
that from related states give the same, and end in related states, make the
same timeline of a log, or fail with the same fault (`reconstruct_agree`).
-/
import ReplyStream.Proofs.Timeline.Embed
import ReplyStream.Timeline.Basic

namespace ReplyStream.Timeline

variable {σ τ α β : Type} {R : σ → τ → Prop}

/-- From related states two loads give the same and end in related states. -/
def Loading.Agree (R : σ → τ → Prop) (x : Loading σ α) (y : Loading τ α) : Prop :=
  ∀ s t, R s t → (x.run.run s).1 = (y.run.run t).1 ∧ R (x.run.run s).2 (y.run.run t).2

namespace Loading

theorem agree_pure (a : α) : Agree R (pure a) (pure a) := fun _ _ h => ⟨rfl, h⟩

theorem agree_throw (fault : Fault) : Agree R (throw fault : Loading σ α) (throw fault) := fun _ _ h => ⟨rfl, h⟩

theorem agree_ofExcept (x : Except Fault α) : Agree R (ofExcept x) (ofExcept x) := by
  cases x with
  | error fault => exact agree_throw fault
  | ok a => exact agree_pure a

theorem Agree.bind {x : Loading σ α} {y : Loading τ α} {f : α → Loading σ β} {g : α → Loading τ β}
    (hxy : Agree R x y) (hfg : ∀ a, Agree R (f a) (g a)) : Agree R (x >>= f) (y >>= g) := by
  intro s t h
  obtain ⟨hresult, hstate⟩ := hxy s t h
  rw [run_bind, run_bind]
  cases hx : x.run.run s with
  | mk result s₁ =>
  cases hy : y.run.run t with
  | mk result' t₁ =>
    rw [hx, hy] at hresult hstate
    cases hresult
    cases result with
    | error fault => exact ⟨rfl, hstate⟩
    | ok a => exact hfg a s₁ t₁ hstate

theorem Agree.tryCatch {x : Loading σ α} {y : Loading τ α} {f : Fault → Loading σ α} {g : Fault → Loading τ α}
    (hxy : Agree R x y) (hfg : ∀ fault, Agree R (f fault) (g fault)) :
    Agree R (tryCatch x f) (tryCatch y g) := by
  intro s t h
  obtain ⟨hresult, hstate⟩ := hxy s t h
  rw [run_tryCatch, run_tryCatch]
  cases hx : x.run.run s with
  | mk result s₁ =>
  cases hy : y.run.run t with
  | mk result' t₁ =>
    rw [hx, hy] at hresult hstate
    cases hresult
    cases result with
    | error fault => exact hfg fault s₁ t₁ hstate
    | ok a => exact ⟨rfl, hstate⟩

theorem agree_mapM {f : α → Loading σ β} {g : α → Loading τ β} (h : ∀ a, Agree R (f a) (g a)) (l : List α) :
    Agree R (l.mapM f) (l.mapM g) := by
  induction l with
  | nil => exact agree_pure []
  | cons a l ih =>
    rw [List.mapM_cons, List.mapM_cons]
    exact (h a).bind fun b => ih.bind fun bs => agree_pure _

end Loading

open Loading

section Loader

variable {load : Loader σ} {load' : Loader τ}

theorem embedFile_agree (h : ∀ file, Agree R (load file) (load' file)) (f : AttachedFile) :
    Agree R (embedFile load f) (embedFile load' f) := by
  unfold embedFile
  split
  · exact agree_pure f
  · exact ((h f).bind fun text => agree_pure _).tryCatch fun fault => agree_pure _

theorem replaceAt_agree {f : α → Loading σ Json} {g : α → Loading τ Json} (h : ∀ a, Agree R (f a) (g a))
    (eventId key target : String) (read : Json → Option α) (fields : Json.Fields) :
    Agree R (replaceAt eventId key target read f fields) (replaceAt eventId key target read g fields) := by
  unfold replaceAt
  split
  · exact agree_pure fields
  · split
    · exact agree_throw _
    next a ha => exact (h a).bind fun w => agree_pure _

theorem embed_agree (h : ∀ file, Agree R (load file) (load' file)) (fragments : Fragments) (e : Event) :
    Agree R (embed load fragments e) (embed load' fragments e) := by
  have hfiles : ∀ fields, Agree R (embedFiles load e.id fields) (embedFiles load' e.id fields) :=
    replaceAt_agree (fun files => (agree_mapM (embedFile_agree h) files).bind fun _ => agree_pure _) _ _ _ _
  have hcards : ∀ fields, Agree R (embedCards fragments e.id fields) (embedCards fragments e.id fields) :=
    replaceAt_agree (fun roots => (agree_ofExcept _).bind fun _ => agree_pure _) _ _ _ _
  have houtput : ∀ fields, Agree R (embedOutput load e.id fields) (embedOutput load' e.id fields) :=
    replaceAt_agree (fun file => (embedFile_agree h file).bind fun _ => agree_pure _) _ _ _ _
  by_cases hobj : ∃ fields, e.content.data = some (.obj fields)
  · obtain ⟨fields, hdata⟩ := hobj
    rw [embed_obj hdata, embed_obj hdata]
    refine (hfiles fields).bind fun fields₁ => (hcards fields₁).bind fun fields₂ => Agree.bind ?_ fun _ => agree_pure _
    split
    · exact houtput fields₂
    · exact agree_pure fields₂
  · unfold embed
    split
    next fields hdata => exact absurd ⟨fields, hdata⟩ hobj
    next => exact agree_pure e

/-- **Loaders that give the same texts make the same timelines.** -/
theorem reconstruct_agree (h : ∀ file, Agree R (load file) (load' file)) (log : List Event) :
    Agree R (reconstruct load log) (reconstruct load' log) :=
  (agree_ofExcept _).bind fun _ => (agree_ofExcept _).bind fun fragments =>
    (agree_mapM (embed_agree h fragments) _).bind fun _ => agree_pure _

end Loader

end ReplyStream.Timeline
