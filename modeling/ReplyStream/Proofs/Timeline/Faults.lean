/-
The faults of a timeline. Loaders play no part in them: with any two, from any
states, a log has a timeline both times or the same fault (`reconstruct_alike`),
and that is one of the record itself (`Fault.IsCorruption`).
-/
import ReplyStream.Proofs.Timeline.Documents
import ReplyStream.Proofs.Timeline.Order

namespace ReplyStream

/-- The record is corrupt: the data of an event cannot be read, or a chain of
card fragments is broken. -/
inductive Fault.IsCorruption : Fault → Prop
  | malformed (eventId : String) (flaw : PayloadFlaw) : IsCorruption (.malformedPayload eventId flaw)
  | broken (root reason : String) : IsCorruption (.fragmentIntegrity root reason)

/-- Both go well, with related results, or both end with the same fault of the record. -/
inductive Outcomes {α β : Type} (Q : α → β → Prop) : Except Fault α → Except Fault β → Prop
  | ok {a : α} {b : β} (h : Q a b) : Outcomes Q (.ok a) (.ok b)
  | error {fault : Fault} (h : fault.IsCorruption) : Outcomes Q (.error fault) (.error fault)

namespace Timeline

variable {σ τ α β γ δ : Type}

/-- From any two states the loads have such outcomes. -/
def Loading.Alike (Q : α → β → Prop) (x : Loading σ α) (y : Loading τ β) : Prop :=
  ∀ s t, Outcomes Q (x.run.run s).1 (y.run.run t).1

namespace Loading

variable {Q : α → β → Prop}

theorem alike_pure {a : α} {b : β} (h : Q a b) : Alike Q (pure a : Loading σ α) (pure b : Loading τ β) :=
  fun _ _ => .ok h

theorem alike_throw {fault : Fault} (h : fault.IsCorruption) :
    Alike Q (throw fault : Loading σ α) (throw fault : Loading τ β) := fun _ _ => .error h

theorem alike_ofExcept {x : Except Fault α} (h : ∀ fault, x = .error fault → fault.IsCorruption) :
    Alike Eq (ofExcept x : Loading σ α) (ofExcept x : Loading τ α) := by
  cases x with
  | error fault => exact alike_throw (h fault rfl)
  | ok a => exact alike_pure rfl

theorem Alike.bind {P : γ → δ → Prop} {x : Loading σ α} {y : Loading τ β} {f : α → Loading σ γ}
    {g : β → Loading τ δ} (hxy : Alike Q x y) (hfg : ∀ a b, Q a b → Alike P (f a) (g b)) :
    Alike P (x >>= f) (y >>= g) := by
  intro s t
  have houtcomes := hxy s t
  rw [run_bind, run_bind]
  cases hx : x.run.run s with
  | mk result s₁ =>
  cases hy : y.run.run t with
  | mk result' t₁ =>
    rw [hx, hy] at houtcomes
    cases houtcomes with
    | ok hab => exact hfg _ _ hab s₁ t₁
    | error hfault => exact .error hfault

/-- Loads that always give something differ in nothing but that. -/
theorem alike_of_total {x : Loading σ α} {y : Loading τ β} (hx : x.IsTotal) (hy : y.IsTotal) :
    Alike (fun _ _ => True) x y := by
  intro s t
  obtain ⟨a, s', ha⟩ := hx s
  obtain ⟨b, t', hb⟩ := hy t
  rw [show x.run.run s = _ from ha, show y.run.run t = _ from hb]
  exact .ok trivial

theorem alike_mapM {f : γ → Loading σ α} {g : γ → Loading τ β} (h : ∀ c, Alike Q (f c) (g c)) (l : List γ) :
    Alike (List.Forall₂ Q) (l.mapM f) (l.mapM g) := by
  induction l with
  | nil => exact alike_pure .nil
  | cons c l ih =>
    rw [List.mapM_cons, List.mapM_cons]
    exact (h c).bind fun a b hab => ih.bind fun as bs has => alike_pure (.cons hab has)

end Loading

open Loading

/-! ## Faults of the record -/

theorem exists_of_mapM_error {ε : Type} {f : α → Except ε β} {l : List α} {e : ε} (h : l.mapM f = .error e) :
    ∃ a ∈ l, f a = .error e := by
  induction l with
  | nil => cases h
  | cons a l ih =>
    rw [List.mapM_cons] at h
    cases ha : f a with
    | error e' =>
      rw [ha] at h
      cases h
      exact ⟨a, List.mem_cons_self, ha⟩
    | ok b =>
      cases hl : l.mapM f with
      | error e' =>
        rw [ha, hl] at h
        cases h
        obtain ⟨a', ha', hfault⟩ := ih hl
        exact ⟨a', List.mem_cons_of_mem a ha', hfault⟩
      | ok bs =>
        rw [ha, hl] at h
        cases h

theorem corruption_of_candidates {log : List Event} {fault : Fault} (h : candidates log = .error fault) :
    fault.IsCorruption := by
  obtain ⟨v, -, hdecode⟩ := exists_of_mapM_error h
  unfold Event.decode at hdecode
  split at hdecode
  · cases hdecode
  · cases hdecode
    exact .malformed _ _

theorem corruption_of_ofEvents {events : List Event} {fault : Fault} (h : Fragments.ofEvents events = .error fault) :
    fault.IsCorruption := by
  suffices hall : ∀ (pieces : List Event) (t : Fragments), pieces.foldlM Fragments.enter t = .error fault →
      fault.IsCorruption from hall _ [] h
  intro pieces
  induction pieces with
  | nil => exact fun t ht => by cases ht
  | cons e pieces ih =>
    intro t ht
    rw [List.foldlM_cons] at ht
    cases hpiece : Fragments.piece? e with
    | ok piece =>
      rw [Fragments.enter, hpiece] at ht
      exact ih _ ht
    | error fault' =>
      rw [Fragments.enter, hpiece] at ht
      cases ht
      unfold Fragments.piece? at hpiece
      split at hpiece
      · cases hpiece
      · cases hpiece
        exact .malformed _ _

theorem corruption_of_reassemble {fragments : Fragments} {root : String} {fault : Fault}
    (h : fragments.reassemble root = .error fault) : fault.IsCorruption := by
  cases Fragments.reassemble_eq_iff.1 h with
  | noDocument => exact .malformed _ _
  | noRoot => exact .broken _ _
  | flawed => exact .broken _ _

/-! ## What events refer to -/

/-- The same fields at some keys. -/
def SameAt (K : String → Prop) (fields fields' : Json.Fields) : Prop := ∀ key, K key → fields'.get? key = fields.get? key

/-- What is read at one key and put in place at another differs at most there. -/
theorem alike_replaceAt {eventId key target : String} {read : Json → Option γ} {f : γ → Loading σ Json}
    {g : γ → Loading τ Json} {P : Json → Json → Prop} (hfg : ∀ c, Alike P (f c) (g c))
    {fields fields' : Json.Fields} (hkey : fields'.get? key = fields.get? key) {K : String → Prop}
    (hfields : SameAt K fields fields') (hP : K target → ∀ v w, P v w → w = v) :
    Alike (SameAt K) (replaceAt eventId key target read f fields) (replaceAt eventId key target read g fields') := by
  unfold replaceAt
  rw [hkey]
  split
  · exact alike_pure hfields
  · split
    · exact alike_throw (.malformed _ _)
    next c hc =>
      refine (hfg c).bind fun v w hvw => alike_pure fun k hk => ?_
      rw [Json.Fields.get?_insert, Json.Fields.get?_insert]
      by_cases htarget : target = k
      · subst htarget
        rw [if_pos rfl, if_pos rfl, hP hk v w hvw]
      · rw [if_neg htarget, if_neg htarget, hfields k hk]

section Embed

variable (load : Loader σ) (load' : Loader τ) (fragments : Fragments) (eventId : String) {fields fields' : Json.Fields}

theorem alike_embedFiles (fields : Json.Fields) :
    Alike (SameAt (· ≠ "attachedFiles")) (embedFiles load eventId fields) (embedFiles load' eventId fields) := by
  refine alike_replaceAt (P := fun _ _ => True) (fun files => ?_) rfl (fun _ _ => rfl) (fun h => absurd rfl h)
  have htotal : (files.mapM (embedFile load)).IsTotal := isTotal_mapM fun f _ => isTotal_embedFile load f
  have htotal' : (files.mapM (embedFile load')).IsTotal := isTotal_mapM fun f _ => isTotal_embedFile load' f
  exact (alike_of_total htotal htotal').bind fun _ _ _ => alike_pure trivial

theorem alike_embedCards (h : SameAt (· ≠ "attachedFiles") fields fields') :
    Alike (SameAt (· ≠ "attachedFiles")) (embedCards (σ := σ) fragments eventId fields)
      (embedCards (σ := τ) fragments eventId fields') := by
  refine alike_replaceAt (P := Eq) (fun roots => ?_) (h _ (by decide)) h fun _ _ _ heq => heq.symm
  have hdocuments : ∀ fault, roots.mapM fragments.reassemble = .error fault → fault.IsCorruption := by
    intro fault hfault
    obtain ⟨root, -, hroot⟩ := exists_of_mapM_error hfault
    exact corruption_of_reassemble hroot
  exact (alike_ofExcept hdocuments).bind fun _ _ heq => alike_pure (by rw [heq])

theorem alike_embedOutput (h : fields'.get? "card" = fields.get? "card") :
    Alike (SameAt fun _ => False) (embedOutput load eventId fields) (embedOutput load' eventId fields') := by
  refine alike_replaceAt (P := fun _ _ => True) (fun file => ?_) h (fun _ hk => hk.elim) (fun h => h.elim)
  have htotal := alike_of_total (isTotal_embedFile load file) (isTotal_embedFile load' file)
  exact htotal.bind fun _ _ _ => alike_pure trivial

end Embed

theorem alike_embed (load : Loader σ) (load' : Loader τ) (fragments : Fragments) (e : Event) :
    Alike (fun _ _ => True) (embed load fragments e) (embed load' fragments e) := by
  by_cases hobj : ∃ fields, e.content.data = some (.obj fields)
  · obtain ⟨fields, hdata⟩ := hobj
    rw [embed_obj hdata, embed_obj hdata]
    -- the files attached may differ, but nothing that is read behind them
    refine (alike_embedFiles load load' e.id fields).bind fun fields₁ fields₁' hfiles => ?_
    refine (alike_embedCards fragments e.id hfiles).bind fun fields₂ fields₂' hcards => ?_
    split
    · exact (alike_embedOutput load load' e.id (hcards _ (by decide))).bind fun _ _ _ => alike_pure trivial
    · exact alike_pure trivial
  · unfold embed
    split
    next fields hdata => exact absurd ⟨fields, hdata⟩ hobj
    next => exact alike_pure trivial

/-- **With any loaders a log has a timeline, or the same fault.** -/
theorem reconstruct_alike (load : Loader σ) (load' : Loader τ) (log : List Event) :
    Alike (fun _ _ => True) (reconstruct load log) (reconstruct load' log) :=
  (alike_ofExcept fun _ => corruption_of_candidates).bind fun _ _ hversions => hversions ▸
    (alike_ofExcept fun _ => corruption_of_ofEvents).bind fun fragments _ hfragments => hfragments ▸
      (alike_mapM (alike_embed load load' fragments) _).bind fun _ _ _ => alike_pure trivial

end Timeline

end ReplyStream
