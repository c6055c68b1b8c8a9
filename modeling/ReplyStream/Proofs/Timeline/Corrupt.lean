/-
Which logs have no timeline: just those with corrupt history (`Corrupt`). Data
that is not JSON and fragments that cannot be read are corrupt in every version
of an event; what an event refers to counts only in the version that survives.
Neither the files that are loaded nor events of other kinds play a part
(`fails_iff_corrupt`).
-/
import ReplyStream.Proofs.Timeline.Faults
import ReplyStream.Proofs.Timeline.Parallel

namespace ReplyStream

/-- The event without what the server has added. -/
def Event.alone (e : Event) : Event := { e with unsigned := none }

namespace Timeline

variable {σ : Type} {load : Loader σ} {log versions : List Event}

/-- Something an event refers to cannot be put in place: its files cannot be
read, or the ids of its cards, or it names a card that cannot be put together,
or it is the output of a command whose card file cannot be read. -/
inductive Dangling (fragments : Fragments) (e : Event) (fields : Json.Fields) : Prop
  | files {v : Json} (hv : fields.get? "attachedFiles" = some v) (hread : Json.list? AttachedFile.ofJson? v = none)
  | ids {v : Json} (hv : fields.get? "attachedCardsEventIds" = some v) (hread : Json.list? Json.string? v = none)
  | card {v : Json} {roots : List String} {root : String} {fault : Fault}
      (hv : fields.get? "attachedCardsEventIds" = some v) (hread : Json.list? Json.string? v = some roots)
      (hroot : root ∈ roots) (hbroken : fragments.Assembles root (.error fault))
  | output {v : Json} (houtput : e.isCommandOutput = true) (hv : fields.get? "card" = some v)
      (hread : AttachedFile.ofJson? v = none)

/-- The history is corrupt: a version of an event, superseded or not, has data
that is not JSON, or is a card fragment that cannot be read; or something an
event refers to in its newest version cannot be put in place. -/
inductive Corrupt (log : List Event) : Prop
  | encoded {v : Event} {text : String} (hv : v ∈ log.flatMap Event.versions) (hdata : v.content.data = some (.str text))
      (hparse : Json.parse? text = none)
  | piece {v w : Event} (hv : v ∈ log.flatMap Event.versions) (hdecode : v.decode = .ok w)
      (hfragment : w.isFragment = true) (hread : CardFragment.ofJson? (w.content.data.getD .null) = none)
  | reference {versions : List Event} {fragments : Fragments} {e : Event} {fields : Json.Fields}
      (hversions : candidates log = .ok versions) (hfragments : Fragments.ofEvents versions = .ok fragments)
      (he : e ∈ survivors versions) (hdata : e.content.data = some (.obj fields)) (hdangling : Dangling fragments e fields)

/-- All an event refers to can be put in place just when nothing dangles. -/
theorem embeds_iff {fragments : Fragments} {e : Event} {fields : Json.Fields} :
    Embeds fragments e fields ↔ ¬Dangling fragments e fields := by
  constructor
  · rintro ⟨hfiles, hcards, houtput⟩ hdangling
    cases hdangling with
    | files hv hread =>
      obtain ⟨files, hfiles⟩ := hfiles _ hv
      rw [hread] at hfiles
      cases hfiles
    | ids hv hread =>
      obtain ⟨roots, hroots, -⟩ := hcards _ hv
      rw [hread] at hroots
      cases hroots
    | card hv hread hroot hbroken =>
      obtain ⟨roots, hroots, documents, hdocuments⟩ := hcards _ hv
      rw [hread] at hroots
      cases hroots
      obtain ⟨document, -, hdocument⟩ := exists_of_mapM_ok hdocuments hroot
      rw [hbroken.reassemble_eq] at hdocument
      cases hdocument
    | output hout hv hread =>
      obtain ⟨file, hfile⟩ := houtput hout _ hv
      rw [hread] at hfile
      cases hfile
  · intro hsound
    refine ⟨fun v hv => ?_, fun v hv => ?_, fun hout v hv => ?_⟩
    · exact Option.ne_none_iff_exists'.1 fun hread => hsound (.files hv hread)
    · obtain ⟨roots, hread⟩ := Option.ne_none_iff_exists'.1 fun hread => hsound (.ids hv hread)
      refine ⟨roots, hread, exists_mapM_ok fun root hroot => ?_⟩
      cases hdocument : fragments.reassemble root with
      | ok document => exact ⟨document, rfl⟩
      | error fault => exact absurd (.card hv hread hroot (Fragments.reassemble_eq_iff.1 hdocument)) hsound
    · exact Option.ne_none_iff_exists'.1 fun hread => hsound (.output hout hv hread)

/-- A log that is not corrupt has a timeline, whatever the loader does. -/
theorem isTotal_of_not_corrupt (load : Loader σ) (h : ¬Corrupt log) : (reconstruct load log).IsTotal := by
  obtain ⟨versions, hversions⟩ : ∃ versions, candidates log = .ok versions := exists_mapM_ok fun v hv => by
    unfold Event.decode Content.decodeData?
    split
    · exact ⟨_, rfl⟩
    next hnone =>
      split at hnone
      next text hdata => exact absurd (.encoded hv hdata (Option.map_eq_none_iff.1 hnone)) h
      · cases hnone
  obtain ⟨fragments, hfragments⟩ : ∃ fragments, Fragments.ofEvents versions = .ok fragments := by
    refine Fragments.foldlM_enter_ok_iff.2 fun e he => ?_
    obtain ⟨hmem, hfragment⟩ := List.mem_filter.1 he
    obtain ⟨v, hv, hdecode⟩ := Shuffle.mem_of_mapM_ok hversions hmem
    unfold Fragments.piece?
    split
    · exact ⟨_, rfl⟩
    next hread => exact absurd (.piece hv hdecode hfragment hread) h
  have htotal : ((byTime (survivors versions)).mapM (embed load fragments)).IsTotal :=
    Loading.isTotal_mapM fun e he => isTotal_embed fun fields hdata =>
      embeds_iff.2 fun hdangling => h (.reference hversions hfragments (mem_byTime.1 he) hdata hdangling)
  intro s
  obtain ⟨entries, s', hentries⟩ := htotal s
  exact ⟨_, s', gives_of_reconstruct.2 ⟨versions, fragments, entries, hversions, hfragments, hentries, rfl⟩⟩

theorem not_corrupt_of_gives {s s' : σ} {timeline : List Event} (h : (reconstruct load log).Gives s timeline s') :
    ¬Corrupt log := by
  obtain ⟨versions, fragments, entries, hversions, hfragments, hentries, -⟩ := gives_of_reconstruct.1 h
  intro hcorrupt
  cases hcorrupt with
  | encoded hv hdata hparse =>
    obtain ⟨w, -, hdecode⟩ := exists_of_mapM_ok hversions hv
    simp only [Event.decode, Content.decodeData?, hdata, hparse, Option.map_none] at hdecode
    cases hdecode
  | piece hv hdecode hfragment hread =>
    obtain ⟨w, hw, hdecode'⟩ := exists_of_mapM_ok hversions hv
    obtain rfl := Except.ok.inj (hdecode.symm.trans hdecode')
    obtain ⟨piece, hpiece⟩ :=
      Fragments.foldlM_enter_ok_iff.1 ⟨fragments, hfragments⟩ _ (List.mem_filter.2 ⟨hw, hfragment⟩)
    simp only [Fragments.piece?, hread] at hpiece
    cases hpiece
  | reference hversions' hfragments' he hdata hdangling =>
    obtain rfl := Except.ok.inj (hversions.symm.trans hversions')
    obtain rfl := Except.ok.inj (hfragments.symm.trans hfragments')
    obtain ⟨e', t, t', hgives⟩ := Loading.gives_of_mem hentries (mem_byTime.2 he)
    exact embeds_iff.1 (embeds_of_gives hgives hdata) hdangling

/-! ## What plays no part -/

theorem versions_alone (e : Event) : e.alone.versions = if e.isCandidate then [e.alone] else [] := by
  have hreplacement : e.alone.replacement = none := rfl
  have hkind : e.alone.isCandidate = e.isCandidate := rfl
  rw [Event.versions, hreplacement, Option.toList_none, List.filter_singleton, hkind]
  cases e.isCandidate <;> rfl

/-- Of an event of another kind at most the replacement counts that comes with it, as an event of its own. -/
theorem versions_of_other {e : Event} (h : e.isCandidate = false) :
    e.versions = (e.replacement.toList.map Event.alone).flatMap Event.versions := by
  rw [Event.versions, List.filter_cons_of_neg (by rw [h]; exact Bool.false_ne_true)]
  cases e.replacement with
  | none => rfl
  | some r =>
    rw [Option.toList_some, List.map_singleton, List.flatMap_singleton, versions_alone, List.filter_singleton]
    cases r.isCandidate <;> rfl

/-- A version as it is, or a superseded one with other data. -/
inductive SameOrSuperseded (versions : List Event) (v : Event) : Event → Prop
  | same : SameOrSuperseded versions v v
  | superseded (data : Option Json) (hwhole : v.isFragment = false) (hgone : v.inPlace ∉ survivors versions) :
      SameOrSuperseded versions v { v with content.data := data }

theorem SameOrSuperseded.isFragment_eq {v w : Event} (h : SameOrSuperseded versions v w) :
    w.isFragment = v.isFragment := by
  cases h <;> rfl

theorem eq_of_forall₂ {α : Type} {R : α → α → Prop} {l m : List α} (h : List.Forall₂ R l m)
    (heq : ∀ a ∈ l, ∀ b, R a b → b = a) : m = l := by
  induction h with
  | nil => rfl
  | @cons a b l m hab _ ih =>
    obtain ⟨ha, hl⟩ := List.forall_mem_cons.1 heq
    rw [ha b hab, ih hl]

section Superseded

variable {versions' : List Event} (h : List.Forall₂ (SameOrSuperseded versions) versions versions')
include h

/-- What survives does not depend on the data of what does not. -/
theorem survivors_of_superseded : survivors versions' = survivors versions := by
  have hwhole : List.Forall₂ (SameOrSuperseded versions) (versions.filter (!·.isFragment))
      (versions'.filter (!·.isFragment)) :=
    List.rel_filter (fun v w hvw => by simp [hvw.isFragment_eq]) h
  have hplaces : List.Forall₂ (fun e f => f = e ∨ e ∉ survivors versions ∧ e.Filled f) (inPlaces versions)
      (inPlaces versions') := by
    refine List.rel_map (R := SameOrSuperseded versions) (fun v w hvw => ?_) hwhole
    cases hvw with
    | same => exact .inl rfl
    | superseded data _ hgone => exact .inr ⟨hgone, data, rfl⟩
  have hfilled : ∀ {e f : Event}, f = e ∨ e ∉ survivors versions ∧ e.Filled f → e.Filled f := by
    rintro e f (rfl | ⟨-, h⟩)
    · exact .refl f
    · exact h
  exact eq_of_forall₂ (forall₂_newest hfilled hplaces) fun e he f hef => hef.resolve_right fun h => h.1 he

theorem ofEvents_of_superseded : Fragments.ofEvents versions' = Fragments.ofEvents versions := by
  have hpieces : List.Forall₂ (SameOrSuperseded versions) (versions.filter (·.isFragment))
      (versions'.filter (·.isFragment)) :=
    List.rel_filter (fun v w hvw => by simp [hvw.isFragment_eq]) h
  have hsame : versions'.filter (·.isFragment) = versions.filter (·.isFragment) := by
    refine eq_of_forall₂ hpieces fun v hv w hvw => ?_
    cases hvw with
    | same => rfl
    | superseded data hwhole =>
      rw [(List.mem_filter.1 hv).2] at hwhole
      cases hwhole
  rw [Fragments.ofEvents, Fragments.ofEvents, hsame]

end Superseded

theorem reconstruct_of_candidates (h : candidates log = .ok versions) :
    reconstruct load log =
      (ofExcept (Fragments.ofEvents versions) >>= fun fragments =>
        (byTime (survivors versions)).mapM (embed load fragments) >>= fun entries => pure (byTime (stitch entries))) := by
  rw [reconstruct, h]
  rfl

/-- **A log has no timeline just when its history is corrupt.** The fault is
one of the record. Events of other kinds cause none, except that a replacement
one of them comes with is a version as any other; and nor does what a
superseded version refers to, whatever stands in its data. -/
theorem fails_iff_corrupt (load : Loader σ) (log : List Event) (s : σ) :
    ((∃ fault, ((reconstruct load log).run.run s).1 = .error fault) ↔ Corrupt log) ∧
      (∀ fault, ((reconstruct load log).run.run s).1 = .error fault → fault.IsCorruption) ∧
      (∀ before e after, log = before ++ e :: after → e.isCandidate = false → reconstruct load log =
        reconstruct load (before ++ e.replacement.toList.map Event.alone ++ after)) ∧
      ∀ versions others versions', candidates log = .ok versions → candidates others = .ok versions' →
        List.Forall₂ (SameOrSuperseded versions) versions versions' →
          reconstruct load others = reconstruct load log := by
  refine ⟨⟨?_, fun hcorrupt => ?_⟩, fun fault hfault => ?_, ?_, ?_⟩
  · rintro ⟨fault, hfault⟩
    by_contra hsound
    obtain ⟨timeline, s', hgives⟩ := isTotal_of_not_corrupt load hsound s
    rw [show (reconstruct load log).run.run s = _ from hgives] at hfault
    cases hfault
  · cases hrun : (reconstruct load log).run.run s with
    | mk result s' =>
      cases result with
      | ok timeline => exact absurd hcorrupt (not_corrupt_of_gives hrun)
      | error fault => exact ⟨fault, rfl⟩
  · have houtcomes := reconstruct_alike load load log s s
    rw [hfault] at houtcomes
    cases houtcomes with
    | error h => exact h
  · rintro before e after rfl hother
    have hversions : (before ++ e :: after).flatMap Event.versions =
        (before ++ e.replacement.toList.map Event.alone ++ after).flatMap Event.versions := by
      rw [List.flatMap_append, List.flatMap_cons, versions_of_other hother, List.flatMap_append, List.flatMap_append,
        List.append_assoc]
    rw [reconstruct, reconstruct, candidates, candidates, hversions]
  · intro versions others versions' hversions hothers hsame
    rw [reconstruct_of_candidates hversions, reconstruct_of_candidates hothers, ofEvents_of_superseded hsame,
      survivors_of_superseded hsame]

end Timeline

end ReplyStream
