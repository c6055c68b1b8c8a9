/-
Reading a room's log back gives the same timeline whatever the order of the
log and however often it holds an event (`reconstruct_order_free`). The
cache, its limits and the time play no part: as long as it holds what the
files are, a text is the same from the cache and from the backend
(`load_faithful`).
-/
import ReplyStream.Proofs.Cache.Entries
import ReplyStream.Proofs.Timeline.Agree
import ReplyStream.Proofs.Timeline.Order
import ReplyStream.Room.History

namespace ReplyStream

/-! ## Files -/

theorem Wire.download_download (w : Wire) (url other : String) :
    ((w.download url).1.download other).2 = (w.download other).2 := by
  unfold Wire.download
  cases w.downloadFaults.get? url with
  | some fault => rfl
  | none =>
    simp only
    cases w.downloadFaults.get? other <;> rfl

namespace Cache

/-- All texts held are what `texts` gives. -/
def Faithful (texts : String → Except TransportFault String) (entries : Table Entry) : Prop :=
  ∀ entry ∈ entries, texts entry.1 = .ok entry.2.text

variable {texts : String → Except TransportFault String} {c : Cache} {now : Nat} {url text : String}

theorem Faithful.put {entries : Table Entry} (h : Faithful texts entries) {e : Entry} (he : texts url = .ok e.text) :
    Faithful texts (entries.put url e) := by
  intro entry hentry
  rcases Table.mem_put hentry with rfl | hentry
  · exact he
  · exact h entry hentry

theorem Faithful.of_subset {entries entries' : Table Entry} (h : Faithful texts entries) (hsub : entries' ⊆ entries) :
    Faithful texts entries' := fun entry hentry => h entry (hsub hentry)

/-- What is found is the text, and the cache stays faithful. -/
theorem lookup_faithful (h : Faithful texts c.entries) (now : Nat) (url : String) :
    Faithful texts (c.lookup now url).1.entries ∧ ∀ text ∈ (c.lookup now url).2, texts url = .ok text := by
  unfold lookup
  cases hget : c.entries.get? url with
  | none => exact ⟨h, fun text htext => by cases htext⟩
  | some e =>
    have he := h _ (Table.mem_of_get? hget)
    simp only
    split
    · refine ⟨h.put he, fun text htext => ?_⟩
      cases htext
      exact he
    · exact ⟨h.of_subset (List.filter_subset_self _), fun text htext => by cases htext⟩

theorem insert_faithful (h : Faithful texts c.entries) (htext : texts url = .ok text) :
    Faithful texts (c.insert now url text).entries := by
  have hput : Faithful texts (c.entries.put url ⟨text, now, now⟩) := h.put htext
  exact hput.of_subset (insert_subset c now url text)

end Cache

namespace Depot

/-- The text a download of a file gives. -/
def text (d : Depot) (file : AttachedFile) : Except Fault String :=
  if !file.isText then .error (.unsupportedAttachment file.url file.contentType)
  else
    match (d.wire.download file.url).2 with
    | .ok text => .ok text
    | .error fault => .error (.attachmentFetch file.url fault)

/-- The cache holds what a download gives. -/
def Faithful (d : Depot) : Prop := Cache.Faithful (fun url => (d.wire.download url).2) d.cache.entries

/-- **The cache does not show.** From a cache that holds what the files are a
file has the text it is downloaded with, and so it stays. -/
theorem load_faithful {d : Depot} (h : d.Faithful) (now : Nat) (file : AttachedFile) :
    (load now file d).1 = d.text file ∧ (load now file d).2.Faithful ∧
      ∀ url, ((load now file d).2.wire.download url).2 = (d.wire.download url).2 := by
  unfold load text Cache.ask
  by_cases htype : (!file.isText) = true
  · rw [if_pos htype, if_pos htype]
    exact ⟨rfl, h, fun _ => rfl⟩
  · rw [if_neg htype, if_neg htype]
    obtain ⟨hentries, hfound⟩ := Cache.lookup_faithful h now file.url
    cases hlookup : d.cache.lookup now file.url with
    | mk cache found =>
      rw [hlookup] at hentries hfound
      cases found with
      | some text =>
        simp only [hfound text rfl]
        exact ⟨trivial, hentries, fun _ => trivial⟩
      | none =>
        have hkeep := d.wire.download_download file.url
        cases hdownload : d.wire.download file.url with
        | mk wire result =>
          rw [hdownload] at hkeep
          cases result with
          | error fault =>
            refine ⟨rfl, fun entry hentry => ?_, hkeep⟩
            exact (hkeep entry.1).trans (hentries entry hentry)
          | ok text =>
            have htext : (d.wire.download file.url).2 = .ok text := by rw [hdownload]
            have hinsert : Cache.Faithful (fun url => (d.wire.download url).2)
                (({ cache with tally.misses := cache.tally.misses + 1 } : Cache).insert now file.url text).entries :=
              Cache.insert_faithful hentries htext
            refine ⟨rfl, fun entry hentry => ?_, hkeep⟩
            exact (hkeep entry.1).trans (hinsert entry hentry)

/-- Two depots that give the same downloads, with caches that hold what they give. -/
structure Alike (d₁ d₂ : Depot) : Prop where
  texts : ∀ url, (d₁.wire.download url).2 = (d₂.wire.download url).2
  first : d₁.Faithful
  second : d₂.Faithful

theorem load_agree (now₁ now₂ : Nat) (file : AttachedFile) :
    Timeline.Loading.Agree Alike (load now₁ file) (load now₂ file) := by
  intro d₁ d₂ h
  obtain ⟨htext₁, hfaithful₁, hkeep₁⟩ := load_faithful h.first now₁ file
  obtain ⟨htext₂, hfaithful₂, hkeep₂⟩ := load_faithful h.second now₂ file
  have htexts : d₁.text file = d₂.text file := by
    unfold text
    rw [h.texts]
  refine ⟨htext₁.trans (htexts.trans htext₂.symm), ⟨fun url => ?_, hfaithful₁, hfaithful₂⟩⟩
  exact (hkeep₁ url).trans ((h.texts url).trans (hkeep₂ url).symm)

/-! ## The timeline of a room -/

section Reconstruct

variable {now now₁ now₂ : Nat} {log log₁ log₂ : List Event} {d d₁ d₂ : Depot}

theorem reconstruct_ok {timeline : List Event} :
    (reconstruct now log d).2 = .ok timeline ↔
      ∃ d', (Timeline.reconstruct (load now) log).Gives d timeline d' := by
  unfold reconstruct Timeline.Loading.Gives
  cases (Timeline.reconstruct (load now) log).run.run d with
  | mk result d' =>
    constructor
    · rintro rfl
      exact ⟨d', rfl⟩
    · rintro ⟨d'', h⟩
      exact (Prod.mk.inj h).1

/-- **The order of the log does not show in the timeline**, nor does how often
an event is in it, when it is read back or what the cache may hold. Whether
there is a timeline does not depend on them either; and its entries get newer
and newer, so that they have but one order. -/
theorem reconstruct_order_free (hdistinct : Timeline.Distinct (log₁.flatMap Event.versions))
    (hsame : ∀ v, v ∈ log₁.flatMap Event.versions ↔ v ∈ log₂.flatMap Event.versions)
    (hfiles : ∀ url, (d₁.wire.download url).2 = (d₂.wire.download url).2)
    (hcache₁ : d₁.cache.entries = []) (hcache₂ : d₂.cache.entries = []) :
    (reconstruct now₁ log₁ d₁).2.toOption = (reconstruct now₂ log₂ d₂).2.toOption ∧
      ∀ timeline, (reconstruct now₁ log₁ d₁).2 = .ok timeline →
        timeline.Pairwise (·.timestamp < ·.timestamp) := by
  have hempty : ∀ {d : Depot}, d.cache.entries = [] → d.Faithful := fun h entry hentry => by
    rw [h] at hentry
    cases hentry
  have hloads : (reconstruct now₁ log₁ d₁).2 = (reconstruct now₂ log₁ d₂).2 :=
    (Timeline.reconstruct_agree (load_agree now₁ now₂) log₁ d₁ d₂
      ⟨hfiles, hempty hcache₁, hempty hcache₂⟩).1
  have hlogs : ∀ timeline, (reconstruct now₂ log₁ d₂).2 = .ok timeline ↔
      (reconstruct now₂ log₂ d₂).2 = .ok timeline := by
    intro timeline
    rw [reconstruct_ok, reconstruct_ok]
    constructor
    · exact fun ⟨d', h⟩ => ⟨d', Timeline.gives_of_same hdistinct hsame h⟩
    · exact fun ⟨d', h⟩ => ⟨d', Timeline.gives_of_same (hdistinct.of_same hsame) (fun v => (hsame v).symm) h⟩
  constructor
  · rw [hloads]
    cases h₁ : (reconstruct now₂ log₁ d₂).2 with
    | ok timeline => rw [(hlogs timeline).1 h₁]
    | error fault =>
      cases h₂ : (reconstruct now₂ log₂ d₂).2 with
      | ok timeline => rw [(hlogs timeline).2 h₂] at h₁; cases h₁
      | error fault' => rfl
  · intro timeline h
    obtain ⟨d', hgives⟩ := reconstruct_ok.1 h
    exact Timeline.pairwise_of_gives hdistinct hgives

end Reconstruct

/-! A reply in two pieces, the first of which was edited: once as three events,
once with the edit as the server adds it, and with repetitions. -/

def editedPiece : Event :=
  { Timeline.piece "$e" 2 "A" none (some true) with content.relatesTo := some ⟨Relation.replaceKind, "$a"⟩ }

def editedLog : List Event :=
  [Timeline.piece "$a" 1 "a" none (some true), editedPiece, Timeline.piece "$b" 3 "b" (some "$a") none]

def shuffledLog : List Event :=
  [Timeline.piece "$b" 3 "b" (some "$a") none, editedPiece, Timeline.piece "$b" 3 "b" (some "$a") none,
   { Timeline.piece "$a" 1 "a" none (some true) with unsigned := some ⟨some ⟨some editedPiece⟩⟩ }]

theorem editedLog_ok :
    (reconstruct 0 editedLog Timeline.emptyDepot).2 = .ok [Timeline.piece "$a" 3 "Ab" none none] := by
  have hplaces : Timeline.survivors editedLog =
      [Timeline.piece "$a" 2 "A" none (some true), Timeline.piece "$b" 3 "b" (some "$a") none] := rfl
  have hsorted : Timeline.byTime (Timeline.survivors editedLog) = Timeline.survivors editedLog :=
    List.mergeSort_of_pairwise (by decide)
  refine reconstruct_ok.2 ⟨Timeline.emptyDepot, Timeline.gives_of_reconstruct.2
    ⟨editedLog, [], Timeline.survivors editedLog, rfl, rfl, ?_, ?_⟩⟩
  · rw [hsorted, hplaces]
    rfl
  · rw [show Timeline.stitch (Timeline.survivors editedLog) = [Timeline.piece "$a" 3 "Ab" none none] by rfl,
      Timeline.byTime_singleton]

theorem reconstruct_order_free_edited :
    (∃ timeline, (reconstruct 0 editedLog Timeline.emptyDepot).2 = .ok timeline) ∧
    (reconstruct 0 editedLog Timeline.emptyDepot).2.toOption =
      (reconstruct 5 shuffledLog Timeline.emptyDepot).2.toOption ∧
    ∀ timeline, (reconstruct 0 editedLog Timeline.emptyDepot).2 = .ok timeline →
      timeline.Pairwise (·.timestamp < ·.timestamp) := by
  have hedited : editedLog.flatMap Event.versions = editedLog := rfl
  have hshuffled : shuffledLog.flatMap Event.versions =
      [Timeline.piece "$b" 3 "b" (some "$a") none, editedPiece, Timeline.piece "$b" 3 "b" (some "$a") none,
       Timeline.piece "$a" 1 "a" none (some true), editedPiece] := rfl
  refine ⟨⟨_, editedLog_ok⟩, reconstruct_order_free ⟨?_, ?_⟩ ?_ (fun _ => rfl) rfl rfl⟩
  · rw [hedited]
    simp [editedLog, editedPiece, Timeline.piece]
  · rw [hedited]
    simp [editedLog, editedPiece, Timeline.piece, Event.isFragment, Event.msgtype, Content.empty]
  · rw [hedited, hshuffled]
    intro v
    simp only [editedLog, List.mem_cons, List.not_mem_nil, or_false]
    tauto

end Depot

end ReplyStream
