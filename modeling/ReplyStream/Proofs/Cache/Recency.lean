/-
What a desk forgets, and when. Its cache never holds more than it has room
for; a text that is still fresh is dropped only when another is stored for
which there is no room, and none that is kept was served earlier
(`drops_least_used`).

When a text was served is read off the record (`LastServed`), and the use an
entry of the cache is marked with is the last of them. Of entries that have
gone unused for equally long any may be dropped (`Turns`).
-/
import ReplyStream.Proofs.Cache.Record
import ReplyStream.Proofs.Cache.Room

namespace ReplyStream.Desk

/-! ## When a text was served -/

/-- At this time a call for the text of `url` was answered with it: the text
was in the cache, or had been downloaded and stored. -/
def Served (notes : List (Nat × Note)) (url : String) (time : Nat) : Prop :=
  ∃ n file text, (n, .asked file) ∈ notes ∧ file.url = url ∧ (n, .answered time (.ok text)) ∈ notes

structure LastServed (notes : List (Nat × Note)) (url : String) (time : Nat) : Prop where
  served : Served notes url time
  last : ∀ other, Served notes url other → other ≤ time

variable {ttl maxEntries n asked : Nat} {d d' : Desk} {m : Move} {file : AttachedFile} {text url : String}
  {cache : Cache} {call : Option Call} {seen : List Note} {entries : Table Cache.Entry}
  {entry : String × Cache.Entry}

theorem served_act {time : Nat} : Served (d.act n asked cache call seen).notes url time ↔
    Served d.notes url time ∨ ∃ file text, .asked file ∈ d.seen n ++ seen ∧ file.url = url ∧
      .answered time (.ok text) ∈ d.seen n ++ seen := by
  constructor
  · rintro ⟨k, file, text, hasked, hurl, hanswered⟩
    rw [← mem_seen] at hasked hanswered
    by_cases hk : k = n
    · subst hk
      rw [act_seen_self] at hasked hanswered
      exact .inr ⟨file, text, hasked, hurl, hanswered⟩
    · rw [act_seen_other hk, mem_seen] at hasked hanswered
      exact .inl ⟨k, file, text, hasked, hurl, hanswered⟩
  · rintro (⟨k, file, text, hasked, hurl, hanswered⟩ | ⟨file, text, hasked, hurl, hanswered⟩)
    · exact ⟨k, file, text, List.mem_append_left _ hasked, hurl, List.mem_append_left _ hanswered⟩
    · rw [← @act_seen_self d n asked cache call seen, mem_seen] at hasked hanswered
      exact ⟨n, file, text, hasked, hurl, hanswered⟩

/-! ## Moves -/

/-- The move stores a text that was downloaded. -/
def Stores (d : Desk) (m : Move) : Prop :=
  ∃ n file text, m = .settle n ∧ d.calls n = some (.landed file (.ok text))

/-- What the cache would hold behind a move if it had room for everything. -/
def held (d : Desk) : Move → Table Cache.Entry
  | .settle n =>
    match d.calls n with
    | some (.landed file (.ok text)) => d.cache.entries.put file.url ⟨text, d.now, d.now⟩
    | _ => d.cache.entries
  | .wait _ | .ask _ | .land .. => d.cache.entries

/-- A move, where room may be made in any way. -/
inductive Turns (d : Desk) : Move → Desk → Prop where
  | stores {n : Nat} {file : AttachedFile} {text : String} {entries : Table Cache.Entry}
      (hcall : d.calls n = some (.landed file (.ok text)))
      (hroom : d.cache.MakesRoom d.now (d.cache.entries.put file.url ⟨text, d.now, d.now⟩) entries) :
      Turns d (.settle n) (d.act n d.asked { d.cache with entries } none [.answered d.now (.ok text)])
  | moves {m : Move} (h : ¬ d.Stores m) : Turns d m (d.move m)

/-- The desks that any calls, downloads and passages of time may lead to. -/
inductive Reached (ttl maxEntries : Nat) : Desk → Prop where
  | new : Reached ttl maxEntries (new ttl maxEntries)
  | turn {d d' : Desk} {m : Move} (h : Reached ttl maxEntries d) (hturns : d.Turns m d') :
      Reached ttl maxEntries d'

theorem held_of_not_stores (h : ¬ d.Stores m) : d.held m = d.cache.entries := by
  cases m with
  | wait | ask | land => rfl
  | settle n =>
    rw [held]
    split
    next file text hcall => exact absurd ⟨n, file, text, rfl, hcall⟩ h
    next => rfl

theorem turns_move (hkeys : d.cache.entries.keys.Nodup) (m : Move) : d.Turns m (d.move m) := by
  by_cases hstores : d.Stores m
  · obtain ⟨n, file, text, rfl, hcall⟩ := hstores
    have hmove : d.move (.settle n) = d.act n d.asked
        { d.cache with entries := (d.cache.insert d.now file.url text).entries } none
          [.answered d.now (.ok text)] := by
      rw [move, settle, hcall, ← Cache.insert_eq]
      rfl
    rw [hmove]
    exact .stores hcall (Cache.insert_makesRoom hkeys d.now file.url text)
  · exact .moves hstores

/-! ## What stays true -/

/-- No more is held than there is room for, and each entry is marked with its
last use. -/
structure Tidy (maxEntries : Nat) (d : Desk) : Prop where
  limit : d.cache.maxEntries = maxEntries
  nodup : d.cache.entries.keys.Nodup
  bounded : d.cache.entries.length ≤ maxEntries
  past : ∀ url time, Served d.notes url time → time ≤ d.now
  used : ∀ entry ∈ d.cache.entries, LastServed d.notes entry.1 entry.2.usedAt

theorem tidy_new (ttl maxEntries : Nat) : Tidy maxEntries (new ttl maxEntries) where
  limit := rfl
  nodup := List.nodup_nil
  bounded := Nat.zero_le _
  past := by
    rintro url time ⟨n, file, text, hasked, -⟩
    cases hasked
  used _ hentry := by cases hentry

/-- When texts are served now, their entries are marked so and the others are
as they were, all are marked with their last use. -/
theorem Tidy.lastServed (h : Tidy maxEntries d) {notes : List (Nat × Note)} {now : String → Prop}
    (hserved : ∀ url time, Served notes url time ↔ Served d.notes url time ∨ now url ∧ time = d.now)
    (hentry : now entry.1 ∧ entry.2.usedAt = d.now ∨ ¬ now entry.1 ∧ entry ∈ d.cache.entries) :
    LastServed notes entry.1 entry.2.usedAt := by
  rcases hentry with ⟨hnow, hused⟩ | ⟨hnot, hold⟩
  · rw [hused]
    refine ⟨(hserved _ _).2 (.inr ⟨hnow, rfl⟩), fun time htime => ?_⟩
    rcases (hserved _ _).1 htime with hbefore | ⟨-, rfl⟩
    · exact h.past _ _ hbefore
    · exact Nat.le_refl _
  · obtain ⟨hwas, hlast⟩ := h.used entry hold
    refine ⟨(hserved _ _).2 (.inl hwas), fun time htime => ?_⟩
    rcases (hserved _ _).1 htime with hbefore | ⟨hnow, -⟩
    · exact hlast time hbefore
    · exact absurd hnow hnot

theorem Tidy.past_of_served (h : Tidy maxEntries d) {notes : List (Nat × Note)} {now : String → Prop}
    (hserved : ∀ url time, Served notes url time ↔ Served d.notes url time ∨ now url ∧ time = d.now)
    {time : Nat} (htime : Served notes url time) : time ≤ d.now := by
  rcases (hserved _ _).1 htime with hbefore | ⟨-, rfl⟩
  · exact h.past _ _ hbefore
  · exact Nat.le_refl _

/-- A call that is answered with a text now serves that of its URL, and no other. -/
theorem served_of_answer (file : AttachedFile) (text : String)
    (hasked : ∀ file', .asked file' ∈ d.seen n ++ seen ↔ file' = file)
    (hanswered : ∀ time text', .answered time (.ok text') ∈ d.seen n ++ seen ↔ time = d.now ∧ text' = text)
    (url : String) (time : Nat) : Served (d.act n asked cache call seen).notes url time ↔
      Served d.notes url time ∨ url = file.url ∧ time = d.now := by
  rw [served_act]
  refine or_congr_right ⟨?_, ?_⟩
  · rintro ⟨file', text', hfile, rfl, htext⟩
    exact ⟨congrArg _ ((hasked file').1 hfile), ((hanswered time text').1 htext).1⟩
  · rintro ⟨rfl, rfl⟩
    exact ⟨file, text, (hasked file).2 rfl, rfl, (hanswered d.now text).2 ⟨rfl, rfl⟩⟩

theorem Sound.served_of_store (h : Sound ttl d) (hcall : d.calls n = some (.landed file (.ok text)))
    (url : String) (time : Nat) :
    Served (d.act n asked cache call [.answered d.now (.ok text)]).notes url time ↔
      Served d.notes url time ∨ url = file.url ∧ time = d.now :=
  served_of_answer file text (by simp [(h.landed hcall).2]) (by simp [(h.landed hcall).2]) url time

theorem Sound.served_of_hit (h : Sound ttl d) (file : AttachedFile) (text url : String) (time : Nat) :
    Served (d.act d.asked asked cache call [.asked file, .answered d.now (.ok text)]).notes url time ↔
      Served d.notes url time ∨ url = file.url ∧ time = d.now := by
  have hnone := (h.coming d.asked (Nat.le_refl _)).2
  exact served_of_answer file text (by simp [hnone]) (by simp [hnone]) url time

theorem served_of_silent (hseen : ∀ time text, .answered time (.ok text) ∉ d.seen n ++ seen) (url : String)
    (time : Nat) : Served (d.act n asked cache call seen).notes url time ↔
      Served d.notes url time ∨ False ∧ time = d.now := by
  rw [served_act]
  refine or_congr_right ⟨?_, ?_⟩
  · rintro ⟨_, text, -, -, hanswered⟩
    exact absurd hanswered (hseen time text)
  · rintro ⟨hfalse, -⟩
    exact hfalse.elim

/-- What holds of the entries when a text was stored for `file`. -/
theorem Tidy.used_of_store (h : Tidy maxEntries d) (hsound : Sound ttl d)
    (hcall : d.calls n = some (.landed file (.ok text))) :
    ∀ entry ∈ d.cache.entries.put file.url ⟨text, d.now, d.now⟩,
      LastServed (d.act n asked cache call [.answered d.now (.ok text)]).notes entry.1 entry.2.usedAt := by
  intro entry hentry
  refine h.lastServed (hsound.served_of_store hcall) ?_
  exact (Table.mem_put_cases h.nodup hentry).imp (by rintro rfl; exact ⟨rfl, rfl⟩) id

theorem Tidy.store (h : Tidy maxEntries d) (hsound : Sound ttl d)
    (hcall : d.calls n = some (.landed file (.ok text)))
    (hroom : d.cache.MakesRoom d.now (d.cache.entries.put file.url ⟨text, d.now, d.now⟩) entries) :
    Tidy maxEntries (d.act n d.asked { d.cache with entries } none [.answered d.now (.ok text)]) where
  limit := h.limit
  nodup := hroom.nodup (Table.nodup_keys_put h.nodup _ _)
  bounded := h.limit ▸ hroom.length_le (Table.nodup_keys_put h.nodup _ _)
  past _ _ := h.past_of_served (hsound.served_of_store hcall)
  used entry hentry := h.used_of_store hsound hcall entry (hroom.subset hentry)

theorem Tidy.silent (h : Tidy maxEntries d) (hlimit : cache.maxEntries = d.cache.maxEntries)
    (hsub : cache.entries.Sublist d.cache.entries)
    (hseen : ∀ time text, .answered time (.ok text) ∉ d.seen n ++ seen) :
    Tidy maxEntries (d.act n asked cache call seen) where
  limit := hlimit.trans h.limit
  nodup := (hsub.map _).nodup h.nodup
  bounded := Nat.le_trans hsub.length_le h.bounded
  past _ _ := h.past_of_served (served_of_silent hseen)
  used _ hentry := h.lastServed (served_of_silent hseen) (.inr ⟨id, hsub.subset hentry⟩)

theorem Tidy.hit (h : Tidy maxEntries d) (hsound : Sound ttl d) {e : Cache.Entry} {tally : Cache.Tally}
    (hget : d.cache.entries.get? file.url = some e) :
    Tidy maxEntries (d.act d.asked asked
      { d.cache with entries := d.cache.entries.put file.url { e with usedAt := d.now }, tally } none
      [.asked file, .answered d.now (.ok e.text)]) where
  limit := h.limit
  nodup := Table.nodup_keys_put h.nodup _ _
  bounded := by
    have hkey : file.url ∈ d.cache.entries.keys := Table.get?_isSome.1 (by rw [hget]; rfl)
    exact Nat.le_trans (Nat.le_of_eq (Table.length_put hkey _)) h.bounded
  past _ _ := h.past_of_served (hsound.served_of_hit file e.text)
  used _ hentry := by
    refine h.lastServed (hsound.served_of_hit file e.text) ?_
    exact (Table.mem_put_cases h.nodup hentry).imp (by rintro rfl; exact ⟨rfl, rfl⟩) id

theorem Sound.not_stored (h : Sound ttl d) (hmove : ¬ d.Stores m) (hcaller : m.caller d = some n)
    (hcall : d.calls n = some (.landed file (.ok text))) : d.move m ≠ d.act n asked cache none seen := by
  intro hact
  cases m with
  | wait => cases hcaller
  | ask =>
    cases hcaller
    rw [(h.coming _ (Nat.le_refl _)).1] at hcall
    cases hcall
  | land =>
    cases hcaller
    rw [Desk.move, land, hcall] at hact
    have hnone := congrArg (·.calls n) hact
    rw [act_calls_self, hcall] at hnone
    cases hnone
  | settle =>
    cases hcaller
    exact hmove ⟨n, file, text, rfl, hcall⟩

theorem Tidy.move (h : Tidy maxEntries d) (hsound : Sound ttl d) (hmove : ¬ d.Stores m) :
    Tidy maxEntries (d.move m) := by
  rcases d.move_cases m with ⟨duration, hwait⟩ | ⟨n, asked, cache, call, seen, hcaller, hacts, hact⟩
  · rw [hwait]
    exact ⟨h.limit, h.nodup, h.bounded, fun url time hserved => Nat.le_add_right_of_le (h.past url time hserved),
      h.used⟩
  · rw [hact]
    cases hacts with
    | refused => exact h.silent rfl (List.Sublist.refl _) (by simp [(hsound.coming _ (Nat.le_refl _)).2])
    | hit _ _ _ hget => exact h.hit hsound hget
    | missed _ _ _ hspares =>
      exact h.silent rfl hspares.sublist (by simp [(hsound.coming _ (Nat.le_refl _)).2])
    | landed _ _ _ hcall => exact h.silent rfl (List.Sublist.refl _) (by simp [(hsound.loading hcall).2])
    | stored _ _ _ hcall => exact absurd hact (hsound.not_stored hmove hcaller hcall)
    | failed _ _ _ hcall => exact h.silent rfl (List.Sublist.refl _) (by simp [(hsound.landed hcall).2])

/-- However room is made for a text, what is on record tells of the entries. -/
theorem Sound.store (h : Sound ttl d) (hcall : d.calls n = some (.landed file (.ok text)))
    (hsub : entries ⊆ d.cache.entries.put file.url ⟨text, d.now, d.now⟩) :
    Sound ttl (d.act n d.asked { d.cache with entries } none [.answered d.now (.ok text)]) := by
  have hact := h.act (.stored n file text hcall)
  refine ⟨hact.ttl_eq, hact.coming, fun k hk => ?_, fun entry hentry => ?_, ⟨hact.counted.all, hact.counted.misses⟩⟩
  · obtain ⟨file', hfate⟩ := hact.fates k hk
    exact ⟨file', hfate.of_same rfl rfl (List.append_nil _).symm⟩
  · rcases Table.mem_put (hsub hentry) with rfl | hold
    · have hended : (n, .ended file.url (.ok text)) ∈ d.notes := by
        rw [← mem_seen, (h.landed hcall).2]
        simp
      exact ⟨⟨n, List.mem_append_left _ hended, List.mem_append_right _ (by simp)⟩, Nat.le_refl _⟩
    · obtain ⟨hstored, hpast⟩ := h.kept entry hold
      exact ⟨hstored.mono (List.subset_append_left _ _), hpast⟩

theorem Reached.sound_tidy (h : Reached ttl maxEntries d) : Sound ttl d ∧ Tidy maxEntries d := by
  induction h with
  | new => exact ⟨sound_new ttl maxEntries, tidy_new ttl maxEntries⟩
  | turn _ hturns ih =>
    obtain ⟨hsound, htidy⟩ := ih
    cases hturns with
    | stores hcall hroom => exact ⟨hsound.store hcall hroom.subset, htidy.store hsound hcall hroom⟩
    | moves hmove => exact ⟨hsound.move _, htidy.move hsound hmove⟩

theorem Reached.after (h : Reached ttl maxEntries d) (moves : List Move) : Reached ttl maxEntries (d.after moves) := by
  induction moves generalizing d with
  | nil => exact h
  | cons m moves ih => exact ih (h.turn (turns_move h.sound_tidy.2.nodup m))

/-! ## What is dropped -/

/-- A fresh entry is dropped by a move: a text was stored for which there was
no room. Then nothing stale is kept, there is room for no more, and what is
kept was served no earlier than what is dropped. -/
structure Dropped (maxEntries : Nat) (d : Desk) (m : Move) (d' : Desk) (entry : String × Cache.Entry) : Prop where
  stores : d.Stores m
  tooMany : maxEntries < (d.held m).length
  fresh : ∀ kept ∈ d'.cache.entries, d'.cache.isFresh d'.now kept.2 = true
  full : d'.cache.entries.length = maxEntries
  least : ∀ kept ∈ d'.cache.entries, ∃ time time', LastServed d'.notes entry.1 time ∧
    LastServed d'.notes kept.1 time' ∧ time ≤ time'

theorem Sound.keeps_fresh (h : Sound ttl d) (hkeys : d.cache.entries.keys.Nodup) (hmove : ¬ d.Stores m)
    (hentry : entry ∈ d.cache.entries) (hfresh : d.cache.isFresh d.now entry.2 = true) :
    entry.1 ∈ (d.move m).cache.entries.keys := by
  have hkey : entry.1 ∈ d.cache.entries.keys := List.mem_map_of_mem hentry
  rcases d.move_cases m with ⟨duration, hwait⟩ | ⟨n, asked, cache, call, seen, hcaller, hacts, hact⟩
  · rw [hwait]
    exact hkey
  · rw [hact]
    cases hacts with
    | refused | landed | failed => exact hkey
    | hit => exact Table.mem_keys_put.2 (.inr hkey)
    | missed file entries _ hspares =>
      rcases hspares with rfl | ⟨e, hget, hstale, rfl⟩
      · exact hkey
      · have hne : entry.1 ≠ file.url := by
          intro heq
          rw [← heq, Table.get?_of_mem hkeys hentry] at hget
          cases hget
          rw [hfresh] at hstale
          cases hstale
        exact List.mem_map_of_mem (List.mem_filter.2 ⟨hentry, by simpa using hne⟩)
    | stored _ _ _ hcall => exact absurd hact (h.not_stored hmove hcaller hcall)

theorem Reached.dropped (h : Reached ttl maxEntries d) (hturns : d.Turns m d')
    (hentry : entry ∈ d.cache.entries ∨ entry ∈ d.held m) (hfresh : d.cache.isFresh d.now entry.2 = true)
    (hgone : entry.1 ∉ d'.cache.entries.keys) : Dropped maxEntries d m d' entry := by
  obtain ⟨hsound, htidy⟩ := h.sound_tidy
  have htidy' := (h.turn hturns).sound_tidy.2
  cases hturns with
  | moves hmove =>
    rw [held_of_not_stores hmove, or_self] at hentry
    exact absurd (hsound.keeps_fresh htidy.nodup hmove hentry hfresh) hgone
  | @stores n file text entries hcall hroom =>
    have hheld : d.held (.settle n) = d.cache.entries.put file.url ⟨text, d.now, d.now⟩ := by
      rw [held, hcall]
    have hput : entry ∈ d.cache.entries.put file.url ⟨text, d.now, d.now⟩ := by
      rcases hentry with hold | hnow
      · by_cases hkey : entry.1 = file.url
        -- The text is stored in the place of the entry, and nothing is dropped.
        · have hmem : file.url ∈ d.cache.entries.keys := hkey ▸ List.mem_map_of_mem (f := (·.1)) hold
          have hsame := hroom.eq_of_length_le (by
            rw [Table.length_put hmem, htidy.limit]
            exact htidy.bounded)
          rw [hsame] at hgone
          exact absurd (Table.mem_keys_put.2 (.inl hkey)) hgone
        · exact Table.mem_put_of_ne hold hkey
      · rwa [hheld] at hnow
    obtain ⟨hmany, hstale, hfull, hleast⟩ :=
      hroom.dropped (Table.nodup_keys_put htidy.nodup _ _) hput hfresh hgone
    refine ⟨⟨n, file, text, rfl, hcall⟩, ?_, hstale, ?_, fun kept hkept => ?_⟩
    · rw [hheld, ← htidy.limit]
      exact hmany
    · rw [← htidy.limit]
      exact hfull
    · exact ⟨_, _, htidy.used_of_store hsound hcall entry hput, htidy'.used kept hkept, hleast kept hkept⟩

/-- **What is forgotten is what has gone unused for longest.** However calls,
downloads and time run into one another, the cache holds no more than it has
room for, and its entries are marked with when their texts were stored and
last served. A fresh one, be it the one just stored, is dropped only when a
text is stored for which there is no room; then nothing stale is kept, the
cache is full, and no text that is kept was served earlier than it. -/
theorem drops_least_used (ttl maxEntries : Nat) :
    (∀ moves, Reached ttl maxEntries ((new ttl maxEntries).after moves)) ∧
    ∀ d, Reached ttl maxEntries d →
      d.cache.entries.length ≤ maxEntries ∧
      (∀ entry ∈ d.cache.entries, Stored d.notes entry.1 entry.2.text entry.2.fetchedAt ∧
        LastServed d.notes entry.1 entry.2.usedAt) ∧
      ∀ m d', d.Turns m d' → ∀ entry, entry ∈ d.cache.entries ∨ entry ∈ d.held m →
        d.cache.isFresh d.now entry.2 = true → entry.1 ∉ d'.cache.entries.keys →
          Dropped maxEntries d m d' entry := by
  refine ⟨Reached.new.after, fun d hreached => ?_⟩
  obtain ⟨hsound, htidy⟩ := hreached.sound_tidy
  refine ⟨htidy.bounded, fun entry hentry => ⟨(hsound.kept entry hentry).1, htidy.used entry hentry⟩, ?_⟩
  intro m d' hturns entry hentry hfresh hgone
  exact hreached.dropped hturns hentry hfresh hgone

/-- With room for two, the file that was asked for again stays. -/
example :
    let file (url : String) : AttachedFile := ⟨url, none, url, "text/plain", none, none⟩
    let load (n : Nat) (url : String) : List Move := [.wait 1, .ask (file url), .land n (.ok url), .settle n]
    let moves := load 0 "a" ++ load 1 "b" ++ [.wait 1, .ask (file "a")] ++ load 3 "c"
    ((new 1000 2).after moves).cache.entries.keys = ["a", "c"] := by
  decide +kernel

end ReplyStream.Desk
