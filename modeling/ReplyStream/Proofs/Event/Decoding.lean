/-
Decoding the data of a content, call after call. A call that fails leaves the
content alone, and one that succeeds changes nothing but the data
(`Content.decodeCall_cases`). Whether data is encoded shows in its kind alone: a
string that a call has decoded is decoded again by the next one. So a second
call changes nothing just when the text does not stand for a string
(`Content.decode_again_iff`).

A text is longer than the string it stands for (`Json.length_lt_of_parse?`),
so calls come to an end: from some call on nothing changes any more.
-/
import ReplyStream.Event.Content

namespace ReplyStream

/-! ## The length of strings -/

namespace Json

namespace Reader

theorem length_skipSpace_le (cs : List Char) : (skipSpace cs).length ≤ cs.length :=
  (List.dropWhile_sublist _).length_le

theorem length_of_hexUnit? {cs rest : List Char} {n : Nat} (h : hexUnit? cs = some (n, rest)) :
    rest.length < cs.length := by
  unfold hexUnit? at h
  split at h
  next a b c d rest' =>
    simp only [Option.bind_eq_bind, Option.bind_eq_some_iff, Option.some.injEq, Prod.mk.injEq] at h
    obtain ⟨_, _, _, _, _, _, _, _, -, rfl⟩ := h
    simp only [List.length_cons]
    omega
  next => cases h

theorem length_of_unicodeEscape? {cs rest : List Char} {c : Char} (h : unicodeEscape? cs = some (c, rest)) :
    rest.length < cs.length := by
  unfold unicodeEscape? at h
  simp only [Option.bind_eq_bind, Option.bind_eq_some_iff, Prod.exists] at h
  obtain ⟨unit, rest₁, hunit, h⟩ := h
  have hfirst := length_of_hexUnit? hunit
  split at h
  · split at h
    next rest₂ =>
      simp only [Option.bind_eq_some_iff, Prod.exists] at h
      obtain ⟨low, rest₃, hlow, h⟩ := h
      have hsecond := length_of_hexUnit? hlow
      split at h
      · obtain ⟨-, rfl⟩ := Prod.mk.inj (Option.some.inj h)
        simp only [List.length_cons] at hfirst
        omega
      · cases h
    next => cases h
  · split at h
    · cases h
    · obtain ⟨-, rfl⟩ := Prod.mk.inj (Option.some.inj h)
      exact hfirst

/-- Each character of a string takes up at least one of the text, and so does
the closing quote. -/
theorem length_of_stringBody {fuel : Nat} {cs s rest : List Char} (h : stringBody fuel cs = some (s, rest)) :
    s.length + rest.length < cs.length := by
  fun_induction stringBody fuel cs generalizing s rest with
  | case1 | case2 => cases h
  | case3 => cases h; simp
  | case4 fuel cs ih =>
    simp only [Option.bind_eq_bind, Option.bind_eq_some_iff, Prod.exists, Option.some.injEq, Prod.mk.injEq] at h
    obtain ⟨c, cs₁, hescape, s₁, rest₁, hbody, rfl, rfl⟩ := h
    have hlength := length_of_unicodeEscape? hescape
    have := ih cs₁ hbody
    simp only [List.length_cons]
    omega
  | case5 fuel e cs _ ih =>
    simp only [Option.bind_eq_bind, Option.bind_eq_some_iff, Prod.exists, Option.some.injEq, Prod.mk.injEq] at h
    obtain ⟨c, -, s₁, rest₁, hbody, rfl, rfl⟩ := h
    have := ih hbody
    simp only [List.length_cons]
    omega
  | case6 => cases h
  | case7 fuel c cs _ _ _ _ ih =>
    simp only [Option.bind_eq_bind, Option.bind_eq_some_iff, Prod.exists, Option.some.injEq, Prod.mk.injEq] at h
    obtain ⟨s₁, rest₁, hbody, rfl, rfl⟩ := h
    have := ih hbody
    simp only [List.length_cons]
    omega

theorem length_of_string? {cs rest : List Char} {s : String} (h : string? cs = some (s, rest)) :
    s.length + rest.length < cs.length := by
  obtain ⟨⟨s', rest'⟩, hbody, heq⟩ := Option.map_eq_some_iff.1 h
  cases heq
  simpa using length_of_stringBody hbody

theorem value?_ne_str (l : Literal) (s : String) : l.value? ≠ some (.str s) := by
  unfold Literal.value?
  intro h
  split at h
  · simp only at h
    split at h
    · cases h
    · split at h
      · cases h
      · obtain ⟨d, -, hd⟩ := Option.map_eq_some_iff.1 h
        cases hd
  · obtain ⟨d, -, hd⟩ := Option.map_eq_some_iff.1 h
    cases hd

/-- What is read as a string begins with a quote, so that it is longer than the
string. -/
theorem length_of_value_str {fuel depth : Nat} {cs rest : List Char} {s : String}
    (h : value fuel depth cs = some (.str s, rest)) : s.length + rest.length < cs.length := by
  have hskip := length_skipSpace_le cs
  cases fuel with
  | zero => cases h
  | succ fuel =>
    rw [value] at h
    split at h
    · cases h
    next cs' hquote =>
      obtain ⟨⟨s', rest'⟩, hstring, heq⟩ := Option.map_eq_some_iff.1 h
      cases heq
      have := length_of_string? hstring
      rw [hquote, List.length_cons] at hskip
      omega
    · split at h
      · cases h
      · split at h
        · cases h
        · obtain ⟨⟨_, _⟩, -, heq⟩ := Option.map_eq_some_iff.1 h
          cases heq
    · split at h
      · cases h
      · split at h
        · cases h
        · obtain ⟨⟨_, _⟩, -, heq⟩ := Option.map_eq_some_iff.1 h
          cases heq
    · obtain ⟨_, -, heq⟩ := Option.map_eq_some_iff.1 h
      cases heq
    · obtain ⟨_, -, heq⟩ := Option.map_eq_some_iff.1 h
      cases heq
    · obtain ⟨_, -, heq⟩ := Option.map_eq_some_iff.1 h
      cases heq
    · obtain ⟨⟨l, _⟩, -, hvalue⟩ := Option.bind_eq_some_iff.1 h
      obtain ⟨v, hv, heq⟩ := Option.map_eq_some_iff.1 hvalue
      cases heq
      exact absurd hv (value?_ne_str l s)

end Reader

theorem length_lt_of_parse? {text inner : String} (h : parse? text = some (.str inner)) :
    inner.length < text.length := by
  unfold parse? Reader.document? at h
  split at h
  next v rest hvalue =>
    split at h
    · cases h
      have := Reader.length_of_value_str hvalue
      rw [String.length_toList] at this
      omega
    · cases h
  next => cases h

theorem length_pos_of_parse? {text : String} {v : Json} (h : parse? text = some v) : 0 < text.length := by
  rw [Nat.pos_iff_ne_zero]
  intro hempty
  rw [String.length_eq_zero_iff.1 hempty] at h
  cases h

end Json

/-! ## Calls -/

namespace Content

/-- Decodes the data in place, unless it is a string that is not JSON. -/
def decodeInPlace : ExceptT Unit (StateM Content) Unit := do
  match (← get).data with
  | some (.str encoded) =>
    match Json.parse? encoded with
    | some v => modify ({ · with data := some v })
    | none => throw ()
  | _ => pure ()

/-- What comes of a call, and the content it leaves behind. -/
def decodeCall (c : Content) : Except Unit Unit × Content := decodeInPlace.run.run c

/-- How many characters of data there are to decode. -/
def encodedLength (c : Content) : Nat :=
  match c.data with
  | some (.str text) => text.length
  | _ => 0

/-- The content behind a number of calls. -/
def afterCalls : Nat → Content → Content
  | 0, c => c
  | n + 1, c => afterCalls n c.decodeCall.2

/-- A call does what decoding the content does, and leaves it alone when that
fails. -/
theorem decodeCall_eq (c : Content) :
    c.decodeCall = c.decodeData?.elim (.error (), c) fun c' => (.ok (), c') := by
  have hget : c.decodeCall = (match c.data with
      | some (.str encoded) =>
        match Json.parse? encoded with
        | some v => modify ({ · with data := some v })
        | none => throw ()
      | _ => pure () : ExceptT Unit (StateM Content) Unit).run.run c := rfl
  rw [hget, decodeData?]
  cases c.data with
  | none => rfl
  | some v =>
    cases v with
    | str text =>
      dsimp only
      cases Json.parse? text <;> rfl
    | null | bool | int | double | arr | obj => rfl

/-- What a call does: a string that is not JSON fails it, any other gives way to
the value it stands for, and what is no string stays. -/
theorem decodeCall_cases (c : Content) :
    (∃ text, c.data = some (.str text) ∧ Json.parse? text = none ∧ c.decodeCall = (.error (), c)) ∨
    (∃ text v, c.data = some (.str text) ∧ Json.parse? text = some v ∧
      c.decodeCall = (.ok (), { c with data := some v })) ∨
    ((∀ text, c.data ≠ some (.str text)) ∧ c.decodeCall = (.ok (), c)) := by
  rw [decodeCall_eq]
  unfold decodeData?
  split
  next text hdata =>
    cases hparse : Json.parse? text with
    | none => exact .inl ⟨text, hdata, hparse, rfl⟩
    | some v => exact .inr (.inl ⟨text, v, hdata, hparse, rfl⟩)
  next hdata => exact .inr (.inr ⟨hdata, rfl⟩)

/-- A call succeeds and changes nothing just when the data is no string: what a
string stands for is another one, if it is one at all. -/
theorem decodeCall_unchanged_iff {c : Content} :
    c.decodeCall = (.ok (), c) ↔ ∀ text, c.data ≠ some (.str text) := by
  constructor
  · intro hcall text hdata
    rcases c.decodeCall_cases with ⟨_, -, -, hfail⟩ | ⟨text', v, hdata', hparse, hdecode⟩ | ⟨hplain, -⟩
    · rw [hcall] at hfail
      cases hfail
    · rw [hcall] at hdecode
      have hsame : c.data = some v := congrArg (·.2.data) hdecode
      rw [hdata'] at hsame
      cases hsame
      exact absurd (Json.length_lt_of_parse? hparse) (Nat.lt_irrefl _)
    · exact hplain text hdata
  · intro hplain
    rcases c.decodeCall_cases with ⟨text, hdata, -⟩ | ⟨text, _, hdata, -⟩ | ⟨-, hcall⟩
    · exact absurd hdata (hplain text)
    · exact absurd hdata (hplain text)
    · exact hcall

theorem afterCalls_of_unchanged {c : Content} (h : c.decodeCall.2 = c) (n : Nat) : c.afterCalls n = c := by
  induction n with
  | zero => rfl
  | succ n ih => rw [afterCalls, h, ih]

/-- A call that succeeds decodes a text that has characters, and leaves fewer. -/
theorem encodedLength_lt {c : Content} {text : String} {v : Json} (hdata : c.data = some (.str text))
    (hparse : Json.parse? text = some v) : ({ c with data := some v } : Content).encodedLength < c.encodedLength := by
  have hlength : c.encodedLength = text.length := by simp only [encodedLength, hdata]
  rw [hlength]
  unfold encodedLength
  split
  next inner hinner =>
    cases hinner
    exact Json.length_lt_of_parse? hparse
  next => exact Json.length_pos_of_parse? hparse

/-- Calls come to an end: behind some of them, no more than there are characters
to decode, nothing changes. -/
theorem exists_settled (c : Content) :
    ∃ calls ≤ c.encodedLength, ∀ more, c.afterCalls (calls + more) = c.afterCalls calls := by
  rcases c.decodeCall_cases with ⟨text, -, -, hcall⟩ | ⟨text, v, hdata, hparse, hcall⟩ | ⟨-, hcall⟩
  · exact ⟨0, Nat.zero_le _, fun more => afterCalls_of_unchanged (by rw [hcall]) _⟩
  · have hless := encodedLength_lt hdata hparse
    obtain ⟨calls, hle, hsettled⟩ := exists_settled { c with data := some v }
    refine ⟨calls + 1, by omega, fun more => ?_⟩
    rw [Nat.add_right_comm, afterCalls, hcall, afterCalls, hcall]
    exact hsettled more
  · exact ⟨0, Nat.zero_le _, fun more => afterCalls_of_unchanged (by rw [hcall]) _⟩
termination_by c.encodedLength

/-- **When decoding again changes nothing.** A call that fails leaves the
content as it was, and one that succeeds changes at most the data. A second
call succeeds and changes nothing just when the first one has not decoded a
text that stands for a string; else it fails, or decodes that string in its
turn. Calls that follow one another come to an end, whatever the text. -/
theorem decode_again_iff (c : Content) :
    (∀ c', c.decodeCall = (.error (), c') → c' = c) ∧
    (∀ c', c.decodeCall = (.ok (), c') → c' = { c with data := c'.data } ∧
      (c'.decodeCall = (.ok (), c') ↔
        ∀ text inner, c.data = some (.str text) → Json.parse? text ≠ some (.str inner))) ∧
    ∃ calls ≤ c.encodedLength, ∀ more, c.afterCalls (calls + more) = c.afterCalls calls := by
  refine ⟨fun c' hfail => ?_, fun c' hok => ?_, c.exists_settled⟩
  · rcases c.decodeCall_cases with ⟨_, -, -, hcall⟩ | ⟨_, _, -, -, hcall⟩ | ⟨-, hcall⟩
    · rw [hcall] at hfail
      exact (Prod.mk.inj hfail).2.symm
    · rw [hcall] at hfail
      cases hfail
    · rw [hcall] at hfail
      cases hfail
  · rw [decodeCall_unchanged_iff]
    rcases c.decodeCall_cases with ⟨_, -, -, hcall⟩ | ⟨text, v, hdata, hparse, hcall⟩ | ⟨hplain, hcall⟩
    · rw [hcall] at hok
      cases hok
    · rw [hcall] at hok
      obtain rfl := (Prod.mk.inj hok).2
      refine ⟨rfl, fun hagain text' inner hdata' hparse' => ?_, fun hlast inner hinner => ?_⟩
      · rw [hdata] at hdata'
        cases hdata'
        exact hagain inner (hparse.symm.trans hparse')
      · exact hlast text inner hdata (hparse.trans hinner)
    · rw [hcall] at hok
      obtain rfl := (Prod.mk.inj hok).2
      exact ⟨rfl, fun _ text inner hdata => absurd hdata (hplain text), fun _ => hplain⟩

/-! A list in a string in a string: the second call decodes the string that the
first one has decoded. -/

def wrappedList : Content := { empty with data := some (.str "\"[]\"") }

def encodedList : Content := { empty with data := some (.str "[]") }

theorem wrappedList_unwraps :
    wrappedList.decodeCall = (.ok (), encodedList) ∧
    encodedList.decodeCall = (.ok (), { empty with data := some (.arr []) }) ∧
    ¬∀ c c' : Content, c.decodeCall = (.ok (), c') → c'.decodeCall = (.ok (), c') := by
  have hfirst : wrappedList.decodeCall = (.ok (), encodedList) := rfl
  refine ⟨hfirst, rfl, fun hagain => ?_⟩
  exact decodeCall_unchanged_iff.1 (hagain _ _ hfirst) "[]" rfl

end Content

end ReplyStream
