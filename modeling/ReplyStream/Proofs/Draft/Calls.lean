/-
Which tool calls are kept of a snapshot: those worth publishing
(`Publishable`), each where it first stands (`filterCalls_keeps_first`).

The snapshot is read from the front. A call at its end is kept just when it is
worth publishing and has not come before (`filterCalls_concat`), and all else
follows from that.
-/
import Mathlib.Data.List.Induction
import ReplyStream.Draft.Basic

namespace ReplyStream.Draft

variable {allowed : Option (List String)} {calls before : List ToolCall} {c : ToolCall}

/-- A call that has an id or a name, of a tool that is not reserved, and that
is allowed if only some are. -/
structure Publishable (allowed : Option (List String)) (c : ToolCall) : Prop where
  identified : c.id ≠ "" ∨ c.name ≠ ""
  unreserved : c.name ≠ reservedTool
  allowed : ∀ names, allowed = some names → c.name ∈ names

/-- The `i`-th call is worth publishing, and none before it is the same. -/
def KeptAt (allowed : Option (List String)) (calls : List ToolCall) (i : Nat) : Prop :=
  ∃ c, calls[i]? = some c ∧ Publishable allowed c ∧ ∀ j < i, calls[j]? ≠ some c

theorem keeps_iff : keeps allowed c = true ↔ Publishable allowed c := by
  have hempty : c.isEmpty = false ↔ c.id ≠ "" ∨ c.name ≠ "" := by
    rw [ToolCall.isEmpty, Bool.and_eq_false_iff]
    simp
  have hallowed : (allowed.all fun names => names.contains c.name) = true ↔
      ∀ names, allowed = some names → c.name ∈ names := by
    cases allowed <;> simp
  simp only [keeps, Bool.and_eq_true, Bool.not_eq_true', hempty, hallowed, decide_eq_true_eq]
  exact ⟨fun ⟨⟨hid, hname⟩, hnames⟩ => ⟨hid, hname, hnames⟩, fun ⟨hid, hname, hnames⟩ => ⟨⟨hid, hname⟩, hnames⟩⟩

/-! ## Reading on -/

theorem mem_distinct {α : Type} [DecidableEq α] {a : α} {l : List α} : a ∈ distinct l ↔ a ∈ l := by
  induction l with
  | nil => rfl
  | cons b l ih =>
    rw [distinct, List.mem_cons, List.mem_cons, List.mem_filter, ih]
    by_cases hab : a = b <;> simp [hab]

theorem distinct_concat {α : Type} [DecidableEq α] (l : List α) (a : α) :
    distinct (l ++ [a]) = if a ∈ l then distinct l else distinct l ++ [a] := by
  induction l with
  | nil => rfl
  | cons b l ih =>
    rw [List.cons_append, distinct, ih, distinct]
    by_cases hal : a ∈ l
    · rw [if_pos hal, if_pos (List.mem_cons_of_mem b hal)]
    · rw [if_neg hal, List.filter_append]
      by_cases hab : a = b
      · simp [hab]
      · simp [hab, hal]

theorem distinct_sublist {α : Type} [DecidableEq α] (l : List α) : (distinct l).Sublist l := by
  induction l with
  | nil => exact .slnil
  | cons b l ih => exact (List.filter_sublist.trans ih).cons_cons b

theorem filterCalls_concat (allowed : Option (List String)) (calls : List ToolCall) (c : ToolCall) :
    filterCalls allowed (calls ++ [c]) =
      if keeps allowed c = true ∧ c ∉ calls then filterCalls allowed calls ++ [c] else filterCalls allowed calls := by
  rw [filterCalls, List.filter_append, filterCalls]
  by_cases hkept : keeps allowed c = true
  · rw [List.filter_cons_of_pos hkept, List.filter_nil, distinct_concat]
    by_cases hmem : c ∈ calls <;> simp [hkept, hmem]
  · rw [List.filter_cons_of_neg hkept, List.filter_nil, List.append_nil, if_neg (fun h => hkept h.1)]

theorem mem_filterCalls : c ∈ filterCalls allowed calls ↔ c ∈ calls ∧ keeps allowed c = true := by
  rw [filterCalls, mem_distinct, List.mem_filter]

theorem nodup_filterCalls (allowed : Option (List String)) (calls : List ToolCall) :
    (filterCalls allowed calls).Nodup := by
  induction calls using List.reverseRecOn with
  | nil => exact List.nodup_nil
  | append_singleton calls c ih =>
    rw [filterCalls_concat]
    split
    next hnew =>
      refine List.nodup_append.2 ⟨ih, List.pairwise_singleton _ c, ?_⟩
      rintro d hd e he rfl
      rw [List.mem_singleton] at he
      exact hnew.2 (he ▸ (mem_filterCalls.1 hd).1)
    next => exact ih

theorem filterCalls_eq_self (hkept : ∀ c ∈ calls, keeps allowed c = true) (hnodup : calls.Nodup) :
    filterCalls allowed calls = calls := by
  induction calls using List.reverseRecOn with
  | nil => rfl
  | append_singleton calls c ih =>
    obtain ⟨hcalls, -, hnew⟩ := List.nodup_append.1 hnodup
    have hc : c ∉ calls := fun hmem => hnew c hmem c (List.mem_singleton_self c) rfl
    rw [filterCalls_concat, if_pos ⟨hkept c List.mem_concat_self, hc⟩,
      ih (fun d hd => hkept d (List.mem_append_left _ hd)) hcalls]

theorem filterCalls_repeated (h : c ∈ before) (behind : List ToolCall) :
    filterCalls allowed (before ++ c :: behind) = filterCalls allowed (before ++ behind) := by
  induction behind using List.reverseRecOn with
  | nil => rw [filterCalls_concat, if_neg (fun hnew => hnew.2 h), List.append_nil]
  | append_singleton behind d ih =>
    have hmem : d ∈ before ++ c :: behind ↔ d ∈ before ++ behind := by
      simp only [List.mem_append, List.mem_cons]
      constructor
      · rintro (hd | rfl | hd)
        · exact .inl hd
        · exact .inl h
        · exact .inr hd
      · exact Or.imp_right .inr
    rw [← List.cons_append, ← List.append_assoc, ← List.append_assoc, filterCalls_concat, filterCalls_concat, ih]
    simp only [hmem]

/-! ## Where the calls stand -/

theorem keptAt_lt {i : Nat} (h : KeptAt allowed calls i) : i < calls.length := by
  obtain ⟨c, hc, -, -⟩ := h
  exact (List.getElem?_eq_some_iff.1 hc).1

/-- Calls that come behind make no difference to where those before are kept. -/
theorem keptAt_concat {i : Nat} : KeptAt allowed (calls ++ [c]) i ↔
    KeptAt allowed calls i ∨ i = calls.length ∧ keeps allowed c = true ∧ c ∉ calls := by
  have hfront : ∀ {j}, j < calls.length → (calls ++ [c])[j]? = calls[j]? := List.getElem?_append_left
  have hnew : c ∉ calls ↔ ∀ j < calls.length, (calls ++ [c])[j]? ≠ some c := by
    rw [List.mem_iff_getElem?]
    constructor
    · intro hnew j hj hc
      exact hnew ⟨j, by rw [← hfront hj, hc]⟩
    · rintro hnew ⟨j, hc⟩
      have hj := (List.getElem?_eq_some_iff.1 hc).1
      exact hnew j hj (by rw [hfront hj, hc])
  have hlast : (calls ++ [c])[calls.length]? = some c := List.getElem?_concat_length
  constructor
  · intro h
    have hlt := keptAt_lt h
    rw [List.length_append, List.length_singleton] at hlt
    obtain ⟨d, hd, hkept, hfirst⟩ := h
    by_cases hi : i < calls.length
    · refine .inl ⟨d, by rw [← hfront hi, hd], hkept, fun j hj => ?_⟩
      rw [← hfront (by omega)]
      exact hfirst j hj
    · obtain rfl : i = calls.length := by omega
      rw [hlast] at hd
      cases hd
      exact .inr ⟨rfl, keeps_iff.2 hkept, hnew.2 hfirst⟩
  · rintro (h | ⟨rfl, hkept, hc⟩)
    · have hi := keptAt_lt h
      obtain ⟨d, hd, hkept, hfirst⟩ := h
      refine ⟨d, by rw [hfront hi, hd], hkept, fun j hj => ?_⟩
      rw [hfront (by omega)]
      exact hfirst j hj
    · exact ⟨c, hlast, keeps_iff.1 hkept, hnew.1 hc⟩

/-- The calls that are kept, by their positions. -/
theorem exists_positions (allowed : Option (List String)) (calls : List ToolCall) :
    ∃ positions : List Nat, positions.Pairwise (· < ·) ∧ (∀ i, i ∈ positions ↔ KeptAt allowed calls i) ∧
      positions.map (calls[·]?) = (filterCalls allowed calls).map some := by
  induction calls using List.reverseRecOn with
  | nil => exact ⟨[], .nil, by simp [KeptAt], rfl⟩
  | append_singleton calls c ih =>
    obtain ⟨positions, hascending, hkept, hcalls⟩ := ih
    have hlt : ∀ i ∈ positions, i < calls.length := fun i hi => keptAt_lt ((hkept i).1 hi)
    have hfront : positions.map ((calls ++ [c])[·]?) = positions.map (calls[·]?) :=
      List.map_congr_left fun i hi => List.getElem?_append_left (hlt i hi)
    rw [filterCalls_concat]
    split
    next hc =>
      refine ⟨positions ++ [calls.length], ?_, fun i => ?_, ?_⟩
      · rw [List.pairwise_append]
        refine ⟨hascending, List.pairwise_singleton .., fun i hi j hj => ?_⟩
        rw [List.mem_singleton] at hj
        exact hj ▸ hlt i hi
      · rw [keptAt_concat, List.mem_append, hkept, List.mem_singleton]
        simp only [hc.1, hc.2, not_false_eq_true, and_true]
      · rw [List.map_append, hfront, hcalls, List.map_append]
        simp
    next hc =>
      refine ⟨positions, hascending, fun i => ?_, hfront.trans hcalls⟩
      rw [keptAt_concat, hkept]
      exact (or_iff_left fun h => hc h.2).symm

/-- **Each call worth publishing is kept where it first stands.** The calls
that are kept are those at ascending positions, just those whose call is worth
publishing and has not stood before. So they are all different, filtering them
again changes nothing, and a repetition might as well not be there. -/
theorem filterCalls_keeps_first (allowed : Option (List String)) (calls : List ToolCall) :
    (∃ positions : List Nat, positions.Pairwise (· < ·) ∧ (∀ i, i ∈ positions ↔ KeptAt allowed calls i) ∧
      positions.map (calls[·]?) = (filterCalls allowed calls).map some) ∧
    (filterCalls allowed calls).Nodup ∧ (filterCalls allowed calls).Sublist calls ∧
    filterCalls allowed (filterCalls allowed calls) = filterCalls allowed calls ∧
    ∀ before c behind, calls = before ++ c :: behind → c ∈ before →
      filterCalls allowed calls = filterCalls allowed (before ++ behind) := by
  refine ⟨exists_positions allowed calls, nodup_filterCalls allowed calls, ?_, ?_, ?_⟩
  · exact (distinct_sublist _).trans List.filter_sublist
  · exact filterCalls_eq_self (fun c hc => (mem_filterCalls.1 hc).2) (nodup_filterCalls allowed calls)
  · rintro before c behind rfl hrepeated
    exact filterCalls_repeated hrepeated behind

end ReplyStream.Draft
