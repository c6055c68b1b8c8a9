/-
A stream that can be rewound is a cursor over what its source gives
(`run_is_cursor`). The ideal keeps all items the source has ever given and
moves a read position and a mark among them (`Cursor`); the stream keeps only
those behind the mark, and a flag. One move keeps the two in line (`Follows`),
and so does a run.
-/
import ReplyStream.Replay

namespace ReplyStream

variable {α : Type}

/-- The item of an answer. -/
def Poll.item? : Poll α → Option α
  | .item a => some a
  | .pending | .done => none

namespace Replay

/-- What a source gives in its first `count` polls. -/
def given (source : Nat → Poll α) (count : Nat) : List α := (List.range count).filterMap fun n => (source n).item?

theorem given_succ (source : Nat → Poll α) (count : Nat) :
    given source (count + 1) = given source count ++ (source count).item?.toList := by
  unfold given
  rw [List.range_succ, List.filterMap_append]
  cases h : (source count).item? <;> simp [h]

/-- What is done with a stream while it is open. -/
inductive Move where
  | poll
  | checkpoint
  | restore
deriving DecidableEq

/-- The ideal stream: two positions among all that the source has given. The
furthest position is the one behind the last item. -/
structure Cursor (α : Type) where
  source : Nat → Poll α
  /-- How often the source has been polled. -/
  polls : Nat
  /-- Whether the source has ended. -/
  hasEnded : Bool
  /-- All items so far. -/
  items : List α
  /-- The item to be read next. -/
  position : Nat
  /-- Where a restore goes back to. -/
  mark : Nat

namespace Cursor

def new (source : Nat → Poll α) : Cursor α := ⟨source, 0, false, [], 0, 0⟩

/-- Asks the source for one more item, unless it has ended. -/
def ask (c : Cursor α) : Cursor α × Poll α :=
  if c.hasEnded then (c, .done)
  else
    match c.source c.polls with
    | .item a => ({ c with polls := c.polls + 1, items := c.items ++ [a], position := c.position + 1 }, .item a)
    | .pending => ({ c with polls := c.polls + 1 }, .pending)
    | .done => ({ c with polls := c.polls + 1, hasEnded := true }, .done)

/-- Reads the item at the position; behind all items the source is asked. -/
def poll (c : Cursor α) : Cursor α × Poll α :=
  match c.items[c.position]? with
  | some a => ({ c with position := c.position + 1 }, .item a)
  | none => c.ask

def checkpoint (c : Cursor α) : Cursor α := { c with mark := c.position }

def restore (c : Cursor α) : Cursor α := { c with position := c.mark }

/-- One move and what a poll answers. -/
def move (c : Cursor α) : Move → Cursor α × List (Poll α)
  | .poll => (c.poll.1, [c.poll.2])
  | .checkpoint => (c.checkpoint, [])
  | .restore => (c.restore, [])

/-- Moves one after the other, and the answers of the polls. -/
def run (c : Cursor α) : List Move → Cursor α × List (Poll α)
  | [] => (c, [])
  | m :: moves =>
    let (c, first) := c.move m
    let (c, rest) := c.run moves
    (c, first ++ rest)

theorem run_cons (c : Cursor α) (m : Move) (moves : List Move) :
    c.run (m :: moves) = (((c.move m).1.run moves).1, (c.move m).2 ++ ((c.move m).1.run moves).2) := rfl

end Cursor

/-- One move and what a poll answers. -/
def move (r : Replay α) : Move → Replay α × List (Poll α)
  | .poll => (r.poll.1, [r.poll.2])
  | .checkpoint => (r.checkpoint, [])
  | .restore => (r.restore, [])

/-- One move, or the end of the stream. -/
def act (r : Replay α) : Option Move → Replay α × List (Poll α)
  | some m => r.move m
  | none => (r.close, [])

/-- Acts one after the other, and the answers of the polls. -/
def run (r : Replay α) : List (Option Move) → Replay α × List (Poll α)
  | [] => (r, [])
  | a :: acts =>
    let (r, first) := r.act a
    let (r, rest) := r.run acts
    (r, first ++ rest)

theorem run_cons (r : Replay α) (a : Option Move) (acts : List (Option Move)) :
    r.run (a :: acts) = (((r.act a).1.run acts).1, (r.act a).2 ++ ((r.act a).1.run acts).2) := rfl

/-- The stream stands where the cursor does: it has kept the items behind the
mark, and replays unless all of them have been given out. -/
structure Follows (source : Nat → Poll α) (r : Replay α) (c : Cursor α) : Prop where
  stream : r.source = source
  cursor : c.source = source
  polls : r.polls = c.polls
  exhausted : r.exhausted = c.hasEnded
  isOpen : r.isClosed = false
  releases : r.releases = 0
  buffer : r.buffer = c.items.drop c.mark
  position : c.position = c.mark + r.position
  position_le : c.position ≤ c.items.length
  caughtUp : r.replaying = false → c.position = c.items.length
  items : c.items = given source c.polls
  going : c.hasEnded = false → ∀ n < c.polls, source n ≠ .done

variable {source : Nat → Poll α} {r : Replay α} {c : Cursor α}

namespace Follows

theorem new (source : Nat → Poll α) : Follows source (.new source) (.new source) where
  stream := rfl
  cursor := rfl
  polls := rfl
  exhausted := rfl
  isOpen := rfl
  releases := rfl
  buffer := rfl
  position := rfl
  position_le := Nat.le_refl 0
  caughtUp _ := rfl
  items := rfl
  going _ n hn := absurd hn (Nat.not_lt_zero n)

theorem getElem?_buffer (h : Follows source r c) : r.buffer[r.position]? = c.items[c.position]? := by
  rw [h.buffer, List.getElem?_drop, h.position]

theorem going_succ (h : Follows source r c) (hended : c.hasEnded = false) (hanswer : source c.polls ≠ .done) :
    ∀ n < c.polls + 1, source n ≠ .done := by
  intro n hn
  rcases Nat.lt_succ_iff_lt_or_eq.1 hn with hn | rfl
  · exact h.going hended n hn
  · exact hanswer

/-- At the end of what is known both ask the source. -/
theorem pull (h : Follows source r c) (hend : c.position = c.items.length) :
    Follows source r.pull.1 c.ask.1 ∧ r.pull.2 = c.ask.2 := by
  have hposition := h.position
  have hlength : r.buffer.length = r.position := by
    rw [h.buffer, List.length_drop, ← hend]
    omega
  have hmark : c.mark ≤ c.items.length := by omega
  unfold Replay.pull Cursor.ask
  rw [h.isOpen, Bool.false_or, h.exhausted]
  cases hended : c.hasEnded with
  | true => exact ⟨h, rfl⟩
  | false =>
    have hpolls : r.polls + 1 = c.polls + 1 := congrArg (· + 1) h.polls
    have hreplay : r.source r.polls = source c.polls := by rw [h.stream, h.polls]
    have hcursor : c.source c.polls = source c.polls := by rw [h.cursor]
    rw [if_neg Bool.false_ne_true, if_neg Bool.false_ne_true, hreplay, hcursor]
    cases hanswer : source c.polls with
    | item a =>
      refine ⟨{ h with
        polls := hpolls
        exhausted := rfl
        isOpen := rfl
        buffer := ?_
        position := ?_
        position_le := ?_
        caughtUp := fun _ => ?_
        items := ?_
        going := fun _ => h.going_succ hended (by simp [hanswer]) }, rfl⟩
      · dsimp only
        rw [List.drop_append_of_le_length hmark, h.buffer]
      · dsimp only
        omega
      · dsimp only
        rw [List.length_append, List.length_singleton]
        omega
      · dsimp only
        rw [List.length_append, List.length_singleton, hend]
      · dsimp only
        rw [given_succ, hanswer, ← h.items]
        rfl
    | pending =>
      refine ⟨{ h with
        polls := hpolls
        exhausted := rfl
        isOpen := rfl
        items := ?_
        going := fun _ => h.going_succ hended (by simp [hanswer]) }, rfl⟩
      dsimp only
      rw [given_succ, hanswer, ← h.items]
      exact (List.append_nil _).symm
    | done =>
      refine ⟨{ h with
        polls := hpolls
        exhausted := rfl
        isOpen := rfl
        items := ?_
        going := nofun }, rfl⟩
      dsimp only
      rw [given_succ, hanswer, ← h.items]
      exact (List.append_nil _).symm

theorem poll (h : Follows source r c) : Follows source r.poll.1 c.poll.1 ∧ r.poll.2 = c.poll.2 := by
  have hposition := h.position
  unfold Replay.poll Cursor.poll
  cases hknown : c.items[c.position]? with
  | some a =>
    have hlt : c.position < c.items.length := (List.getElem?_eq_some_iff.1 hknown).1
    have hreplaying : r.replaying = true := by
      cases hreplaying : r.replaying with
      | true => rfl
      | false => exact absurd (h.caughtUp hreplaying) (Nat.ne_of_lt hlt)
    rw [if_pos hreplaying, h.getElem?_buffer, hknown]
    refine ⟨{ h with position := ?_, position_le := hlt, caughtUp := ?_ }, rfl⟩
    · dsimp only
      omega
    · intro hfalse
      rw [hreplaying] at hfalse
      cases hfalse
  | none =>
    have hend : c.position = c.items.length :=
      Nat.le_antisymm h.position_le (List.getElem?_eq_none_iff.1 hknown)
    split
    · rw [h.getElem?_buffer, hknown]
      have hstopped : Follows source { r with replaying := false } c := { h with caughtUp := fun _ => hend }
      exact hstopped.pull hend
    · exact h.pull hend

theorem end_of_isEmpty {items : List α} {position : Nat} (hle : position ≤ items.length)
    (hempty : (!(items.drop position).isEmpty) = false) : position = items.length := by
  rw [Bool.not_eq_false', List.isEmpty_iff, List.drop_eq_nil_iff] at hempty
  exact Nat.le_antisymm hle hempty

theorem checkpoint (h : Follows source r c) : Follows source r.checkpoint c.checkpoint := by
  unfold Replay.checkpoint Cursor.checkpoint
  cases hreplaying : r.replaying with
  | true =>
    have hkept : r.buffer.drop r.position = c.items.drop c.position := by
      rw [h.buffer, List.drop_drop, ← h.position]
    rw [if_pos rfl]
    dsimp only
    rw [hkept]
    exact { h with
      buffer := rfl
      position := rfl
      caughtUp := end_of_isEmpty h.position_le }
  | false =>
    have hend := h.caughtUp hreplaying
    rw [if_neg Bool.false_ne_true]
    refine { h with buffer := ?_, position := rfl, caughtUp := fun _ => hend }
    dsimp only
    rw [hend, List.drop_length]

theorem restore (h : Follows source r c) : Follows source r.restore c.restore := by
  have hposition := h.position
  have hle : c.mark ≤ c.items.length := Nat.le_trans (by omega) h.position_le
  unfold Replay.restore Cursor.restore
  refine { h with position := rfl, position_le := hle, caughtUp := fun hempty => ?_ }
  dsimp only at hempty
  rw [h.buffer] at hempty
  exact end_of_isEmpty hle hempty

/-- **One move.** -/
theorem move (h : Follows source r c) (m : Move) :
    Follows source (r.move m).1 (c.move m).1 ∧ (r.move m).2 = (c.move m).2 := by
  cases m with
  | poll => exact ⟨h.poll.1, congrArg (fun answer => [answer]) h.poll.2⟩
  | checkpoint => exact ⟨h.checkpoint, rfl⟩
  | restore => exact ⟨h.restore, rfl⟩

/-- **A run of moves.** -/
theorem run (h : Follows source r c) (moves : List Move) :
    Follows source (r.run (moves.map some)).1 (c.run moves).1 ∧ (r.run (moves.map some)).2 = (c.run moves).2 := by
  induction moves generalizing r c with
  | nil => exact ⟨h, rfl⟩
  | cons m moves ih =>
    obtain ⟨hfollows, hanswers⟩ := h.move m
    obtain ⟨hrest, hanswers'⟩ := ih hfollows
    rw [List.map_cons, run_cons, Cursor.run_cons]
    exact ⟨hrest, congr (congrArg (· ++ ·) hanswers) hanswers'⟩

/-- The source is asked once, for what is not known, and not behind its end;
or it is not asked. -/
theorem polls_move (h : Follows source r c) (m : Move) :
    (r.move m).1.polls = r.polls ∨
      ((r.move m).1.polls = r.polls + 1 ∧ m = .poll ∧ c.position = c.items.length ∧
        ∀ n < r.polls, source n ≠ .done) := by
  rw [(h.move m).1.polls, h.polls]
  cases m with
  | checkpoint => exact .inl rfl
  | restore => exact .inl rfl
  | poll =>
    simp only [Cursor.move, Cursor.poll]
    cases hknown : c.items[c.position]? with
    | some a => exact .inl rfl
    | none =>
      have hend : c.position = c.items.length :=
        Nat.le_antisymm h.position_le (List.getElem?_eq_none_iff.1 hknown)
      unfold Cursor.ask
      cases hended : c.hasEnded with
      | true => exact .inl rfl
      | false =>
        rw [if_neg Bool.false_ne_true]
        refine .inr ⟨?_, trivial, hend, h.going hended⟩
        cases c.source c.polls <;> rfl

end Follows

/-! ## Behind the end -/

/-- The source is let go of when the stream is closed, and not before. -/
def Released (r : Replay α) : Prop := r.releases = if r.isClosed then 1 else 0

theorem pull_kept (r : Replay α) : r.pull.1.isClosed = r.isClosed ∧ r.pull.1.releases = r.releases := by
  unfold pull
  split
  · exact ⟨rfl, rfl⟩
  · split <;> exact ⟨rfl, rfl⟩

theorem move_kept (r : Replay α) (m : Move) :
    (r.move m).1.isClosed = r.isClosed ∧ (r.move m).1.releases = r.releases := by
  cases m with
  | poll =>
    simp only [move, poll]
    split
    · split
      · exact ⟨rfl, rfl⟩
      · exact pull_kept _
    · exact pull_kept r
  | checkpoint =>
    simp only [move, checkpoint]
    split <;> exact ⟨rfl, rfl⟩
  | restore => exact ⟨rfl, rfl⟩

theorem Released.act (h : r.Released) (a : Option Move) : (r.act a).1.Released := by
  cases a with
  | some m =>
    obtain ⟨hclosed, hreleases⟩ := r.move_kept m
    show (r.move m).1.releases = if (r.move m).1.isClosed then 1 else 0
    rw [hclosed, hreleases, h]
  | none =>
    show (if r.isClosed then r.releases else r.releases + 1) = 1
    rw [h]
    cases r.isClosed <;> rfl

theorem Released.run (h : r.Released) (acts : List (Option Move)) : (r.run acts).1.Released := by
  induction acts generalizing r with
  | nil => exact h
  | cons a acts ih => exact ih (h.act a)

/-- A closed stream, with nothing left in it. -/
structure Gone (r : Replay α) (polls : Nat) : Prop where
  isClosed : r.isClosed = true
  buffer : r.buffer = []
  replaying : r.replaying = false
  releases : r.releases = 1
  polls : r.polls = polls

theorem Released.close (h : r.Released) : r.close.Gone r.polls where
  isClosed := rfl
  buffer := rfl
  replaying := rfl
  releases := h.act none
  polls := rfl

variable {polls : Nat}

/-- A closed stream stays closed, and a poll gives the end. -/
theorem Gone.act (h : r.Gone polls) (a : Option Move) :
    (r.act a).1.Gone polls ∧ (r.act a).2 = List.replicate ([a].count (some .poll)) .done := by
  cases a with
  | none =>
    exact ⟨{ h with
      isClosed := rfl
      buffer := rfl
      replaying := rfl
      releases := (if_pos h.isClosed).trans h.releases }, rfl⟩
  | some m =>
    cases m with
    | poll =>
      have hpull : r.pull = (r, .done) := by simp only [pull, h.isClosed, Bool.true_or, if_true]
      have hpoll : r.poll = (r, .done) := by simp only [poll, h.replaying, Bool.false_eq_true, if_false, hpull]
      simp only [Replay.act, move, hpoll]
      exact ⟨h, rfl⟩
    | checkpoint =>
      have hcheckpoint : r.checkpoint = { r with buffer := [], position := 0 } := by
        simp only [checkpoint, h.replaying, Bool.false_eq_true, if_false]
      simp only [Replay.act, move, hcheckpoint]
      exact ⟨{ h with buffer := rfl }, rfl⟩
    | restore =>
      have hrestore : r.restore = { r with position := 0, replaying := false } := by
        simp only [restore, h.buffer, List.isEmpty_nil, Bool.not_true]
      simp only [Replay.act, move, hrestore]
      exact ⟨{ h with replaying := rfl }, rfl⟩

theorem Gone.run (h : r.Gone polls) (acts : List (Option Move)) :
    (r.run acts).1.Gone polls ∧ (r.run acts).2 = List.replicate (acts.count (some .poll)) .done := by
  induction acts generalizing r with
  | nil => exact ⟨h, rfl⟩
  | cons a acts ih =>
    obtain ⟨hgone, hanswers⟩ := h.act a
    obtain ⟨hrest, hanswers'⟩ := ih hgone
    rw [run_cons]
    refine ⟨hrest, ?_⟩
    dsimp only
    rw [hanswers, hanswers', List.replicate_append_replicate, ← List.count_append, List.singleton_append]

/-- **A stream that can be rewound is a cursor over its source.** While it is
open it answers as the ideal does, its buffer is what lies between the mark
and the furthest position, and each item comes from one poll of the source:
the source is asked only at the furthest position and not behind its end.
Once it is closed, whatever was done before and is done then, every poll gives
the end, the buffer is empty, and the source has been let go of once. -/
theorem run_is_cursor (source : Nat → Poll α) :
    (∀ moves : List Move,
      let (r, answers) := (Replay.new source).run (moves.map some)
      let (c, answers') := (Cursor.new source).run moves
      answers = answers' ∧ r.buffer = c.items.drop c.mark ∧ c.items = given source r.polls ∧
        ∀ m, (r.move m).1.polls = r.polls ∨
          ((r.move m).1.polls = r.polls + 1 ∧ m = .poll ∧ c.position = c.items.length ∧
            ∀ n < r.polls, source n ≠ .done)) ∧
    ∀ before after : List (Option Move),
      let (r, _) := (Replay.new source).run before
      let (r', answers) := r.close.run after
      answers = List.replicate (after.count (some .poll)) .done ∧ r'.buffer = [] ∧ r'.releases = 1 ∧
        r'.polls = r.polls := by
  constructor
  · intro moves
    obtain ⟨hfollows, hanswers⟩ := (Follows.new source).run moves
    refine ⟨hanswers, hfollows.buffer, ?_, hfollows.polls_move⟩
    rw [hfollows.polls]
    exact hfollows.items
  · intro before after
    have hnew : (Replay.new source).Released := rfl
    have hreleased := hnew.run before
    obtain ⟨hgone, hanswers⟩ := hreleased.close.run after
    exact ⟨hanswers, hgone.buffer, hgone.releases, hgone.polls⟩

end Replay

end ReplyStream
