/-
A desk where many ask for the text of files at the same time. Each call looks
into the cache, and when nothing is found there a download begins, which takes
any time and may come to anything; until its text is stored others may ask,
their downloads may end, and time may pass (`Desk.Move`).

A desk keeps a record of all that was seen. A call nobody interrupts is one
of `Depot.load` (`Desk.load_uninterrupted`), and what a call can do is said
once (`Desk.Acts`); all that is true of a desk is derived from it.
-/
import Mathlib.Logic.Function.Basic
import ReplyStream.Proofs.Cache.Entries
import ReplyStream.Room.Depot

namespace ReplyStream

namespace Desk

/-- What is seen of a call. -/
inductive Note where
  | asked (file : AttachedFile)
  /-- A download has begun. -/
  | began (url : String)
  | ended (url : String) (result : Except TransportFault String)
  | answered (time : Nat) (answer : Except Fault String)

/-- A call under way: its download runs, or has come to something. -/
inductive Call where
  | loading (file : AttachedFile)
  | landed (file : AttachedFile) (result : Except TransportFault String)

/-- What happens at a desk, where calls are numbered. -/
inductive Move where
  | wait (duration : Nat)
  | ask (file : AttachedFile)
  /-- The download of a call ends. -/
  | land (n : Nat) (result : Except TransportFault String)
  /-- A call takes what its download has come to, and is answered. -/
  | settle (n : Nat)

end Desk

structure Desk where
  cache : Cache
  now : Nat
  /-- How many calls there have been. -/
  asked : Nat
  calls : Nat → Option Desk.Call
  /-- All that was seen, and of which call. -/
  notes : List (Nat × Desk.Note)

namespace Desk

def new (ttl maxEntries : Nat) : Desk := ⟨.new ttl maxEntries, 0, 0, fun _ => none, []⟩

/-- What was seen of a call, in its order. -/
def seen (d : Desk) (n : Nat) : List Note := d.notes.filterMap fun note => if note.1 = n then some note.2 else none

/-- A call acts: it leaves a cache, it is under way or not, and something is
seen of it. -/
def act (d : Desk) (n asked : Nat) (cache : Cache) (call : Option Call) (seen : List Note) : Desk :=
  { d with cache, asked, calls := Function.update d.calls n call, notes := d.notes ++ seen.map (n, ·) }

def ask (d : Desk) (file : AttachedFile) : Desk :=
  match d.cache.ask d.now file with
  | (cache, .settled answer) => d.act d.asked (d.asked + 1) cache none [.asked file, .answered d.now answer]
  | (cache, .download) =>
    d.act d.asked (d.asked + 1) cache (some (.loading file)) [.asked file, .began file.url]

def land (d : Desk) (n : Nat) (result : Except TransportFault String) : Desk :=
  match d.calls n with
  | some (.loading file) => d.act n d.asked d.cache (some (.landed file result)) [.ended file.url result]
  | _ => d

def settle (d : Desk) (n : Nat) : Desk :=
  match d.calls n with
  | some (.landed file result) =>
    let (cache, answer) := d.cache.settle d.now file.url result
    d.act n d.asked cache none [.answered d.now answer]
  | _ => d

def move (d : Desk) : Move → Desk
  | .wait duration => { d with now := d.now + duration }
  | .ask file => d.ask file
  | .land n result => d.land n result
  | .settle n => d.settle n

/-- The desk behind some moves. -/
def after (d : Desk) (moves : List Move) : Desk := moves.foldl move d

/-- The call a move is made for. -/
def Move.caller (d : Desk) : Move → Option Nat
  | .wait _ => none
  | .ask _ => some d.asked
  | .land n _ | .settle n => some n

variable {d : Desk} {n m asked : Nat} {cache : Cache} {call : Option Call} {seen : List Note}

@[simp] theorem after_nil (d : Desk) : d.after [] = d := rfl

@[simp] theorem after_cons (d : Desk) (m : Move) (moves : List Move) :
    d.after (m :: moves) = (d.move m).after moves := rfl

theorem mem_seen {x : Note} : x ∈ d.seen n ↔ (n, x) ∈ d.notes := by
  unfold Desk.seen
  rw [List.mem_filterMap]
  constructor
  · rintro ⟨⟨m, y⟩, hmem, hsome⟩
    split at hsome
    next heq =>
      cases hsome
      exact heq ▸ hmem
    next => cases hsome
  · exact fun hmem => ⟨(n, x), hmem, if_pos rfl⟩

theorem act_seen_self : (d.act n asked cache call seen).seen n = d.seen n ++ seen := by
  simp [Desk.seen, act, List.filterMap_append, List.filterMap_map]

theorem act_seen_other (hne : m ≠ n) : (d.act n asked cache call seen).seen m = d.seen m := by
  simp [Desk.seen, act, List.filterMap_append, List.filterMap_map, Ne.symm hne]

theorem act_calls_self : (d.act n asked cache call seen).calls n = call := Function.update_self ..

theorem act_calls_other (hne : m ≠ n) : (d.act n asked cache call seen).calls m = d.calls m :=
  Function.update_of_ne hne ..

/-- Loading a file is a call nobody interrupts: it leaves the same cache and
gives the same answer, and the wire is used for the download of the call. -/
theorem load_uninterrupted {d d' : Desk} {wire : Wire} {file : AttachedFile}
    (h : d' = d.after [.ask file, .land d.asked (wire.download file.url).2, .settle d.asked]) :
    (Depot.load d.now file ⟨wire, d.cache⟩).2.cache = d'.cache ∧
      d'.notes.getLast? = some (d.asked, .answered d.now (Depot.load d.now file ⟨wire, d.cache⟩).1) ∧
      (Depot.load d.now file ⟨wire, d.cache⟩).2.wire =
        if (d.cache.ask d.now file).2 matches .download then (wire.download file.url).1 else wire := by
  subst h
  simp only [after_cons, after_nil, move]
  unfold ask Depot.load
  cases d.cache.ask d.now file with
  | mk cache answer =>
    cases answer with
    | settled answer => simp [land, settle, act]
    | download => simp [land, settle, act]

/-! ## What a call can do -/

inductive Acts (d : Desk) : Nat → Nat → Cache → Option Call → List Note → Prop where
  | refused (file : AttachedFile) (htext : file.isText = false) :
      Acts d d.asked (d.asked + 1) d.cache none
        [.asked file, .answered d.now (.error (.unsupportedAttachment file.url file.contentType))]
  | hit (file : AttachedFile) (e : Cache.Entry) (htext : file.isText = true)
      (hget : d.cache.entries.get? file.url = some e) (hfresh : d.cache.isFresh d.now e = true) :
      Acts d d.asked (d.asked + 1)
        { d.cache with
          entries := d.cache.entries.put file.url { e with usedAt := d.now }
          tally.hits := d.cache.tally.hits + 1 }
        none [.asked file, .answered d.now (.ok e.text)]
  | missed (file : AttachedFile) (entries : Table Cache.Entry) (htext : file.isText = true)
      (hspares : d.cache.Spares d.now file.url entries) :
      Acts d d.asked (d.asked + 1) { d.cache with entries, tally.misses := d.cache.tally.misses + 1 }
        (some (.loading file)) [.asked file, .began file.url]
  | landed (n : Nat) (file : AttachedFile) (result : Except TransportFault String)
      (hcall : d.calls n = some (.loading file)) :
      Acts d n d.asked d.cache (some (.landed file result)) [.ended file.url result]
  | stored (n : Nat) (file : AttachedFile) (text : String) (hcall : d.calls n = some (.landed file (.ok text))) :
      Acts d n d.asked { d.cache with entries := (d.cache.insert d.now file.url text).entries } none
        [.answered d.now (.ok text)]
  | failed (n : Nat) (file : AttachedFile) (fault : TransportFault)
      (hcall : d.calls n = some (.landed file (.error fault))) :
      Acts d n d.asked d.cache none [.answered d.now (.error (.attachmentFetch file.url fault))]

theorem move_cases (d : Desk) (m : Move) :
    (∃ duration, d.move m = { d with now := d.now + duration }) ∨
      ∃ n asked cache call seen, m.caller d = some n ∧ Acts d n asked cache call seen ∧
        d.move m = d.act n asked cache call seen := by
  cases m with
  | wait duration => exact .inl ⟨duration, rfl⟩
  | ask file =>
    right
    rcases d.cache.ask_cases d.now file with
      ⟨htext, hask⟩ | ⟨htext, e, hget, hfresh, hask⟩ | ⟨htext, entries, hspares, hask⟩
    · exact ⟨_, _, _, _, _, rfl, .refused file htext, by rw [move, ask, hask]⟩
    · exact ⟨_, _, _, _, _, rfl, .hit file e htext hget hfresh, by rw [move, ask, hask]⟩
    · exact ⟨_, _, _, _, _, rfl, .missed file entries htext hspares, by rw [move, ask, hask]⟩
  | land n result =>
    rw [move, land]
    split
    next file hcall => exact .inr ⟨_, _, _, _, _, rfl, .landed n file result hcall, rfl⟩
    next => exact .inl ⟨0, rfl⟩
  | settle n =>
    rw [move, settle]
    split
    next file result hcall =>
      right
      cases result with
      | ok text =>
        refine ⟨_, _, _, _, _, rfl, .stored n file text hcall, ?_⟩
        rw [Cache.settle, ← Cache.insert_eq]
      | error fault => exact ⟨_, _, _, _, _, rfl, .failed n file fault hcall, rfl⟩
    next => exact .inl ⟨0, rfl⟩

end Desk

end ReplyStream
