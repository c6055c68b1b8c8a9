/-
Card documents cut into pieces. A document is put together by following the
links from its first piece, which also says how many there are; the joined
text must be JSON. Where a piece says it belongs does not matter.
-/
import ReplyStream.Attachment
import ReplyStream.Event.Basic
import ReplyStream.Fault
import ReplyStream.Table

namespace ReplyStream

/-- The card fragments of a log, by the id of their event. -/
abbrev Fragments := Table CardFragment

namespace Fragments

/-- What can be wrong with a chain of pieces. -/
inductive Flaw where
  | missing (id : String)
  | tooLong
  | tooShort (found : Nat)
deriving DecidableEq, Repr

/-- Says what is wrong with a chain that should have `total` pieces. -/
def Flaw.reason (total : Nat) : Flaw → String
  | .missing id => "missing fragment " ++ id
  | .tooLong => "chain is longer than " ++ toString total ++ " parts"
  | .tooShort found => "expected " ++ toString total ++ " parts, found " ++ toString found

/-- The text of the pieces from `id` on, when exactly `count` of them follow
one another. `seen` pieces came before. -/
def collect (fragments : Fragments) (seen : Nat) : (count : Nat) → (id : String) → Except Flaw String
  | 0, _ => .error .tooLong
  | count + 1, id =>
    match fragments.get? id with
    | none => .error (.missing id)
    | some piece =>
      match piece.next with
      | none => if count = 0 then .ok piece.payload else .error (.tooShort (seen + 1))
      | some next => (collect fragments (seen + 1) count next).map (piece.payload ++ ·)

/-- The document whose first piece is in event `root`. -/
def reassemble (fragments : Fragments) (root : String) : Except Fault Json :=
  match fragments.get? root with
  | none => .error (.fragmentIntegrity root (Flaw.reason 0 (.missing root)))
  | some piece =>
    match collect fragments 0 piece.totalParts root with
    | .error flaw => .error (.fragmentIntegrity root (flaw.reason piece.totalParts))
    | .ok text =>
      match Json.parse? text with
      | some document => .ok document
      | none => .error (.malformedPayload root .notJson)

/-- The piece a fragment event carries in its decoded data. -/
def piece? (e : Event) : Except Fault CardFragment :=
  match CardFragment.ofJson? (e.content.data.getD .null) with
  | some piece => .ok piece
  | none => .error (.malformedPayload e.id .wrongShape)

/-- The pieces among events with decoded data; of equal ids the last counts. -/
def ofEvents (events : List Event) : Except Fault Fragments :=
  (events.filter (·.isFragment)).foldlM
    (fun fragments e => (piece? e).map fun piece => fragments.put e.id piece) []

end Fragments

end ReplyStream
