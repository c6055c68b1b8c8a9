/-
The reply of one turn as it grows. A `Reply` is what is known of it so far;
a `Draft` folds the model's deltas into one and tells, for each, whether a
reader would notice (`update`).

Reasoning is appended; the answer and the tool calls are replaced by the
latest snapshot. Until real output arrives, the reasoning may be a
placeholder.
-/
import ReplyStream.Delta
import ReplyStream.Draft.Clean

namespace ReplyStream

structure Reply where
  reasoning : String
  answer : String
  /-- Without repetitions, in the order they first came. -/
  toolCalls : List ToolCall
  isFinished : Bool
  isCanceled : Bool
deriving DecidableEq, Repr

namespace Reply

/-- A reply with nothing in it. -/
def empty : Reply := ⟨"", "", [], false, false⟩

/-- A reply that is only text. -/
def ofText (reasoning answer : String) : Reply := { empty with reasoning, answer }

end Reply

structure Draft where
  reply : Reply
  /-- The placeholder, until real output has arrived. -/
  placeholder : Option String
  /-- The tools whose calls are kept; all of them when not given. -/
  allowedTools : Option (List String)
deriving DecidableEq, Repr

namespace Draft

/-- The tool the bot calls on its own, never published. -/
def reservedTool : String := "checkCorrectness"

def new : Draft := ⟨.empty, none, none⟩

/-- A draft whose reasoning is `text` until real output arrives. -/
def withPlaceholder (text : String) : Draft := ⟨.ofText text "", some text, none⟩

/-- Keeps only the calls of the named tools. -/
def withAllowedTools (d : Draft) (names : List String) : Draft := { d with allowedTools := some names }

/-! ## Tool calls -/

/-- The first occurrence of each element, in order. -/
def distinct {α : Type} [DecidableEq α] : List α → List α
  | [] => []
  | a :: rest => a :: (distinct rest).filter (· ≠ a)

/-- Whether a call is worth publishing. -/
def keeps (allowed : Option (List String)) (c : ToolCall) : Bool :=
  !c.isEmpty && c.name ≠ reservedTool && (allowed.all fun names => names.contains c.name)

/-- The calls worth publishing, each once. -/
def filterCalls (allowed : Option (List String)) (calls : List ToolCall) : List ToolCall :=
  distinct (calls.filter (keeps allowed))

/-! ## Updates

Each step returns the draft and whether the step changed something. -/

/-- The placeholder goes when real output arrives, and out of the reasoning
if it still stands there. -/
def clearPlaceholder (d : Draft) : Draft × Bool :=
  match d.placeholder with
  | none => (d, false)
  | some text =>
    if d.reply.reasoning = text then
      ({ d with placeholder := none, reply.reasoning := "" }, true)
    else ({ d with placeholder := none }, false)

/-- Appends to the reasoning; an empty piece is no output. -/
def appendReasoning (d : Draft) (piece : Option String) : Draft × Bool :=
  match piece with
  | none => (d, false)
  | some text =>
    if text.isEmpty then (d, false)
    else
      let d := d.clearPlaceholder.1
      ({ d with reply.reasoning := d.reply.reasoning ++ text }, true)

/-- Replaces the answer by the cleaned snapshot; an empty one is no output. -/
def setAnswer (d : Draft) (snapshot : Option String) : Draft × Bool :=
  match snapshot with
  | none => (d, false)
  | some text =>
    let answer := cleanAnswer text
    let (d, cleared) := if answer.isEmpty then (d, false) else d.clearPlaceholder
    if answer = d.reply.answer then (d, cleared)
    else ({ d with reply.answer := answer }, true)

/-- Replaces the tool calls by those of the snapshot that are kept. -/
def setToolCalls (d : Draft) (snapshot : Option (List ToolCall)) : Draft × Bool :=
  match snapshot with
  | none => (d, false)
  | some calls =>
    let kept := filterCalls d.allowedTools calls
    if kept = d.reply.toolCalls then (d, false)
    else ({ d with reply.toolCalls := kept }, true)

/-- Marks the reply finished, once. -/
def setFinished (d : Draft) (finished : Bool) : Draft × Bool :=
  if finished && !d.reply.isFinished then ({ d with reply.isFinished := true }, true) else (d, false)

/-- Folds one delta in. True when a reader would notice. -/
def update (d : Draft) (delta : Delta) : Draft × Bool :=
  let (d, grown) := d.appendReasoning delta.reasoning
  let (d, answered) := d.setAnswer delta.content
  let (d, called) := d.setToolCalls delta.toolCalls
  let (d, finished) := d.setFinished delta.finished
  (d, grown || answered || called || finished)

/-- Marks the reply finished without adding anything. -/
def finish (d : Draft) : Draft := (d.setFinished true).1

/-- Marks the reply canceled, which also ends it. False when it was already. -/
def cancel (d : Draft) : Draft × Bool :=
  if d.reply.isCanceled then (d, false)
  else ({ d with reply.isCanceled := true, reply.isFinished := true }, true)

end Draft

end ReplyStream
