/-
What messages refer to, put in its place: the text of attached files and of
a command's card file, and the card documents made of fragments.

Files are loaded one after another and each load may change what later ones
see, so a loader works on a state. A file that cannot be loaded is marked
and nothing more comes of it; data of the wrong shape is a fault.
-/
import ReplyStream.Timeline.Fragments

namespace ReplyStream.Timeline

/-- What may change the state of a loader and may fail. -/
abbrev Loading (σ : Type) := ExceptT Fault (StateM σ)

/-- How the text of a file is had. -/
abbrev Loader (σ : Type) := AttachedFile → Loading σ String

variable {σ : Type}

/-- The file with its text, or with the reason why it has none. A file that
came with its text is left alone. -/
def embedFile (load : Loader σ) (f : AttachedFile) : Loading σ AttachedFile :=
  if f.content.isSome then return f
  else
    tryCatch (do return { f with content := some (← load f), error := none }) fun fault =>
      return { f with error := some ("Error loading attached file: " ++ fault.message) }

/-- The value at `key`, if there is one, read and replaced at `target`. -/
def replaceAt {α : Type} (eventId key target : String) (read : Json → Option α)
    (f : α → Loading σ Json) (fields : Json.Fields) : Loading σ Json.Fields :=
  match fields.get? key with
  | none => return fields
  | some v =>
    match read v with
    | none => throw (.malformedPayload eventId .wrongShape)
    | some a => return fields.insert target (← f a)

/-- Puts the text of attached files in place. -/
def embedFiles (load : Loader σ) (eventId : String) : Json.Fields → Loading σ Json.Fields :=
  replaceAt eventId "attachedFiles" "attachedFiles" (Json.list? AttachedFile.ofJson?) fun files => do
    return .arr ((← files.mapM (embedFile load)).map AttachedFile.toJson)

/-- Puts attached cards in place, made of their fragments. -/
def embedCards (fragments : Fragments) (eventId : String) : Json.Fields → Loading σ Json.Fields :=
  replaceAt eventId "attachedCardsEventIds" "attachedCards" (Json.list? Json.string?) fun roots =>
    return .arr (← ofExcept (roots.mapM fragments.reassemble))

/-- Puts the text of a command's card file in place. -/
def embedOutput (load : Loader σ) (eventId : String) : Json.Fields → Loading σ Json.Fields :=
  replaceAt eventId "card" "card" AttachedFile.ofJson? fun file =>
    return (← embedFile load file).toJson

/-- The event with all it refers to. -/
def embed (load : Loader σ) (fragments : Fragments) (e : Event) : Loading σ Event :=
  match e.content.data with
  | some (.obj fields) => do
    let fields ← embedFiles load e.id fields
    let fields ← embedCards fragments e.id fields
    let fields ← if e.isCommandOutput then embedOutput load e.id fields else pure fields
    return { e with content.data := some (.obj fields) }
  | _ => return e

end ReplyStream.Timeline
