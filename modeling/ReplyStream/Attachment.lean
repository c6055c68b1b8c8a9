/-
What messages refer to. An `AttachedFile` is a file by its URL, with its
text once it has been downloaded or the reason why it was not. A
`CardFragment` is one piece of a card document too long for one event;
pieces are linked by event id.
-/
import ReplyStream.Json.Decode

namespace ReplyStream

structure AttachedFile where
  url : String
  sourceUrl : Option String
  name : String
  contentType : String
  content : Option String
  error : Option String
deriving DecidableEq, Repr

namespace AttachedFile

/-- Whether `part` occurs in a text. -/
def occursIn (part : List Char) : List Char → Bool
  | [] => part.isEmpty
  | c :: s => part.isPrefixOf (c :: s) || occursIn part s

/-- Only files whose type names a kind of text can be put into a timeline. -/
def isText (f : AttachedFile) : Bool := occursIn "text/".toList f.contentType.toList

def ofJson? : Json → Option AttachedFile :=
  Json.record do
    let url ← Json.field "url" Json.string?
    let sourceUrl ← Json.option "sourceUrl" Json.string?
    let name ← Json.fieldD "name" Json.string? ""
    let contentType ← Json.fieldD "contentType" Json.string? ""
    let content ← Json.option "content" Json.string?
    let error ← Json.option "error" Json.string?
    return { url, sourceUrl, name, contentType, content, error }

def toJson (f : AttachedFile) : Json :=
  .ofPairs <|
    [("url", .str f.url)] ++
    Json.optionField "sourceUrl" .str f.sourceUrl ++
    [("name", .str f.name), ("contentType", .str f.contentType)] ++
    Json.optionField "content" .str f.content ++
    Json.optionField "error" .str f.error

end AttachedFile

structure CardFragment where
  payload : String
  /-- Where the piece belongs; the links decide the order all the same. -/
  index : Nat
  /-- How many pieces the document has, as the first piece says. -/
  totalParts : Nat
  /-- The event with the next piece. -/
  next : Option String
deriving DecidableEq, Repr

namespace CardFragment

def ofJson? : Json → Option CardFragment :=
  Json.record do
    let payload ← Json.field "cardFragment" Json.string?
    let index ← Json.field "index" Json.nat32?
    let totalParts ← Json.field "totalParts" Json.nat32?
    let next ← Json.option "nextFragment" Json.string?
    return { payload, index, totalParts, next }

def toJson (f : CardFragment) : Json :=
  .ofPairs <|
    [("cardFragment", .str f.payload), ("index", .ofNat f.index), ("totalParts", .ofNat f.totalParts)] ++
    Json.optionField "nextFragment" .str f.next

end CardFragment

end ReplyStream
