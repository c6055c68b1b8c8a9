/-
Answer text as the model streams it, cleaned up for publishing: `clean`
trims it, unwraps a `json` code fence, drops a text of nothing but
backticks, and takes off a trailing `json`.
-/
import ReplyStream.Text.Blank

namespace ReplyStream.Draft

/-- What opens a fenced block of JSON. -/
def openingFence : List Char := "```json".toList

def closingFence : List Char := "```".toList

/-- The word a fence's tag leaves behind while it streams. -/
def fenceTag : List Char := "json".toList

/-- A trimmed text without the fence around it. The fence need not be closed. -/
def unfence (s : List Char) : List Char :=
  match openingFence.isPrefixOf? s with
  | none => s
  | some inner =>
    let inner := Text.trim inner
    Text.trim ((closingFence.isSuffixOf? inner).getD inner)

/-- A text without the tag at its end. -/
def untag (s : List Char) : List Char :=
  match fenceTag.isSuffixOf? s with
  | none => s
  | some rest => Text.trim rest

def clean (s : List Char) : List Char :=
  let s := unfence (Text.trim s)
  if s.all (· == '`') then [] else untag s

/-- The cleaned text of an answer. -/
def cleanAnswer (text : String) : String := String.ofList (clean text.toList)

end ReplyStream.Draft
