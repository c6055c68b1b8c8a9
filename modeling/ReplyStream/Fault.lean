/-
What can go wrong: in the room's backend (`TransportFault`), in the model
(`ModelFault`) and in the engine between them (`Fault`), each with its
message and the message of the fault behind it, if there is one.

`Fault.isFatal` tells the faults that corrupt the record of a turn from
those that only degrade one item.
-/

namespace ReplyStream

/-- A failure the backend reports. -/
inductive TransportFault where
  | request (message : String)
  | rejected (status : Nat) (message : String)
  | unavailable
deriving DecidableEq, Repr

def TransportFault.message : TransportFault → String
  | .request message => "transport request failed: " ++ message
  | .rejected status message =>
    "transport rejected request with status " ++ toString status ++ ": " ++ message
  | .unavailable => "transport unavailable"

/-- A failure of the model's output. -/
inductive ModelFault where
  | generation (reason : String)
  | timeout (seconds : Nat)
  | cancelled
  | invalidInput (message : String)
  | internal (cause : String)
deriving DecidableEq, Repr

namespace ModelFault

def message : ModelFault → String
  | .generation reason => "Text generation failed: " ++ reason
  | .timeout seconds => "Operation timed out after " ++ toString seconds ++ " seconds"
  | .cancelled => "Generation was cancelled"
  | .invalidInput message => "Invalid input: " ++ message
  | .internal cause => "Internal error: " ++ cause

/-- The message of the fault behind this one. -/
def cause : ModelFault → Option String
  | .internal cause => some cause
  | _ => none

end ModelFault

/-- Why a payload cannot be used: it is not JSON, or JSON of another shape. -/
inductive PayloadFlaw where
  | notJson
  | wrongShape
deriving DecidableEq, Repr

inductive Fault where
  /-- The data of an event cannot be read. -/
  | malformedPayload (eventId : String) (flaw : PayloadFlaw)
  /-- A chain of card fragments lacks a piece or has the wrong number of them. -/
  | fragmentIntegrity (root : String) (reason : String)
  | attachmentFetch (url : String) (cause : TransportFault)
  | unsupportedAttachment (url contentType : String)
  | publish (cause : TransportFault)
  | generation (cause : ModelFault)
  | transport (cause : TransportFault)
deriving DecidableEq, Repr

namespace Fault

/-- The message; that of a malformed payload leaves out what the reader of
JSON has to say. -/
def message : Fault → String
  | .malformedPayload eventId _ => "malformed payload in event " ++ eventId ++ ": "
  | .fragmentIntegrity root reason => "fragment chain starting at " ++ root ++ " is broken: " ++ reason
  | .attachmentFetch url cause => "failed to fetch attachment " ++ url ++ ": " ++ cause.message
  | .unsupportedAttachment url contentType =>
    "unsupported file type " ++ contentType ++ " for " ++ url ++ ", only text files are supported"
  | .publish cause => "failed to publish event: " ++ cause.message
  | .generation cause => "model output failed: " ++ cause.message
  | .transport cause => cause.message

/-- The message of the fault behind this one. A transport fault that is passed
on as it is has none. -/
def cause : Fault → Option String
  | .attachmentFetch _ cause | .publish cause => some cause.message
  | .generation cause => some cause.message
  | _ => none

/-- Whether the fault corrupts the record and must end the turn. -/
def isFatal : Fault → Bool
  | .malformedPayload .. | .fragmentIntegrity .. | .generation _ | .transport _ => true
  | .attachmentFetch .. | .unsupportedAttachment .. | .publish _ => false

end Fault

end ReplyStream
