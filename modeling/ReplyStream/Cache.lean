/-
A cache of the text of attached files, by URL. A text is served for `ttl`
milliseconds after its download. When there are more than `maxEntries`, the
stale entries go first and then those that have gone unused for longest.

A download takes time, so a call comes in two parts: `ask` serves a fresh
text or says that a download is needed, and `settle` takes what became of
the download.
-/
import ReplyStream.Attachment
import ReplyStream.Config.Basic
import ReplyStream.Fault
import ReplyStream.Table

namespace ReplyStream

namespace Cache

structure Entry where
  text : String
  fetchedAt : Nat
  usedAt : Nat
deriving DecidableEq, Repr

/-- How often a call could be served, and how often not. -/
structure Tally where
  hits : Nat
  misses : Nat
deriving DecidableEq, Repr

def Tally.counters (t : Tally) : List (String × Nat) :=
  [("relaybot_attachment_cache_hits_total", t.hits),
   ("relaybot_attachment_cache_misses_total", t.misses)]

/-- What `ask` says. -/
inductive Answer where
  | settled (result : Except Fault String)
  | download

end Cache

structure Cache where
  /-- How long a text is fresh. -/
  ttl : Nat
  maxEntries : Nat
  entries : Table Cache.Entry
  tally : Cache.Tally

namespace Cache

def new (ttl maxEntries : Nat) : Cache := ⟨ttl, maxEntries, [], ⟨0, 0⟩⟩

def ofConfig (c : Config.Attachments) : Cache := .new (c.ttlSecs * 1000) c.maxEntries

/-- Whether an entry may still be served at time `now`. -/
def isFresh (c : Cache) (now : Nat) (e : Entry) : Bool := now - e.fetchedAt < c.ttl

/-! ## Look-up -/

/-- The fresh text at `url`, which counts as a use. A stale one is dropped. -/
def lookup (c : Cache) (now : Nat) (url : String) : Cache × Option String :=
  match c.entries.get? url with
  | none => (c, none)
  | some e =>
    if c.isFresh now e then
      ({ c with entries := c.entries.put url { e with usedAt := now } }, some e.text)
    else ({ c with entries := c.entries.erase url }, none)

/-- Looks for the text of a file. Only text files can be asked for. -/
def ask (c : Cache) (now : Nat) (file : AttachedFile) : Cache × Answer :=
  if !file.isText then (c, .settled (.error (.unsupportedAttachment file.url file.contentType)))
  else
    match c.lookup now file.url with
    | (c, some text) => ({ c with tally.hits := c.tally.hits + 1 }, .settled (.ok text))
    | (c, none) => ({ c with tally.misses := c.tally.misses + 1 }, .download)

/-! ## Storing -/

/-- The entry that has gone unused for longest, the first of several. -/
def leastUsed : Table Entry → Option (String × Entry)
  | [] => none
  | e :: rest =>
    match leastUsed rest with
    | none => some e
    | some other => if other.2.usedAt < e.2.usedAt then some other else some e

/-- Drops `count` entries, always the one that has gone unused for longest. -/
def evict : Nat → Table Entry → Table Entry
  | 0, entries => entries
  | count + 1, entries =>
    match leastUsed entries with
    | none => entries
    | some (url, _) => evict count (entries.erase url)

/-- Stores a text, then makes room. -/
def insert (c : Cache) (now : Nat) (url text : String) : Cache :=
  let entries := c.entries.put url ⟨text, now, now⟩
  if entries.length ≤ c.maxEntries then { c with entries }
  else
    let fresh := entries.filter fun e => c.isFresh now e.2
    { c with entries := evict (fresh.length - c.maxEntries) fresh }

/-- Takes what became of a download: a text is stored. -/
def settle (c : Cache) (now : Nat) (url : String) (result : Except TransportFault String) :
    Cache × Except Fault String :=
  match result with
  | .ok text => (c.insert now url text, .ok text)
  | .error fault => (c, .error (.attachmentFetch url fault))

end Cache

end ReplyStream
