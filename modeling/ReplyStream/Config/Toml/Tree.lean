/-
The tables of a TOML document while it is read. Who made a table decides who
may add to it: a header opens a table once, and also one that another header
has implied; dotted keys make tables of their own, which no header opens, and
add to no table that a header has opened. Nothing adds to a value.
-/
import ReplyStream.Config.Setting
import ReplyStream.Table

namespace ReplyStream.Config.Toml

/-- Who made a table. -/
inductive Origin where
  /-- A header that names a table within it. -/
  | implied
  /-- A key with dots. -/
  | dotted
  /-- A header of its own. -/
  | header
deriving DecidableEq, Repr

/-- What stands at a place of the tree. -/
inductive Node where
  | value (v : Setting)
  | table (origin : Origin) (entries : List (String × Node))
  /-- A list of tables, of which only the last can be added to. -/
  | tables (before : List Setting) (last : List (String × Node))
deriving Repr

abbrev Entries := Table Node

namespace Node

mutual

/-- The finished setting. -/
def toSetting : Node → Setting
  | .value v => v
  | .table _ entries => .table (settings entries)
  | .tables before last => .list (before ++ [.table (settings last)])

def settings : List (String × Node) → List (String × Setting)
  | [] => []
  | (key, node) :: rest => (key, toSetting node) :: settings rest

end

end Node

namespace Entries

/-- Changes the table under a path, which is made where it is missing; with
dotted keys the path leads into no table that a header has opened. -/
def modify? (dotted : Bool) (change : Origin → Entries → Option Entries) :
    List String → Origin → Entries → Option Entries
  | [], origin, entries => change origin entries
  | key :: path, _, entries =>
    match entries.get? key with
    | none =>
      let origin := if dotted then .dotted else .implied
      (modify? dotted change path origin []).map fun inner => entries.put key (.table origin inner)
    | some (.table origin inner) =>
      if dotted ∧ origin = .header then none
      else (modify? dotted change path origin inner).map fun inner => entries.put key (.table origin inner)
    | some (.tables before last) =>
      (modify? dotted change path .header last).map fun last => entries.put key (.tables before last)
    | some (.value _) => none

/-- Gives a key its value. A key with dots adds only to a table made by dotted
keys, and one without only to the others. -/
def assign? (path : List String) (key : String) (v : Setting) (entries : Entries) : Option Entries :=
  modify? true (fun origin entries =>
    if decide (origin = .dotted) = path.isEmpty ∨ (entries.get? key).isSome then none
    else some (entries.put key (.value v))) path .header entries

/-- Gives a key its value in the table of a header. -/
def assignIn? (context path : List String) (key : String) (v : Setting) (entries : Entries) : Option Entries :=
  modify? false (fun _ => assign? path key v) context .header entries

/-- Opens the table of a header. -/
def openTable? (path : List String) (key : String) (entries : Entries) : Option Entries :=
  modify? false (fun _ entries =>
    match entries.get? key with
    | none => some (entries.put key (.table .header []))
    | some (.table .implied inner) => some (entries.put key (.table .header inner))
    | some _ => none) path .header entries

/-- Opens one more table of a list of tables. -/
def openItem? (path : List String) (key : String) (entries : Entries) : Option Entries :=
  modify? false (fun _ entries =>
    match entries.get? key with
    | none => some (entries.put key (.tables [] []))
    | some (.tables before last) =>
      some (entries.put key (.tables (before ++ [.table (Node.settings last)]) []))
    | some _ => none) path .header entries

end Entries

end ReplyStream.Config.Toml
