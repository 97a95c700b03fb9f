/-
# Trees of a TOML document

The tables that a document defines, statement by statement.  A table may be defined only once,
so each one remembers how it came about: tables that are merely passed through may still get a
header of their own, and only tables made by dotted keys can be extended by dotted keys.
-/
import SplitFeed.Entries

namespace SplitFeed.Toml

/-- How a table came about. -/
inductive Standing where
  /-- By its own header, or as the document itself. -/
  | headed
  /-- On the way to the header of a table below it. -/
  | implied
  /-- On the way to the last part of a dotted key. -/
  | dotted
  /-- Between braces, where nothing can be added any more. -/
  | closed
deriving DecidableEq, Inhabited

/-- What stands under a key. -/
inductive Node where
  | text (text : String)
  | integer (value : Int)
  | float (value : Float)
  | truth (value : Bool)
  /-- A date, a time of day or both, as written. -/
  | moment (text : String)
  | array (items : List Node)
  | table (standing : Standing) (entries : List (String × Node))
  /-- The tables under a repeated header; the last one is first. -/
  | rows (tables : List Node)
deriving Inhabited

/-- Changes a table, unless the change is not allowed. -/
abbrev Change := Standing → Entries Node → Option Node

namespace Node

/-- Changes the table that a node is, or the last of the tables it stands for. -/
def change? (allowed : Standing → Bool) (change : Change) : Node → Option Node
  | table standing entries => if allowed standing then change standing entries else none
  | rows (table standing entries :: earlier) => do
    return rows ((← change standing entries) :: earlier)
  | _ => none

/-- Changes what is under a key of a table.  Where nothing is, a new table is changed. -/
def under (key : String) (fresh : Standing) (allowed : Standing → Bool) (change : Change) :
    Change := fun standing entries => do
  let changed ← match entries.find? key with
    | none => change fresh []
    | some node => node.change? allowed change
  return table standing (entries.put key changed)

/-- Enters something under a key, dotted or not.  Dotted keys pass only through tables that were
passed through before, and the last part must find a table made by dotted keys; a plain key must
find one that was not. -/
def enter (node : Node) (isDotted : Bool) : List String → Change
  | [], _, _ => none
  | [key], standing, entries =>
    if (standing == .dotted) != isDotted || (entries.find? key).isSome then none
    else some (table standing (entries.put key node))
  | key :: rest, standing, entries =>
    under key .dotted (fun standing => standing == .implied || standing == .dotted)
      (enter node true rest) standing entries

/-- The statements below a header, each a key and what it names. -/
abbrev Body := List (List String × Node)

/-- Enters all statements of a body. -/
def enterAll (body : Body) : Change := fun standing entries =>
  body.foldlM (fun node (keys, value) => node.change? (fun _ => true) (enter value false keys))
    (table standing entries)

/-- Gives a table its header and its body.  It must be new or only have been passed through. -/
def head (body : Body) (key : String) : Change := fun standing entries => do
  let sofar ← match entries.find? key with
    | none => some []
    | some (table .implied sofar) => some sofar
    | some _ => none
  return table standing (entries.put key (← enterAll body .headed sofar))

/-- Adds a row with its body to the tables under a repeated header. -/
def addRow (body : Body) (key : String) : Change := fun standing entries => do
  let row ← enterAll body .headed []
  let earlier ← match entries.find? key with
    | none => some []
    | some (rows earlier) => some earlier
    | some _ => none
  return table standing (entries.put key (rows (row :: earlier)))

/-- Does something with the last part of a header, in the table that the parts before it lead
to. -/
def along (finish : String → Change) : List String → Change
  | [], _, _ => none
  | [key], standing, entries => finish key standing entries
  | key :: rest, standing, entries =>
    under key .implied (· != .closed) (along finish rest) standing entries

end Node

/-- A part of a document that begins with a header; one for a repeated table makes a new row. -/
structure Section where
  header : List String
  isRow : Bool
  body : Node.Body

namespace Section

/-- Enters a section. -/
def enter (part : Section) : Change :=
  if part.isRow then Node.along (Node.addRow part.body) part.header
  else Node.along (Node.head part.body) part.header

end Section

namespace Node

/-- The tree of a document: its first statements, then its sections. -/
def ofSections (first : Body) (sections : List Section) : Option Node := do
  let root ← enterAll first .headed []
  sections.foldlM (fun node part => node.change? (fun _ => true) part.enter) root

/-- The table between braces. -/
def inline (body : Body) : Option Node := do
  match ← enterAll body .headed [] with
  | table _ entries => return table .closed entries
  | _ => none

end Node

end SplitFeed.Toml
