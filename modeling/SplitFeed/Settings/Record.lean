/-
# Records and choices

How values are read as records and choices.  A record is a table with some fields, or a list with
the fields in order; a choice is the name of an alternative, or a table in which that name leads
to the settings of the alternative.  Tables are read in ascending order of their keys, so of two
faults the one under the lesser key is reported.
-/
import SplitFeed.Settings.Complaint

namespace SplitFeed

/-- Reads a value as something, or complains. -/
abbrev Reading (α : Type) := Value → Except Complaint α

namespace Value

/-- What a value is found to be. -/
def found : Value → Found
  | scalar _ content => .scalar content
  | list _ _ => .sequence
  | table _ _ => .map

/-- A complaint about a value. -/
def blame (fault : Fault) (value : Value) : Complaint where
  path := []
  origin := some value.origin
  fault := fault

/-- A complaint about the type of a value. -/
def refuse (expected : Expected) (value : Value) : Complaint :=
  value.blame (.wrongType value.found expected)

/-- A number that is not negative. -/
def asNatural (expected : Expected) : Reading Nat
  | scalar _ (.unsigned n) => .ok n
  | scalar origin (.signed i) =>
    if 0 ≤ i then .ok i.toNat
    else .error ((scalar origin (.signed i)).blame (.wrongValue (.scalar (.signed i)) expected))
  | value => .error (value.refuse expected)

/-- A truth value. -/
def asTruth : Reading Bool
  | scalar _ (.truth b) => .ok b
  | value => .error (value.refuse .truth)

/-- Text; a single letter will do. -/
def asText : Reading String
  | scalar _ (.text text) => .ok text
  | scalar _ (.letter c) => .ok c.toString
  | value => .error (value.refuse .text)

/-- A reading of what is under a key. -/
def reading {α : Type} (read : Reading α) (key : String) : Reading α :=
  fun value => (read value).mapError (·.within key)

/-- A list. -/
def asList {α : Type} (read : Reading α) : Reading (List α)
  | list _ items => items.zipIdx.mapM fun (item, index) => reading read (toString index) item
  | value => .error (value.refuse .sequence)

end Value

/-- A field of a record: the names it goes by, whether it has to be given, and how it is entered
into the record. -/
structure RecordField (ρ : Type) where
  name : String
  alias? : Option String := none
  isRequired : Bool := false
  enter : Value → ρ → Except Complaint ρ

/-- The fields of a record, and the record in which none was entered yet. -/
structure RecordShape (ρ : Type) where
  title : String
  blank : ρ
  fields : List (RecordField ρ)

namespace RecordField

variable {ρ : Type}

/-- A field that is read on its own and then put into the record. -/
def reads {α : Type} (read : Reading α) (put : α → ρ → ρ) (value : Value) (record : ρ) :
    Except Complaint ρ := do
  return put (← read value) record

/-- Whether a field goes by a name. -/
def goesBy (key : String) (field : RecordField ρ) : Bool :=
  field.name == key || field.alias? == some key

end RecordField

namespace RecordShape

variable {ρ : Type}

/-- Enters the value under one key, unless the field is already in the record.  Keys that are no
field's are passed over. -/
def enter (shape : RecordShape ρ) (whole : Value) (sofar : ρ × List String)
    (entry : String × Value) : Except Complaint (ρ × List String) :=
  let (record, given) := sofar
  let (key, value) := entry
  match shape.fields.find? (·.goesBy key) with
  | none => .ok sofar
  | some field =>
    if given.contains field.name then .error (whole.blame (.duplicateField field.name))
    else do
      let record ← (field.enter value record).mapError (·.within key)
      return (record, field.name :: given)

/-- Reads a record field by field from the items of a list.  Further items are passed over. -/
def ofItems (shape : RecordShape ρ) (whole : Value) (items : List Value) : Except Complaint ρ :=
  shape.fields.zipIdx.foldlM
    (fun record (field, index) =>
      match items[index]? with
      | some value => (field.enter value record).mapError (·.within (toString index))
      | none =>
        if field.isRequired then
          .error (whole.blame (.wrongLength index (.recordOf shape.title shape.fields.length)))
        else .ok record)
    shape.blank

/-- Reads a record. -/
def read (shape : RecordShape ρ) : Reading ρ
  | .table origin entries => do
    let whole := Value.table origin entries
    let (record, given) ← entries.foldlM (shape.enter whole) (shape.blank, [])
    match shape.fields.find? fun field => field.isRequired && !given.contains field.name with
    | some field => throw (whole.blame (.missingField field.name))
    | none => return record
  | .list origin items => shape.ofItems (.list origin items) items
  | value => .error (value.refuse (.record shape.title))

end RecordShape

/-- An alternative: its name, and what it comes to.  Some have settings of their own. -/
inductive ChoiceCase (α : Type) where
  | bare (name : String) (result : α)
  | withSettings (name : String) (read : Reading α)

/-- The name of an alternative. -/
def ChoiceCase.name {α : Type} : ChoiceCase α → String
  | bare name _ => name
  | withSettings name _ => name

/-- The alternatives of a choice. -/
structure ChoiceShape (α : Type) where
  title : String
  alternatives : List (ChoiceCase α)

namespace ChoiceShape

variable {α : Type}

/-- The alternative of a name, or a complaint about the value with which the name was given. -/
def pick (shape : ChoiceShape α) (value : Value) (name : String) :
    Except Complaint (ChoiceCase α) :=
  match shape.alternatives.find? (·.name == name) with
  | some alternative => .ok alternative
  | none => .error (value.blame (.unknownChoice name (shape.alternatives.map (·.name))))

/-- Reads a choice.  Of several keys in a table the least one is the choice, and the others are
passed over. -/
def read (shape : ChoiceShape α) : Reading α
  | .scalar origin (.text name) => do
    let whole := Value.scalar origin (.text name)
    match ← shape.pick whole name with
    | .bare _ result => return result
    | .withSettings _ _ => throw (whole.blame (.wrongType .bareChoice .choiceWithSettings))
  | .table origin [] => .error ((Value.table origin []).refuse .choice)
  | .table _ ((name, settings) :: _) => do
    match ← (shape.pick settings name).mapError (·.within name) with
    | .bare _ _ => throw ((settings.refuse .nothing).within name)
    | .withSettings _ read => Value.reading read name settings
  | value => .error (value.refuse (.choiceOf shape.title))

end ChoiceShape

end SplitFeed
