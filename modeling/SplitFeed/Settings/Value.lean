/-
# Setting values

Settings come in layers: the environment below, a file on top.  A layer is a tree of values, and
each value remembers the layer it is from.  Where both layers have a table, the tables are joined
key by key; anywhere else the upper layer hides the lower one.
-/
import SplitFeed.Entries
import SplitFeed.Toml.Node

namespace SplitFeed

/-- The mark with which the names of variables begin that hold settings. -/
def Environment.mark : String := "SFX_"

/-- Where a value was given. -/
inductive Origin where
  | environment
  /-- A file, by its path from the home directory. -/
  | file (path : String)
deriving DecidableEq, Inhabited

/-- A value without parts. -/
inductive Scalar where
  | text (text : String)
  | letter (letter : Char)
  | truth (value : Bool)
  | unsigned (value : Nat)
  | signed (value : Int)
  | float (value : Float)
deriving DecidableEq, Inhabited

/-- A tree of values. -/
inductive Value where
  | scalar (origin : Origin) (scalar : Scalar)
  | list (origin : Origin) (items : List Value)
  | table (origin : Origin) (entries : List (String × Value))
deriving Inhabited

namespace Value

/-- Where a value was given; for a table that is in both layers, the upper one. -/
def origin : Value → Origin
  | scalar origin _ => origin
  | list origin _ => origin
  | table origin _ => origin

/-- The entries of a table; other values have none. -/
def entries : Value → Entries Value
  | table _ entries => entries
  | _ => []

/-- The value at the end of a path of keys. -/
def get? : List String → Value → Option Value
  | [], value => some value
  | key :: rest, value => (value.entries.find? key).bind (get? rest)

/-- A value under a path of keys. -/
def under (origin : Origin) (path : List String) (value : Value) : Value :=
  path.foldr (fun key value => table origin [(key, value)]) value

mutual

/-- A layer with another one on top. -/
def overlay (lower : Value) : Value → Value
  | scalar origin content => scalar origin content
  | list origin items => list origin items
  | table origin upper =>
    match lower with
    | table _ entries => table origin (overlayEntries entries upper)
    | _ => table origin upper

/-- Entries with others on top. -/
def overlayEntries (lower : List (String × Value)) : List (String × Value) → List (String × Value)
  | [] => lower
  | (key, value) :: rest =>
    let hidden := Entries.find? key lower
    Entries.put key ((hidden.map fun hidden => overlay hidden value).getD value)
      (overlayEntries lower rest)

end

/-- Under each key of joined tables stands what the upper one has there, on top of what the lower
one has; where the upper one has nothing, the lower one shows. -/
theorem find?_overlayEntries (key : String) (lower upper : Entries Value) :
    Entries.find? key (overlayEntries lower upper) =
      match Entries.find? key upper with
      | some value =>
        some (((Entries.find? key lower).map fun hidden => overlay hidden value).getD value)
      | none => Entries.find? key lower := by
  induction upper with
  | nil => simp [overlayEntries]
  | cons entry rest ih =>
    obtain ⟨head, value⟩ := entry
    by_cases h : head = key
    · subst h
      simp [overlayEntries, Entries.find?]
    · simp [overlayEntries, Entries.find?, h, Entries.find?_put_of_ne h, ih]

/-- The key under which a date or time of a file is found, in a table of its own. -/
def momentKey : String := "$__toml_private_datetime"

/-- The key whose value stands for the whole table that it is in. -/
def contentKey : String := "___figment_value_value"

/-- The key of a table for which no file has a value that fits. -/
def forbiddenKey : String := "___figment_value_id"

mutual

/-- The value that a node of a file makes, unless there is a forbidden key in it. -/
def ofNode (origin : Origin) : Toml.Node → Option Value
  | .text text => some (scalar origin (.text text))
  | .integer value => some (scalar origin (.signed value))
  | .float value => some (scalar origin (.float value))
  | .truth value => some (scalar origin (.truth value))
  | .moment text => some (table origin [(momentKey, scalar origin (.text text))])
  | .array items => do return list origin (← ofNodes origin items)
  | .table _ nodes => do
    let entries ← ofEntries origin nodes
    if (Entries.find? forbiddenKey entries).isSome then none
    else return (Entries.find? contentKey entries).getD (table origin entries)
  | .rows tables => do return list origin (← ofNodes origin tables).reverse

/-- The values of the items of an array. -/
def ofNodes (origin : Origin) : List Toml.Node → Option (List Value)
  | [] => some []
  | node :: rest => do return (← ofNode origin node) :: (← ofNodes origin rest)

/-- The values of the entries of a table. -/
def ofEntries (origin : Origin) : List (String × Toml.Node) → Option (List (String × Value))
  | [] => some []
  | (key, node) :: rest => do return (key, ← ofNode origin node) :: (← ofEntries origin rest)

end

/-- The layer that the tree of a file makes.  At the top all keys are alike. -/
def ofDocument (origin : Origin) : Toml.Node → Option Value
  | .table _ nodes => do return table origin (← ofEntries origin nodes)
  | node => ofNode origin node

end Value

end SplitFeed
