/-
# Complaints about settings

What is wrong with a value that was given, where it stands among the settings and where it was
given.  The wording is in one place, `Complaint.message`.
-/
import SplitFeed.Decimal.Shortest
import SplitFeed.Settings.Value
import SplitFeed.Text.Quoted

namespace SplitFeed

/-- What was found. -/
inductive Found where
  | scalar (scalar : Scalar)
  | sequence
  | map
  /-- The name of a choice without the settings that belong to it. -/
  | bareChoice
deriving DecidableEq, Inhabited

/-- What was expected. -/
inductive Expected where
  /-- A count of things kept in memory. -/
  | size
  /-- A number below `2 ^ 64`. -/
  | number
  | truth
  | text
  | sequence
  /-- Nothing more than the name of a choice. -/
  | nothing
  /-- The name of a choice together with its settings. -/
  | choiceWithSettings
  /-- A table whose key is the name of a choice. -/
  | choice
  | choiceOf (title : String)
  | record (title : String)
  /-- A record by its fields in order, of which there are a number. -/
  | recordOf (title : String) (fields : Nat)
deriving DecidableEq, Inhabited

/-- What is wrong with a value. -/
inductive Fault where
  | wrongType (found : Found) (expected : Expected)
  | wrongValue (found : Found) (expected : Expected)
  | wrongLength (length : Nat) (expected : Expected)
  | missingField (name : String)
  | duplicateField (name : String)
  | unknownChoice (name : String) (known : List String)
  /-- A file that is not a document of the expected form. -/
  | malformed
  /-- A file that is not text. -/
  | notText
deriving DecidableEq, Inhabited

/-- A fault, the keys that lead to it, and where the faulty value was given; the settings as a
whole are given in no single place. -/
structure Complaint where
  path : List String
  origin : Option Origin
  fault : Fault
deriving DecidableEq, Inhabited

/-- The wording for a value.  A single letter counts as text. -/
def Scalar.message : Scalar → String
  | text content => "string " ++ Text.quoted content
  | letter c => "string " ++ Text.quoted c.toString
  | truth value => "bool " ++ Text.truth value
  | unsigned n => "unsigned int " ++ Text.ticked (toString n)
  | signed i => "signed int " ++ Text.ticked (toString i)
  | float x => "float " ++ Text.ticked (Decimal.shortestFloat x)

/-- The wording for what was found. -/
def Found.message : Found → String
  | scalar value => value.message
  | sequence => "sequence"
  | map => "map"
  | bareChoice => "unit variant"

/-- The wording for what was expected. -/
def Expected.message : Expected → String
  | size => "usize"
  | number => "u64"
  | truth => "a boolean"
  | text => "a string"
  | sequence => "a sequence"
  | nothing => "unit"
  | choiceWithSettings => "newtype variant"
  | choice => "enum"
  | choiceOf title => "enum " ++ title
  | record title => "struct " ++ title
  | recordOf title fields =>
    let unit := if fields = 1 then " element" else " elements"
    "struct " ++ title ++ " with " ++ toString fields ++ unit

/-- The wording for what is wrong. -/
def Fault.message : Fault → String
  | wrongType found expected =>
    "invalid type: found " ++ found.message ++ ", expected " ++ expected.message
  | wrongValue found expected =>
    "invalid value " ++ found.message ++ ", expected " ++ expected.message
  | wrongLength length expected =>
    "invalid length " ++ toString length ++ ", expected " ++ expected.message
  | missingField name => "missing field " ++ Text.ticked name
  | duplicateField name => "duplicate field " ++ Text.ticked name
  | unknownChoice name known =>
    "unknown variant: found " ++ Text.ticked name ++ ", expected "
      ++ Text.ticked (" or ".intercalate (known.map Text.ticked))
  | malformed => "malformed TOML"
  | notText => "stream did not contain valid UTF-8\n"

namespace Complaint

/-- The complaint from outside of a table or list in which the faulty value is. -/
def within (key : String) (complaint : Complaint) : Complaint :=
  { complaint with path := key :: complaint.path }

/-- The key that leads to the fault, as it is spelled where it was given: variables are in upper
case, and all that a file says belongs to the profile `default`. -/
def spelledKey (path : List String) : Origin → String
  | .environment => ".".intercalate (path.map String.toUpper)
  | .file _ => ".".intercalate ("default" :: path)

/-- The wording for the place where a value was given. -/
def place : Origin → String
  | .environment => Text.ticked Environment.mark ++ " environment variable(s)"
  | .file path => path ++ " TOML file"

/-- The complaint in words: the fault, then the key and the place of the faulty value. -/
def message (complaint : Complaint) : String :=
  match complaint.origin with
  | none => complaint.fault.message
  | some origin =>
    let key := if complaint.path.isEmpty then ""
      else " for key " ++ Text.quoted (spelledKey complaint.path origin)
    complaint.fault.message ++ key ++ " in " ++ place origin

end Complaint

end SplitFeed
