/-
# Loading settings

Settings come from the environment and from a file, if one is named; where both give a value, the
file's counts.  A file with a relative path is looked for at home and in the directories above;
one that is nowhere gives nothing.
-/
import SplitFeed.Settings.Environment
import SplitFeed.Settings.Extract
import SplitFeed.Store
import SplitFeed.Toml.Document

namespace SplitFeed

/-- Why settings could not be loaded. -/
inductive LoadError where
  /-- What was loaded, and what is wrong with it. -/
  | refused (file : Option String) (complaint : Complaint)
  /-- A text among the variables was cut where it cannot be, which ends the program. -/
  | fallen (cause : Text.BadCut)
deriving DecidableEq, Inhabited

namespace LoadError

/-- What was tried, in words. -/
def attempt : Option String → String
  | some path =>
    "💀 Failed to parse configuration from file '" ++ path ++ "' and environment variables " ++
      "(SFX_*). The file exists in our hearts, and the parser has opinions about its contents."
  | none =>
    "💀 Failed to parse configuration from environment variables (SFX_*). " ++
      "No file was provided, so this one's all on the environment."

/-- The complaints, from the outermost to the innermost.  A fall has none. -/
def chain : LoadError → List String
  | refused file complaint => [attempt file, complaint.message]
  | fallen _ => []

end LoadError

namespace Settings

/-- The directories in which a path is looked for, nearest first. -/
def searched (path : String) (store : FileStore) : List (List String) :=
  if path.startsWith "/" then [[]]
  else (List.range (store.home.length + 1)).map fun up => store.home.take (store.home.length - up)

/-- The absolute path of a path in a directory. -/
def absolute (directory : List String) (path : String) : String :=
  if path.startsWith "/" then path else "/" ++ "/".intercalate (directory ++ [path])

/-- Drops from two lists what they begin with in common. -/
def dropCommon : List String → List String → List String × List String
  | a :: as, b :: bs => if a = b then dropCommon as bs else (a :: as, b :: bs)
  | as, bs => (as, bs)

/-- How an absolute path is shown: from home, where that takes fewer steps. -/
def shown (path : String) (home : List String) : String :=
  let steps := (FileStore.components path).filter fun step => step ≠ "" ∧ step ≠ "."
  let (down, up) := dropCommon steps home
  let relative := up.map (fun _ => "..") ++ down
  if relative.length < steps.length + 1 then "/".intercalate relative else path

/-- The file that a path leads to, if it is in one of the directories searched: its absolute path
and its content. -/
def find? (path : String) (store : FileStore) : Option (String × List UInt8) :=
  (searched path store).findSome? fun directory =>
    let candidate := absolute directory path
    (store.content? candidate).map fun content => (candidate, content)

/-- The layer that the content of a file makes. -/
def layerOf (origin : Origin) (content : List UInt8) : Except Complaint Value :=
  match String.fromUTF8? ⟨content.toArray⟩ with
  | none => .error ⟨[], some origin, .notText⟩
  | some text =>
    match (Toml.read text).bind (Value.ofDocument origin) with
    | none => .error ⟨[], some origin, .malformed⟩
    | some layer => .ok layer

/-- The layer of the file at a path. -/
def fileLayer (path : String) (store : FileStore) : Except Complaint Value :=
  match find? path store with
  | some (place, content) => layerOf (.file (shown place store.home)) content
  | none => .ok (.table (.file path) [])

/-- Both layers, the file on top. -/
def layers (file : Option String) (environment : List (String × String)) (store : FileStore) :
    Except LoadError Value := do
  let lower ← (Environment.layer environment).mapError .fallen
  match file with
  | none => return lower
  | some path => return lower.overlay (← (fileLayer path store).mapError (.refused file))

/-- Loads settings from variables and a file. -/
def load (file : Option String) (environment : List (String × String)) (store : FileStore) :
    Except LoadError Settings :=
  (layers file environment store).bind fun value => (ofValue value).mapError (.refused file)

end Settings

end SplitFeed
