/-
# Files

The files that a run reads and writes: entries under numbers, and names that lead to them.  An
open file is known by its number, so it stays readable when its name goes away and shows what
is appended to it later.

Paths are walked component by component: empty components and single dots stay where they are,
double dots go up, and what is walked through has to be a directory.  A path has a greatest
length, and so has each name in it.
-/
import SplitFeed.Failure
import SplitFeed.Text.Utf8

namespace SplitFeed

/-- What a name can lead to. -/
inductive FileEntry where
  | file (content : List UInt8)
  | directory
  /-- A device on which every write fails for want of space. -/
  | full
  /-- A device that has nothing to read and takes whatever is written. -/
  | null
deriving DecidableEq, Inhabited

/-- Entries by number, and absolute names, as components, of those that have one.  `home` is the
directory at which relative paths start. -/
structure FileStore where
  entries : List FileEntry
  names : List (List String × Nat)
  home : List String
deriving Inhabited

namespace FileStore

/-- A store with nothing in its home directory. -/
def empty : FileStore where
  entries := [.directory, .directory, .directory, .directory, .full, .null]
  names := [([], 0), (["tmp"], 1), (["tmp", "home"], 2), (["dev"], 3), (["dev", "full"], 4),
    (["dev", "null"], 5)]
  home := ["tmp", "home"]

/-- The number of the entry with a given absolute name. -/
def lookup (name : List String) (store : FileStore) : Option Nat :=
  (store.names.find? (·.1 == name)).map (·.2)

/-- The entry with a given number. -/
def entry? (number : Nat) (store : FileStore) : Option FileEntry :=
  store.entries[number]?

/-- The content of the file with a given number; no other entry has any. -/
def bytes (number : Nat) (store : FileStore) : List UInt8 :=
  match store.entry? number with
  | some (.file content) => content
  | _ => []

/-- Whether an absolute name leads to a directory. -/
def isDirectory (name : List String) (store : FileStore) : Bool :=
  ((store.lookup name).bind fun number => store.entry? number) == some .directory

/-- The components of a path. -/
def components (path : String) : List String :=
  (path.toList.splitOn '/').map String.ofList

/-- Where a path leads: to an entry, or to a name that is free in an existing directory. -/
inductive Place where
  | taken (number : Nat)
  | free (name : List String)
deriving DecidableEq

/-- Longest name of a single component. -/
def longestName : Nat := 255

/-- Walks components from a directory or file with a given absolute name. -/
def walk (store : FileStore) (here : List String) : List String → Except OsError Place
  | [] =>
    match store.lookup here with
    | some number => .ok (.taken number)
    | none => .error .noSuchFile
  | component :: rest =>
    match store.lookup here with
    | none => .error .noSuchFile
    | some _ =>
      if !store.isDirectory here then .error .notADirectory
      else if component = "" ∨ component = "." then walk store here rest
      else if component = ".." then walk store here.dropLast rest
      else if longestName < component.utf8ByteSize then .error .nameTooLong
      else
        let next := here ++ [component]
        match store.lookup next with
        | some _ => walk store next rest
        | none => if rest = [] then .ok (.free next) else .error .noSuchFile

/-- Longest path, in bytes. -/
def longestPath : Nat := 4095

/-- The directory at which a path starts, and the components to walk from there.  The empty path
leads nowhere. -/
def route (path : String) (store : FileStore) : Except OsError (List String × List String) :=
  if path.toList.contains '\x00' then .error .zeroInPath
  else if longestPath < path.utf8ByteSize then .error .nameTooLong
  else if path.isEmpty then .error .noSuchFile
  else .ok (if path.startsWith "/" then [] else store.home, components path)

/-- Where a path leads. -/
def locate (path : String) (store : FileStore) : Except OsError Place := do
  let (start, steps) ← store.route path
  store.walk start steps

/-- Opens an existing file or directory for reading. -/
def openRead (path : String) (store : FileStore) : Except OsError Nat := do
  match ← store.locate path with
  | .taken number => return number
  | .free _ => throw .noSuchFile

/-- Whether there is anything at a path; an error if that cannot be told. -/
def existsAt (path : String) (store : FileStore) : Except OsError Bool :=
  match store.locate path with
  | .ok (.taken _) => .ok true
  | .ok (.free _) => .ok false
  | .error .noSuchFile => .ok false
  | .error error => .error error

/-- Puts an entry under a free absolute name. -/
def place (name : List String) (entry : FileEntry) (store : FileStore) : Nat × FileStore :=
  (store.entries.length,
    { store with
      entries := store.entries ++ [entry]
      names := store.names ++ [(name, store.entries.length)] })

/-- What stands in front of a name with a slash behind it, which is the name of a directory,
whether there is one or not. -/
def aboveDirectory? (steps : List String) : Option (List String) :=
  match steps.reverse.span (· = "") with
  | (_ :: _, name :: above) => if name = "." ∨ name = ".." then none else some above.reverse
  | _ => none

/-- Creates a file, or empties the one that is there.  A directory is not created, nor looked for
by its name, but the one above it has to be there. -/
def create (path : String) (store : FileStore) : Except OsError (Nat × FileStore) := do
  let (start, steps) ← store.route path
  if let some above := aboveDirectory? steps then
    let _ ← store.walk start (above ++ ["."])
    throw .isADirectory
  match ← store.walk start steps with
  | .free name => return store.place name (.file [])
  | .taken number =>
    match store.entry? number with
    | some (.file _) =>
      return (number, { store with entries := store.entries.set number (.file []) })
    | some .directory => throw .isADirectory
    | _ => return (number, store)

/-- Writes bytes behind the end of an open file. -/
def append (number : Nat) (bytes : List UInt8) (store : FileStore) : Except OsError FileStore :=
  match store.entry? number with
  | some (.file content) =>
    .ok { store with entries := store.entries.set number (.file (content ++ bytes)) }
  | some .directory => .error .isADirectory
  | some .full => if bytes.isEmpty then .ok store else .error .noSpaceLeft
  | some .null | none => .ok store

/-- Writes bytes behind the end of the file at a path, if there is one. -/
def appendAt (path : String) (bytes : List UInt8) (store : FileStore) : FileStore :=
  match store.openRead path with
  | .ok number => (store.append number bytes).toOption.getD store
  | .error _ => store

/-- Takes a file's name away; answers whether there was a file of that name. -/
def remove (path : String) (store : FileStore) : Bool × FileStore :=
  match store.locate path with
  | .ok (.taken number) =>
    match store.entry? number with
    | some (.file _) => (true, { store with names := store.names.filter (·.2 != number) })
    | _ => (false, store)
  | _ => (false, store)

/-- The content of the file at a path, if there is one. -/
def content? (path : String) (store : FileStore) : Option (List UInt8) :=
  match store.openRead path with
  | .ok number =>
    match store.entry? number with
    | some (.file content) => some content
    | _ => none
  | .error _ => none

/-- Makes the directories that lead to an absolute name. -/
def makeParents (name : List String) (store : FileStore) : FileStore :=
  (List.range name.length).foldl
    (fun store depth =>
      let parent := name.take depth
      if (store.lookup parent).isSome then store else (store.place parent .directory).2)
    store

/-- Puts an entry at a path below the home directory, making the directories it needs. -/
def provide (path : String) (entry : FileEntry) (store : FileStore) : FileStore :=
  let steps := (components path).filter fun component => component ≠ "" ∧ component ≠ "."
  let name := if path.startsWith "/" then steps else store.home ++ steps
  let store := store.makeParents name
  match store.lookup name with
  | some number => { store with entries := store.entries.set number entry }
  | none => (store.place name entry).2

end FileStore

end SplitFeed
