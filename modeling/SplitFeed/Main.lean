/-
# The program

Takes copies of the files that a run may touch, lets the run work on the copies, and writes back
what it left in its output.  All decisions are made elsewhere.
-/
import SplitFeed.CommandLine

namespace SplitFeed.Main

/-- More rounds than a run can use up. -/
def rounds : Nat := 1000000000000000000

/-- The variables of this process, in its order. -/
def environment : IO (List (String × String)) := do
  let content ← IO.FS.readBinFile "/proc/self/environ"
  let texts := (content.toList.splitOn 0).filterMap fun bytes =>
    String.fromUTF8? ⟨bytes.toArray⟩
  return texts.map fun text =>
    let (name, value) := text.toList.span (· != '=')
    (String.ofList name, String.ofList (value.drop 1))

/-- The absolute path that a path leads to. -/
def resolved (home : List String) (path : String) : String :=
  let start := if path.startsWith "/" then [] else home
  let walked := (FileStore.components path).foldl
    (fun here part =>
      if part = "" ∨ part = "." then here
      else if part = ".." then here.dropLast
      else here ++ [part])
    start
  "/" ++ "/".intercalate walked

/-- Copies what is at a path into the store, if it is a file or a directory. -/
def copyIn (store : FileStore) (path : String) : IO FileStore := do
  let absolute := resolved store.home path
  let there := (← IO.currentDir) / absolute
  match ← there.metadata.toBaseIO with
  | .error _ => return store
  | .ok info =>
    match info.type with
    | .dir => return store.provide absolute .directory
    | .file => return store.provide absolute (.file (← IO.FS.readBinFile there).toList)
    | _ => return store

/-- The paths on the way to a path, and the path itself. -/
def steps (path : String) : List String :=
  let parts := FileStore.components path
  (List.range parts.length).map fun n => "/".intercalate (parts.take (n + 1))

/-- Copies a path and everything on the way to it. -/
def copyAll (store : FileStore) (path : String) : IO FileStore :=
  ((steps path).filter (· ≠ "")).foldlM copyIn store

/-- The paths of the files that a run may read or write. -/
def touched (settings : Settings) : List String :=
  let read := match settings.source with
    | .ranges _ => []
    | .files source => source.files
  let written := match settings.sink with
    | .memory => []
    | .file name => [name]
  read ++ written

/-- Writes back the output of a run. -/
def copyOut (store : FileStore) (settings : Settings) : IO Unit := do
  match settings.sink with
  | .memory => return
  | .file name =>
    match store.content? name with
    | some content => IO.FS.writeBinFile name ⟨content.toArray⟩
    | none => return

/-- The files that loading the settings may look at: the one that is named, here and in the
directories above. -/
def candidates (path : String) (home : List String) : List String :=
  if path.startsWith "/" then [path]
  else path :: (List.range home.length).map fun n => Settings.absolute (home.take n) path

end SplitFeed.Main

open SplitFeed in
/-- Runs the program: prints the summary, or logs what went wrong. -/
def main (arguments : List String) : IO UInt32 := do
  let began ← IO.monoNanosNow
  let here := (FileStore.components (← IO.currentDir).toString).filter (· ≠ "")
  let empty := { FileStore.empty with home := here }.provide "." .directory
  let environment ← Main.environment
  let path := arguments.headD CommandLine.usualFile
  let store ← (Main.candidates path here).foldlM Main.copyAll empty
  let settings := CommandLine.settings arguments environment store
  let store ← match settings with
    | .ok settings => (Main.touched settings).foldlM Main.copyAll store
    | .error _ => pure store
  let (outcome, store) := CommandLine.run Main.rounds arguments environment store
  if let .ok settings := settings then
    Main.copyOut store settings
  match outcome with
  | none => return 1
  | some outcome =>
    if let .ok summary := outcome then
      let elapsed := Report.Span.ofNanos ((← IO.monoNanosNow) - began)
      for line in { summary with elapsed }.table.lines do
        IO.println line
    for line in outcome.errors do
      IO.println ("ERROR sfx_cli: " ++ line)
    return outcome.exitCode.toUInt32
