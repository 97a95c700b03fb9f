/-
# The command line

The program takes one argument, the file of settings; without it `sfx.toml` is meant, and a file
that is not there is no fault.  It loads the settings, runs the pipeline and prints the summary,
or else says what went wrong, layer by layer.
-/
import SplitFeed.Pipeline
import SplitFeed.Settings.Load
import SplitFeed.Text.Logged

namespace SplitFeed.CommandLine

/-- The file of settings, unless another one is named. -/
def usualFile : String := "sfx.toml"

/-- Why there is no summary. -/
inductive Trouble where
  /-- It cannot be told whether the file of settings is there. -/
  | unknowable (path : String) (cause : OsError)
  | notLoaded (cause : LoadError)
  | notRun (cause : RunError)
deriving DecidableEq

namespace Trouble

/-- The complaints, from the outermost to the innermost.  A number that does not fit ends the
program without a word of its own, and so does a text that is cut where it cannot be. -/
def chain : Trouble → List String
  | unknowable path cause =>
    ["💀 Couldn't even tell whether the config file exists. Permissions, maybe. Or a relative " ++
      "path resolved against the wrong cwd. Was checking here: '" ++ path ++ "'", cause.message]
  | notLoaded (.fallen _) => []
  | notLoaded cause =>
    ("💀 In sfx-cli, main, we couldn't load the config. " ++
      "Check the file, check the SFX_* env vars.") :: cause.chain
  | notRun (.failed failure) => failure.chain
  | notRun (.overflow _) => []

/-- The lines that are logged. -/
def lines (trouble : Trouble) : List String :=
  match trouble.chain.map Text.logged with
  | [] => []
  | outermost :: causes =>
    ("💀 error: " ++ outermost) :: causes.map ("⚠️  cause: " ++ ·)

/-- The exit code: a failure that was reported, or a fall. -/
def exitCode : Trouble → Nat
  | notLoaded (.fallen _) => 101
  | notRun (.overflow _) => 101
  | _ => 1

end Trouble

/-- How the program ended. -/
abbrev Outcome := Except Trouble Report.Summary

namespace Outcome

/-- The exit code. -/
def exitCode : Outcome → Nat
  | .ok _ => 0
  | .error trouble => trouble.exitCode

/-- The lines that are logged. -/
def errors : Outcome → List String
  | .ok _ => []
  | .error trouble => trouble.lines

end Outcome

/-- The settings that the arguments, the variables and the files give. -/
def settings (arguments : List String) (environment : List (String × String)) (store : FileStore) :
    Except Trouble Settings := do
  let path := arguments.headD usualFile
  let isThere ← (store.existsAt path).mapError (.unknowable path)
  let file := if isThere then some path else none
  (Settings.load file environment store).mapError .notLoaded

/-- Runs the program in at most `rounds` rounds: how it ended, unless it was given up, and the
files afterwards. -/
def run (rounds : Nat) (arguments : List String) (environment : List (String × String))
    (store : FileStore) : Option Outcome × FileStore :=
  match settings arguments environment store with
  | .error trouble => (some (.error trouble), store)
  | .ok settings =>
    let (result, store) := Pipeline.runSettings rounds settings store
    (result.map (·.mapError .notRun), store)

end SplitFeed.CommandLine
