/-
# Splits

The units of work a fetcher owns: a half-open range of generated numbers or a file of lines.
The fetch loop looks only at a split's id; the reader needs the rest.  A split change tells a
reader which splits it gains or loses.
-/
import SplitFeed.Text.Quoted

namespace SplitFeed

/-- The numbers from `start` up to, but not including, `stop`. -/
structure RangeSplit where
  id : String
  start : Nat
  stop : Nat
deriving DecidableEq, Inhabited

/-- One file of lines. -/
structure FileSplit where
  id : String
  path : String
deriving DecidableEq, Inhabited

/-- The split of a file; its path doubles as its id. -/
def FileSplit.ofPath (path : String) : FileSplit := ⟨path, path⟩

/-- Every sort of split the built-in readers know. -/
inductive Split where
  | range (split : RangeSplit)
  | file (split : FileSplit)
deriving DecidableEq, Inhabited

namespace Split

/-- The id by which a split is known. -/
def id : Split → String
  | range split => split.id
  | file split => split.id

/-- A split with all of its fields, for diagnostics. -/
def describe : Split → String
  | range split => Text.wrapped "Range" (Text.labelled "RangeSplit" [
      ("id", Text.quoted split.id),
      ("start", toString split.start),
      ("end", toString split.stop)])
  | file split => Text.wrapped "File" (Text.labelled "FileSplit" [
      ("id", Text.quoted split.id),
      ("path", Text.quoted split.path)])

/-- The range in a split, unless it is of the other sort. -/
def range? : Split → Option RangeSplit
  | range split => some split
  | file _ => none

/-- The file in a split, unless it is of the other sort. -/
def file? : Split → Option FileSplit
  | range _ => none
  | file split => some split

end Split

/-- A change of what a reader has to read. -/
inductive SplitsChange (σ : Type) where
  | addition (splits : List σ)
  | removal (splits : List σ)
deriving DecidableEq, Inhabited

namespace SplitsChange

variable {σ τ : Type}

/-- The splits gained or lost. -/
def splits : SplitsChange σ → List σ
  | addition splits => splits
  | removal splits => splits

/-- The same kind of change with other splits. -/
def withSplits (change : SplitsChange σ) (splits : List τ) : SplitsChange τ :=
  match change with
  | addition _ => .addition splits
  | removal _ => .removal splits

/-- Converts the splits one after the other; the first one that the converter refuses ends it,
and then nothing is changed at all. -/
def tryMap {m : Type → Type} [Monad m] (convert : σ → m τ) (change : SplitsChange σ) :
    m (SplitsChange τ) := do
  let converted ← change.splits.mapM convert
  return change.withSplits converted

end SplitsChange

end SplitFeed
