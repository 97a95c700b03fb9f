/-
# Readers

What a fetch loop asks of a reader, and the docket that the built-in readers keep: the splits
they are to read, batches that came back to be handed out again, and the splits they must not
hand out any more.

A call into a reader may return, fail or panic.  Wake-ups that arrive while a fetch is under way
are given to it as a list, one entry for each time it looks at its wake flag.
-/
import SplitFeed.Batch
import SplitFeed.Signal
import SplitFeed.Store

namespace SplitFeed

/-- How a call into a reader ends. -/
inductive Called (α : Type) where
  | returned (result : α)
  | failed (failure : Failure)
  | panicked (text : String)
deriving DecidableEq

/-- What a fetch loop needs from a reader.  Calls answer the reader afterwards and the recycling
tickets that fell due in them. -/
class SplitReader (ρ : Type) where
  /-- Brings back one batch, from the files as they are. -/
  fetch (store : FileStore) (disturbed : List Bool) : ρ → Called (SplitBatch Record) × ρ
  /-- Takes note of gained or lost splits. -/
  change (change : SplitsChange Split) : ρ → Called Unit × List Nat × ρ
  /-- Interrupts the fetch under way, or the next one. -/
  wake : ρ → ρ
  /-- Takes a batch back that was not handed on. -/
  rewind (stale : SplitBatch Record) : ρ → Called Unit × List Nat × ρ
  /-- Ends all reading. -/
  close : ρ → Called Unit × ρ

/-- Taking a batch back by letting go of it, for readers that can afford to lose records. -/
def SplitBatch.letGo {ρ : Type} (stale : SplitBatch Record) (reader : ρ) :
    Called Unit × List Nat × ρ :=
  (.returned (), stale.recycle, reader)

/-- Things that belong to a split. -/
class HasSplitId (κ : Type) where
  splitId : κ → String

export HasSplitId (splitId)

/-- What a reader has to do: `cursors` are the splits under way in the order in which they are
read, `replay` the batches to be handed out again before anything new, `removed` the splits
that were taken away and not given back. -/
structure Docket (κ : Type) where
  cursors : List κ := []
  replay : List (SplitBatch Record) := []
  removed : IdSet := ∅
  flag : WakeFlag := {}
  closed : Bool := false

namespace Docket

variable {κ : Type} [HasSplitId κ]

/-- Whether a split is under way. -/
def isUnderWay (id : String) (docket : Docket κ) : Bool :=
  docket.cursors.any fun cursor => splitId cursor == id

/-- Puts one split at the end of the docket, unless it is under way.  It is not removed any
more in either case. -/
def enter (cursor : κ) (docket : Docket κ) : Docket κ :=
  let removed := docket.removed.erase (splitId cursor)
  if docket.isUnderWay (splitId cursor) then { docket with removed }
  else { docket with removed, cursors := docket.cursors ++ [cursor] }

/-- Puts splits on the docket, one after the other. -/
def gain (cursors : List κ) (docket : Docket κ) : Docket κ :=
  cursors.foldl (fun docket cursor => docket.enter cursor) docket

/-- Whether a split may be handed out. -/
def admits (id : String) (docket : Docket κ) : Bool :=
  !docket.removed.contains id

/-- Takes splits off the docket.  Batches waiting to be handed out again lose what they hold of
removed splits; those that hold nothing else are recycled. -/
def lose (ids : List String) (docket : Docket κ) : List Nat × Docket κ :=
  let docket := { docket with
    cursors := docket.cursors.filter fun cursor => !ids.contains (splitId cursor)
    removed := ids.foldl (fun removed id => removed.insert id) docket.removed }
  let swept := docket.replay.map (·.retainSplits docket.admits)
  let dropped := swept.filter (·.isEmpty)
  (dropped.flatMap (·.recycle), { docket with replay := swept.filter (!·.isEmpty) })

/-- Takes a batch back to be handed out again, without what it holds of removed splits; with
nothing left in it, it is dropped. -/
def takeBack (stale : SplitBatch Record) (docket : Docket κ) : Docket κ :=
  let kept := stale.retainSplits docket.admits
  if kept.isEmpty then docket else { docket with replay := docket.replay ++ [kept] }

/-- Raises the wake flag. -/
def wake (docket : Docket κ) : Docket κ :=
  { docket with flag := docket.flag.wake }

/-- Forgets all there was to do. -/
def close (docket : Docket κ) : Docket κ :=
  { docket with closed := true, cursors := [], replay := [] }

end Docket

end SplitFeed
