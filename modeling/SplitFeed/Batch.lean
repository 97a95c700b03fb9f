/-
# Batches of records

A batch is what one fetch brings back: records grouped by split, in the order they were read,
and the ids of the splits that ended.  A consumer walks it group by group and record by record;
whoever lets go of it runs its recycling ticket, if it carries one.

A batch without records and without ended splits is legal and means that nothing happened.
-/
import SplitFeed.IdSet
import SplitFeed.Text.Quoted

namespace SplitFeed

/-- One record: its position inside its split and its text. -/
structure Record where
  offset : Nat
  payload : String
deriving DecidableEq, Inhabited

/-- Consecutive records of one split. -/
abbrev Group (α : Type) := String × List α

/-- Records by split plus the splits that ended.

`current` is the group under the reading cursor, `waiting` the groups behind it.  `ticket` names
the action that runs when the batch is recycled; carrying it out is up to whoever recycles. -/
structure SplitBatch (α : Type) where
  waiting : List (Group α) := []
  current : Option (Group α) := none
  finished : IdSet := ∅
  ticket : Option Nat := none
deriving DecidableEq

namespace SplitBatch

variable {α : Type}

/-- The batch in which nothing happened. -/
def empty : SplitBatch α := {}

instance : Inhabited (SplitBatch α) := ⟨empty⟩

/-- A batch that only tells that splits ended. -/
def finishedOnly (ids : List String) : SplitBatch α :=
  { finished := IdSet.ofList ids }

/-- Appends records of one split behind the waiting groups, joining the last of them when it
has the same id. -/
def appendGroup (id : String) (records : List α) : List (Group α) → List (Group α)
  | [] => [(id, records)]
  | [last] =>
    if last.1 = id then [(last.1, last.2 ++ records)] else [last, (id, records)]
  | group :: next :: rest => group :: appendGroup id records (next :: rest)

/-- Appends one record.  Consecutive records of one split share a group; the group under the
cursor is never extended. -/
def addRecord (id : String) (record : α) (batch : SplitBatch α) : SplitBatch α :=
  { batch with waiting := appendGroup id [record] batch.waiting }

/-- Appends records of one split; without records nothing changes, so that no group is empty
when it arrives. -/
def addRecords (id : String) (records : List α) (batch : SplitBatch α) : SplitBatch α :=
  match records with
  | [] => batch
  | records => { batch with waiting := appendGroup id records batch.waiting }

/-- Notes that a split ended: no more records will arrive for it. -/
def finishSplit (id : String) (batch : SplitBatch α) : SplitBatch α :=
  { batch with finished := batch.finished.insert id }

/-- Attaches a recycling ticket in place of an earlier one. -/
def withTicket (ticket : Nat) (batch : SplitBatch α) : SplitBatch α :=
  { batch with ticket := some ticket }

/-- Moves the cursor to the next group and answers its id.  What was left of the group before
is skipped. -/
def nextSplit (batch : SplitBatch α) : Option String × SplitBatch α :=
  match batch.waiting with
  | [] => (none, { batch with current := none })
  | group :: rest => (some group.1, { batch with current := some group, waiting := rest })

/-- Takes the next record of the group under the cursor. -/
def nextRecord (batch : SplitBatch α) : Option α × SplitBatch α :=
  match batch.current with
  | some (id, record :: rest) => (some record, { batch with current := some (id, rest) })
  | _ => (none, batch)

/-- The groups that were not read to their end yet, the one under the cursor first, even when
all of its records were taken. -/
def groups (batch : SplitBatch α) : List (Group α) :=
  batch.current.toList ++ batch.waiting

/-- Number of records not yet taken. -/
def recordCount (batch : SplitBatch α) : Nat :=
  (batch.groups.flatMap (·.2)).length

/-- The ids of the groups, in reading order. -/
def splitIds (batch : SplitBatch α) : List String :=
  batch.groups.map (·.1)

/-- Whether the batch says nothing at all. -/
def isEmpty (batch : SplitBatch α) : Bool :=
  batch.recordCount == 0 && batch.finished.isEmpty

/-- Keeps the groups and ended splits whose id passes a test. -/
def retainSplits (keep : String → Bool) (batch : SplitBatch α) : SplitBatch α :=
  { batch with
    waiting := batch.waiting.filter (keep ·.1)
    current := batch.current.filter (keep ·.1)
    finished := batch.finished.filter keep }

/-- The ids about which `retainSplits` consults its test, in that order: the waiting groups,
the group under the cursor, the ended splits. -/
def consulted (batch : SplitBatch α) : List String :=
  batch.waiting.map (·.1) ++ batch.current.toList.map (·.1) ++ batch.finished.toList

/-- What is left of a batch that was taken apart. -/
structure Parts (α : Type) where
  groups : List (Group α)
  finished : IdSet
  ticket : Option Nat
deriving DecidableEq

/-- Takes the batch apart; its ticket falls due because the container is gone. -/
def intoParts (batch : SplitBatch α) : Parts α :=
  ⟨batch.groups, batch.finished, batch.ticket⟩

/-- Gives the batch back; answers the tickets that fall due. -/
def recycle (batch : SplitBatch α) : List Nat :=
  batch.ticket.toList

/-- The shipping label: what the batch holds, without its records. -/
def label (batch : SplitBatch α) : String :=
  Text.labelled "SplitBatch" [
    ("split_ids", Text.bracketed (batch.splitIds.map Text.quoted)),
    ("record_count", toString batch.recordCount),
    ("finished", Text.braced (batch.finished.toList.map Text.quoted)),
    ("has_recycler", Text.truth batch.ticket.isSome)]

end SplitBatch

end SplitFeed
