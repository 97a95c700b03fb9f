/-
# A fetcher

One reader, the splits it is to read, and the thread that moves its batches into the hand-off
queue.  A fetcher is looked at and changed from two sides: its thread, whose progress is a phase,
and whoever holds its controls.

The duty is what both sides share under one lock.  The wake request, the latch and the sign of
termination are shared too, but change one at a time.
-/
import SplitFeed.Handoff.Queue
import SplitFeed.Reader

namespace SplitFeed

/-- How a fetcher is to stop: dropping what it holds, or after handing it on and waiting until
the queue was drained. -/
inductive StopMode where
  | immediate
  | draining
deriving DecidableEq, Inhabited

/-- What one cycle did. -/
inductive CycleOutcome where
  /-- Paused: nothing was fetched. -/
  | paused
  /-- There was nothing to read. -/
  | idle
  /-- A batch went into the queue. -/
  | published
  /-- The fetch came back with nothing for anyone. -/
  | empty
  /-- A wake-up raced the fetch; the batch went back to the reader. -/
  | stale
  /-- The put was woken; the batch is kept for the next cycle. -/
  | publishDeferred
  /-- The queue is closed; the batch was dropped. -/
  | queueClosed
deriving DecidableEq, Inhabited

/-- What a fetcher's thread and its controls share.

`assigned` is in the order in which splits are read, `pending` holds the changes that the reader
has not heard of yet.  `unpublished` tells that a batch is waiting for another try. -/
structure Duty where
  assigned : List Split := []
  pending : List (SplitsChange Split) := []
  paused : Bool := false
  stop : Option StopMode := none
  fetching : Bool := false
  idle : Bool := true
  unpublished : Bool := false
  awaitingDrain : Bool := false
  closed : Bool := false
deriving DecidableEq, Inhabited

/-- Where a fetcher's thread stands.  Each phase names what the thread does next; going on to
the next phase is one step. -/
inductive Phase where
  /-- No cycle is under way. -/
  | resting
  /-- Looks whether it is to stop. -/
  | deciding
  /-- Forgets wake requests from before this cycle. -/
  | starting
  /-- Takes the pending changes, unless paused. -/
  | collecting
  /-- Hands changes to the reader, one at a time. -/
  | handing (changes : List (SplitsChange Split))
  /-- Looks whether there is anything to read. -/
  | checking
  /-- Is inside the reader's fetch. -/
  | fetching
  /-- Came back from a failing fetch. -/
  | fetchLost (cause : Failure)
  /-- Came back with a batch, and looks whether a wake-up raced the fetch. -/
  | weighing (batch : SplitBatch Record)
  /-- Gives a stale batch back to the reader. -/
  | rewinding (batch : SplitBatch Record)
  /-- Ends a cycle whose batch was stale. -/
  | rewound
  /-- Takes the splits that ended off the list. -/
  | booking (batch : SplitBatch Record)
  /-- Puts a batch into the queue; `last` tells that nothing was left to read then. -/
  | publishing (batch : SplitBatch Record) (last : Bool)
  /-- Notes whether a batch is left over. -/
  | noting (outcome : CycleOutcome) (last : Bool)
  /-- Says that it is idle. -/
  | idling (outcome : CycleOutcome)
  /-- Rings the bell, having become idle. -/
  | ringing (outcome : CycleOutcome)
  /-- Has ended a cycle. -/
  | cycled (result : Except Failure CycleOutcome)
  /-- Was told by the queue to stop. -/
  | stopping
  /-- Lies down, unless there is something to do after all. -/
  | parking
  /-- Sleeps until something changes. -/
  | parked
  /-- Winds down, after a failure or not. -/
  | finishing (failed : Bool)
  /-- Puts the batch that is left over into the queue, as often as it takes. -/
  | flushing
  /-- Notes that nothing is left over. -/
  | flushed
  /-- Says that it waits for the drain. -/
  | announcing
  /-- Rings the bell, waiting for the drain. -/
  | tolling
  /-- Waits on the drain latch. -/
  | latched
  /-- Closes the reader. -/
  | closing
  /-- Settles the books. -/
  | leaving (failure : Option Failure)
  /-- Gives the sign of termination. -/
  | terminating (failure : Option Failure)
  /-- The loop is over. -/
  | ended (failure : Option Failure)
  /-- The thread is gone. -/
  | gone
  /-- A call into the reader panicked. -/
  | panicked (text : String)

/-- A fetcher over a reader.  `looping` tells that a thread runs cycle after cycle, `napping`
that the thread sleeps until its controls are touched, `leftover` is the batch whose put was
woken. -/
structure Fetcher (ρ : Type) where
  id : Nat
  reader : ρ
  duty : Duty := {}
  wakeRequested : Bool := false
  napping : Bool := false
  drainLatch : OneShot := .fresh
  terminated : OneShot := .fresh
  leftover : Option (SplitBatch Record) := none
  looping : Bool := false
  phase : Phase := .resting

/-- What fetchers share with each other and with the consumer: the queue, the files, the
failures reported so far and not yet heard, oldest first, and the tickets of recycled batches. -/
structure Depot where
  queue : HandoffQueue (SplitBatch Record)
  store : FileStore := .empty
  failures : List Failure := []
  recycled : List Nat := []

namespace Duty

/-- Whether a thread without a cycle to run may lie down: nobody asked it to stop, and it is
paused or has nothing to do. -/
def mayPark (duty : Duty) : Bool :=
  duty.stop.isNone &&
    (duty.paused || (duty.assigned.isEmpty && duty.pending.isEmpty && !duty.unpublished))

/-- Whether no splits are taken on any more. -/
def refuses (duty : Duty) : Bool :=
  duty.closed || duty.stop.isSome

/-- The splits of a list whose ids are neither assigned nor earlier in the list. -/
def newcomers (assigned : List Split) : List Split → List Split
  | [] => []
  | split :: rest =>
    if assigned.any (·.id == split.id) then newcomers assigned rest
    else split :: newcomers (assigned ++ [split]) rest

/-- Takes splits on behind those already there, as one pending addition. -/
def assign (splits : List Split) (duty : Duty) : Duty :=
  { duty with
    assigned := duty.assigned ++ splits
    pending := duty.pending ++ [.addition splits]
    idle := false }

/-- The assigned splits with one of the given ids, in reading order. -/
def named (ids : List String) (duty : Duty) : List Split :=
  duty.assigned.filter fun split => ids.contains split.id

/-- Lets splits go, as one pending removal if there are any. -/
def unassign (ids : List String) (duty : Duty) : Duty :=
  let removed := duty.named ids
  { duty with
    assigned := duty.assigned.filter fun split => !ids.contains split.id
    pending := if removed.isEmpty then duty.pending else duty.pending ++ [.removal removed] }

/-- Books a fetched batch: splits that ended are not assigned any more. -/
def book (finished : IdSet) (duty : Duty) : Duty :=
  { duty with
    assigned := duty.assigned.filter fun split => !finished.contains split.id
    fetching := false }

/-- The books when the thread leaves. -/
def settle (duty : Duty) : Duty :=
  { duty with
    closed := true
    awaitingDrain := false
    fetching := false
    unpublished := false
    idle := true }

end Duty

namespace Fetcher

variable {ρ : Type}

/-- Whether the fetcher has nothing assigned, fetches nothing and holds nothing back. -/
def isIdle (fetcher : Fetcher ρ) : Bool :=
  fetcher.duty.idle && !fetcher.duty.fetching && !fetcher.duty.unpublished

/-- Whether the thread is gone for good, in one way or another. -/
def isOver (fetcher : Fetcher ρ) : Bool :=
  match fetcher.phase with
  | .gone | .panicked _ => true
  | _ => false

/-- The fetcher as its controls see it, for diagnostics. -/
def describeControls (fetcher : Fetcher ρ) : String :=
  let stop := fetcher.duty.stop.map fun mode => Text.truth (mode == .draining)
  Text.labelled "FetcherHandle" [
    ("id", toString fetcher.id),
    ("assigned", toString fetcher.duty.assigned.length),
    ("paused", Text.truth fetcher.duty.paused),
    ("idle", Text.truth fetcher.duty.idle),
    ("shutdown", Text.optional stop),
    ("closed", Text.truth fetcher.duty.closed)]

/-- The fetcher as its thread sees it, with a given text for the reader, for diagnostics. -/
def describe (reader : String) (fetcher : Fetcher ρ) : String :=
  Text.labelled "SplitFetcher" [
    ("id", toString fetcher.id),
    ("reader", reader),
    ("unpublished", Text.optional (fetcher.leftover.map (·.label)))]

end Fetcher

end SplitFeed
