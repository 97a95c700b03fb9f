/-
# The supervisor

Deals splits round-robin over a fixed number of slots, each of which holds a running fetcher or
nothing, and keeps an eye on the fetch threads.  An empty slot that is dealt a split gets a new
fetcher with a new reader.

Fetchers that left their slot are retired: they stay on the books until the supervisor closes,
because their threads may still be running.  The crew are all fetchers whose thread was ever
started, on the books or not.
-/
import SplitFeed.Fetcher.Control
import SplitFeed.Fetcher.Step

namespace SplitFeed

/-- One action on one fetcher of a crew. -/
inductive Errand where
  | ask (fetcher : Nat) (request : Request)
  | nudge (fetcher : Nat) (nudge : Nudge)
deriving DecidableEq

/-- A supervisor over readers that `factory` builds; it is told how often it was asked before.

`crew` is in the order in which fetchers were started, `slots` and `retired` name them by id.
`nextSlot` is the slot that the next split is dealt to. -/
structure Supervisor (ρ : Type) where
  depot : Depot
  factory : Nat → Except Failure ρ
  built : Nat := 0
  crew : List (Fetcher ρ) := []
  slots : List (Option Nat)
  retired : List Nat := []
  nextSlot : Nat := 0
  nextId : Nat := 0

namespace Supervisor

variable {ρ : Type}

/-- A supervisor with at least one slot and a fresh queue. -/
def create (capacity threads : Nat) (store : FileStore) (factory : Nat → Except Failure ρ) :
    Supervisor ρ :=
  { depot := { queue := .ofCapacity capacity, store }
    factory
    slots := List.replicate (max threads 1) none }

/-- The queue the consumer reads from. -/
def queue (supervisor : Supervisor ρ) : HandoffQueue (SplitBatch Record) :=
  supervisor.depot.queue

/-- The supervisor with another queue. -/
def withQueue (queue : HandoffQueue (SplitBatch Record)) (supervisor : Supervisor ρ) :
    Supervisor ρ :=
  { supervisor with depot := { supervisor.depot with queue } }

/-- The fetcher with a given id. -/
def fetcher? (id : Nat) (supervisor : Supervisor ρ) : Option (Fetcher ρ) :=
  supervisor.crew.find? (·.id == id)

/-- Puts a changed fetcher in the place of the one with its id. -/
def replace (fetcher : Fetcher ρ) (supervisor : Supervisor ρ) : Supervisor ρ :=
  { supervisor with
    crew := supervisor.crew.map fun other => if other.id = fetcher.id then fetcher else other }

/-- The ids of the fetchers in the slots, in slot order. -/
def liveIds (supervisor : Supervisor ρ) : List Nat :=
  supervisor.slots.filterMap id

/-- The fetchers in the slots, in slot order. -/
def live (supervisor : Supervisor ρ) : List (Fetcher ρ) :=
  supervisor.liveIds.filterMap supervisor.fetcher?

/-- Number of fetchers in slots. -/
def fetcherCount (supervisor : Supervisor ρ) : Nat :=
  supervisor.liveIds.length

/-- The ids of the fetchers on the books, those in slots first. -/
def onBooks (supervisor : Supervisor ρ) : List Nat :=
  supervisor.liveIds ++ supervisor.retired

/-! ### Requests to fetchers -/

/-- Carries out one errand; answers the errands that follow it. -/
def run [SplitReader ρ] (errand : Errand) (supervisor : Supervisor ρ) :
    List Errand × Supervisor ρ :=
  match errand with
  | .ask id request =>
    match supervisor.fetcher? id with
    | none => ([], supervisor)
    | some fetcher =>
      let (fetcher, nudges) := request.enact fetcher
      (nudges.map (.nudge id), supervisor.replace fetcher)
  | .nudge id nudge =>
    match supervisor.fetcher? id with
    | none => ([], supervisor)
    | some fetcher =>
      let (fetcher, depot) := nudge.apply fetcher supervisor.depot
      ([], { supervisor with depot }.replace fetcher)

/-- Carries out a request to one fetcher without a gap. -/
def ask [SplitReader ρ] (request : Request) (id : Nat) (supervisor : Supervisor ρ) :
    Supervisor ρ :=
  match supervisor.fetcher? id with
  | none => supervisor
  | some fetcher =>
    let (fetcher, depot) := request.apply fetcher supervisor.depot
    { supervisor with depot }.replace fetcher

/-- Carries out a request to several fetchers, one after the other. -/
def askEach [SplitReader ρ] (request : Request) (ids : List Nat) (supervisor : Supervisor ρ) :
    Supervisor ρ :=
  ids.foldl (fun supervisor id => supervisor.ask request id) supervisor

/-- Carries out a request to every fetcher in a slot. -/
def askLive [SplitReader ρ] (request : Request) (supervisor : Supervisor ρ) : Supervisor ρ :=
  supervisor.askEach request supervisor.liveIds

/-! ### Dealing splits -/

/-- Builds a reader and starts a fetcher over it.  An id is used up even if there is no
reader. -/
def spawn (supervisor : Supervisor ρ) : Except Failure Nat × Supervisor ρ :=
  let id := supervisor.nextId
  let started := { supervisor with nextId := id + 1, built := supervisor.built + 1 }
  match supervisor.factory supervisor.built with
  | .error cause => (.error (.readerNotBuilt id cause), started)
  | .ok reader =>
    let fetcher : Fetcher ρ := ({ id, reader } : Fetcher ρ).beginLoop
    (.ok id, { started with crew := supervisor.crew ++ [fetcher] })

/-- The splits of one hand that fall to a slot, when dealing starts at another slot. -/
def dealt (slotCount start slot : Nat) (splits : List Split) : List Split :=
  (splits.zipIdx.filter fun (_, index) => (start + index) % slotCount == slot).map (·.1)

/-- Gives splits to one slot, starting a fetcher if it is empty.  Without splits the slot is left
alone. -/
def giveTo [SplitReader ρ] (slot : Nat) (splits : List Split) (supervisor : Supervisor ρ) :
    Except Failure Unit × Supervisor ρ :=
  if splits.isEmpty then (.ok (), supervisor)
  else
    match supervisor.slots.getD slot none with
    | some id => (.ok (), supervisor.ask (.addSplits splits) id)
    | none =>
      match supervisor.spawn with
      | (.error failure, supervisor) => (.error failure, supervisor)
      | (.ok id, supervisor) =>
        let filled := { supervisor with slots := supervisor.slots.set slot (some id) }
        (.ok (), filled.ask (.addSplits splits) id)

/-- Gives the dealt splits to slots in order; the first slot that stays empty ends it. -/
def giveAll [SplitReader ρ] (hand : Nat → List Split) :
    List Nat → Supervisor ρ → Except Failure Unit × Supervisor ρ
  | [], supervisor => (.ok (), supervisor)
  | slot :: rest, supervisor =>
    match supervisor.giveTo slot (hand slot) with
    | (.error failure, supervisor) => (.error failure, supervisor)
    | (.ok (), supervisor) => giveAll hand rest supervisor

/-- Deals splits round-robin, going on where the last deal ended.  The position moves on even if
a reader cannot be built. -/
def addSplits [SplitReader ρ] (splits : List Split) (supervisor : Supervisor ρ) :
    Except Failure Unit × Supervisor ρ :=
  let slotCount := supervisor.slots.length
  let start := supervisor.nextSlot
  let moved := { supervisor with nextSlot := (start + splits.length) % slotCount }
  giveAll (fun slot => dealt slotCount start slot splits) (List.range slotCount) moved

/-- Takes splits away from the fetchers in the slots; answers the splits taken, in slot order. -/
def removeSplits [SplitReader ρ] (ids : List String) (supervisor : Supervisor ρ) :
    List Split × Supervisor ρ :=
  (supervisor.live.flatMap (·.duty.named ids), supervisor.askLive (.removeSplits ids))

/-! ### Watching -/

/-- Takes the oldest failure that nobody has heard of. -/
def takeFailure (supervisor : Supervisor ρ) : Option Failure × Supervisor ρ :=
  match supervisor.depot.failures with
  | [] => (none, supervisor)
  | failure :: failures =>
    (some failure, { supervisor with depot := { supervisor.depot with failures } })

/-- Surfaces the oldest failure that nobody has heard of. -/
def checkErrors (supervisor : Supervisor ρ) : Except Failure Unit × Supervisor ρ :=
  match supervisor.takeFailure with
  | (none, supervisor) => (.ok (), supervisor)
  | (some failure, supervisor) => (.error (.threadGaveUp failure), supervisor)

/-- Whether a fetcher has no more to do in its slot. -/
def isFinished (fetcher : Fetcher ρ) : Bool :=
  fetcher.isIdle || fetcher.duty.closed

/-- Takes the fetcher out of a slot, if it has no more to do there, and retires it. -/
def vacate (slot : Nat) (supervisor : Supervisor ρ) : Option Nat × Supervisor ρ :=
  match supervisor.slots.getD slot none with
  | none => (none, supervisor)
  | some id =>
    match supervisor.fetcher? id with
    | none => (none, supervisor)
    | some fetcher =>
      if isFinished fetcher then
        (some id, { supervisor with
          slots := supervisor.slots.set slot none
          retired := supervisor.retired ++ [id] })
      else (none, supervisor)

/-- Whether every slot is empty. -/
def isVacant (supervisor : Supervisor ρ) : Bool :=
  supervisor.slots.all Option.isNone

/-- Retires the fetchers in one slot after the other that have no more to do, and stops them.
Answers whether every slot is empty then. -/
def reap [SplitReader ρ] (supervisor : Supervisor ρ) : Bool × Supervisor ρ :=
  let swept := (List.range supervisor.slots.length).foldl
    (fun supervisor slot =>
      match supervisor.vacate slot with
      | (some id, supervisor) => supervisor.ask (.stop .immediate) id
      | (none, supervisor) => supervisor)
    supervisor
  (swept.isVacant, swept)

/-- Whether a fetcher waits for the drain or is past it. -/
def isDrained (fetcher : Fetcher ρ) : Bool :=
  fetcher.duty.awaitingDrain || fetcher.duty.closed

/-- Whether every fetcher in a slot waits for the drain or is past it. -/
def allAwaitingDrain (supervisor : Supervisor ρ) : Bool :=
  supervisor.live.all isDrained

/-! ### Closing -/

/-- What is asked of every fetcher on the books when the supervisor closes.  Stopping is sticky,
so after a draining request only the forced wake-up gets a blocked thread out. -/
def farewell : List Request :=
  [.stop .immediate, .wakeUp true, .releaseLatch]

/-- Says farewell to one fetcher. -/
def dismiss [SplitReader ρ] (id : Nat) (supervisor : Supervisor ρ) : Supervisor ρ :=
  farewell.foldl (fun supervisor request => supervisor.ask request id) supervisor

/-- Takes every fetcher off the books, says farewell to it and closes the queue.  Answers the
fetchers to wait for. -/
def beginClose [SplitReader ρ] (supervisor : Supervisor ρ) : List Nat × Supervisor ρ :=
  let ids := supervisor.onBooks
  let emptied := { supervisor with slots := supervisor.slots.map fun _ => none, retired := [] }
  let dismissed := ids.foldl (fun supervisor id => supervisor.dismiss id) emptied
  (ids, dismissed.withQueue dismissed.queue.close)

/-- Joins threads in order: the stragglers so far, or the first one that panicked. -/
def join (supervisor : Supervisor ρ) : List Nat → Except Failure (List Nat)
  | [] => .ok []
  | id :: rest =>
    match supervisor.fetcher? id with
    | none => join supervisor rest
    | some fetcher =>
      if !fetcher.terminated.done then do
        let stragglers ← join supervisor rest
        return id :: stragglers
      else
        match fetcher.phase with
        | .panicked _ => .error (.fetcherPanicked id)
        | _ => join supervisor rest

/-- What closing comes to once there was time for the threads to end: a panic, stragglers, or a
failure that nobody has heard of. -/
def endClose (ids : List Nat) (timeoutMs : Nat) (supervisor : Supervisor ρ) :
    Except Failure Unit × Supervisor ρ :=
  match supervisor.join ids with
  | .error failure => (.error failure, supervisor)
  | .ok [] => supervisor.checkErrors
  | .ok stragglers => (.error (.leftBehind stragglers timeoutMs), supervisor)

/-- Lets the supervisor go without waiting for anybody. -/
def abandon [SplitReader ρ] (supervisor : Supervisor ρ) : Supervisor ρ :=
  let dismissed := supervisor.onBooks.foldl (fun supervisor id => supervisor.dismiss id) supervisor
  dismissed.withQueue dismissed.queue.close

/-! ### Threads -/

/-- The next step of a crew member's thread.  A failure to close its reader is reported when the
loop is over. -/
def stepFetcher? [SplitReader ρ] (disturbed : List Bool) (fetcher : Fetcher ρ) (depot : Depot) :
    Option (Fetcher ρ × Depot) :=
  match fetcher.phase with
  | .ended failure =>
    some (fetcher.enter .gone, { depot with failures := depot.failures ++ failure.toList })
  | _ => fetcher.step? disturbed depot

/-- Lets each thread that may go on, and can, make one step, in crew order.  Answers whether any
did. -/
def turn [SplitReader ρ] (may : Fetcher ρ → Bool) (depot : Depot) :
    List (Fetcher ρ) → Bool × List (Fetcher ρ) × Depot
  | [] => (false, [], depot)
  | fetcher :: rest =>
    match if may fetcher then stepFetcher? [] fetcher depot else none with
    | some (fetcher, depot) =>
      let (_, rest, depot) := turn may depot rest
      (true, fetcher :: rest, depot)
    | none =>
      let (moved, rest, depot) := turn may depot rest
      (moved, fetcher :: rest, depot)

/-- Lets the threads that may go on make steps in turn until none can, for at most `turns`
turns. -/
def settle [SplitReader ρ] (may : Fetcher ρ → Bool) : Nat → Supervisor ρ → Supervisor ρ
  | 0, supervisor => supervisor
  | turns + 1, supervisor =>
    match turn may supervisor.depot supervisor.crew with
    | (true, crew, depot) => settle may turns { supervisor with crew, depot }
    | (false, _, _) => supervisor

/-- The supervisor without its fetchers, for diagnostics. -/
def describe (supervisor : Supervisor ρ) : String :=
  Text.labelled "Supervisor" [
    ("queue", supervisor.queue.describe),
    ("slots", toString supervisor.slots.length),
    ("live_fetchers", toString supervisor.fetcherCount),
    ("retired", toString supervisor.retired.length)]

end Supervisor

end SplitFeed
