/-
# The steps of a fetcher's thread

One step carries the thread from one phase to the next and touches what is shared at most once:
a section under the fetcher's lock, an operation on the queue, or a call into the reader.  A
thread that sleeps, in a put, on the drain latch or until its controls are touched, has no step.
-/
import SplitFeed.Fetcher.Basic

namespace SplitFeed.Fetcher

variable {ρ : Type}

/-- Changes the duty. -/
def updateDuty (change : Duty → Duty) (fetcher : Fetcher ρ) : Fetcher ρ :=
  { fetcher with duty := change fetcher.duty }

/-- Goes on to a phase. -/
def enter (phase : Phase) (fetcher : Fetcher ρ) : Fetcher ρ :=
  { fetcher with phase }

/-- Whether the thread is in the wait set of the queue's producers. -/
def isAsleepInPut (fetcher : Fetcher ρ) (depot : Depot) : Bool :=
  depot.queue.asleepInPut.contains fetcher.id

/-- Lets a batch go; its ticket falls due. -/
def discard (batch : SplitBatch Record) (depot : Depot) : Depot :=
  { depot with recycled := depot.recycled ++ batch.recycle }

/-- Tries to put a batch into the queue on behalf of this fetcher. -/
def tryPut (batch : SplitBatch Record) (fetcher : Fetcher ρ) (depot : Depot) :
    HandoffQueue.PutResult (SplitBatch Record) × Depot :=
  let (result, queue) := depot.queue.put fetcher.id fetcher.id batch
  (result, { depot with queue })

/-- One attempt to publish a batch.  A woken put keeps it for the next cycle, a closed queue
lets it go. -/
def publish (batch : SplitBatch Record) (last : Bool) (fetcher : Fetcher ρ) (depot : Depot) :
    Fetcher ρ × Depot :=
  match fetcher.tryPut batch depot with
  | (.accepted, depot) => (fetcher.enter (.noting .published last), depot)
  | (.refused (.wokenUp batch), depot) =>
    ({ fetcher with leftover := some batch }.enter (.noting .publishDeferred last), depot)
  | (.refused (.closed batch), depot) =>
    (fetcher.enter (.noting .queueClosed last), discard batch depot)
  | (.asleep, depot) => (fetcher, depot)

/-- One attempt to get rid of the batch that is left over, before waiting for the drain. -/
def flush (fetcher : Fetcher ρ) (depot : Depot) : Fetcher ρ × Depot :=
  match fetcher.leftover with
  | none => (fetcher.enter .flushed, depot)
  | some batch =>
    match fetcher.tryPut batch depot with
    | (.accepted, depot) => ({ fetcher with leftover := none }, depot)
    | (.refused (.wokenUp _), depot) => (fetcher, depot)
    | (.refused (.closed batch), depot) => ({ fetcher with leftover := none }, discard batch depot)
    | (.asleep, depot) => (fetcher, depot)

/-- What the loop does after a cycle: lie down when there was nothing to do, stop when the queue
is closed, report a failure and stop, or else go on. -/
def afterCycle (result : Except Failure CycleOutcome) (fetcher : Fetcher ρ) (depot : Depot) :
    Fetcher ρ × Depot :=
  match result with
  | .ok .paused | .ok .idle => (fetcher.enter .parking, depot)
  | .ok .queueClosed => (fetcher.enter .stopping, depot)
  | .ok _ => (fetcher.enter .deciding, depot)
  | .error failure =>
    (fetcher.enter (.finishing true), { depot with failures := depot.failures ++ [failure] })

/-- Hands one change to the reader. -/
def hand [SplitReader ρ] (change : SplitsChange Split) (rest : List (SplitsChange Split))
    (fetcher : Fetcher ρ) (depot : Depot) : Fetcher ρ × Depot :=
  let (result, recycled, reader) := SplitReader.change change fetcher.reader
  let fetcher := { fetcher with reader }
  let depot := { depot with recycled := depot.recycled ++ recycled }
  match result with
  | .returned () => (fetcher.enter (.handing rest), depot)
  | .failed cause => (fetcher.enter (.cycled (.error (.changesNotHanded fetcher.id cause))), depot)
  | .panicked text => (fetcher.enter (.panicked text), depot)

/-- Gives a stale batch back to the reader. -/
def rewind [SplitReader ρ] (batch : SplitBatch Record) (fetcher : Fetcher ρ) (depot : Depot) :
    Fetcher ρ × Depot :=
  let (result, recycled, reader) := SplitReader.rewind batch fetcher.reader
  let fetcher := { fetcher with reader }
  let depot := { depot with recycled := depot.recycled ++ recycled }
  match result with
  | .panicked text => (fetcher.enter (.panicked text), depot)
  | _ => (fetcher.enter .rewound, depot)

/-- Fetches; `disturbed` tells at which looks at its wake flag the reader finds it raised in the
meantime. -/
def fetch [SplitReader ρ] (disturbed : List Bool) (fetcher : Fetcher ρ) (depot : Depot) :
    Fetcher ρ :=
  let (result, reader) := SplitReader.fetch depot.store disturbed fetcher.reader
  let fetcher := { fetcher with reader }
  match result with
  | .returned batch => fetcher.enter (.weighing batch)
  | .failed cause => fetcher.enter (.fetchLost cause)
  | .panicked text => fetcher.enter (.panicked text)

/-- Closes the reader. -/
def closeReader [SplitReader ρ] (fetcher : Fetcher ρ) : Fetcher ρ :=
  let (result, reader) := SplitReader.close fetcher.reader
  let fetcher := { fetcher with reader }
  match result with
  | .returned () => fetcher.enter (.leaving none)
  | .failed cause => fetcher.enter (.leaving (some (.readerNotClosed fetcher.id cause)))
  | .panicked text => fetcher.enter (.panicked text)

/-- The next step of the thread, if it has one. -/
def step? [SplitReader ρ] (disturbed : List Bool) (fetcher : Fetcher ρ) (depot : Depot) :
    Option (Fetcher ρ × Depot) :=
  match fetcher.phase with
  | .resting | .gone | .panicked _ | .ended _ => none
  | .deciding =>
    some (fetcher.enter (if fetcher.duty.stop.isSome then .finishing false else .starting), depot)
  | .starting => some ({ fetcher with wakeRequested := false }.enter .collecting, depot)
  | .collecting =>
    if fetcher.duty.paused then some (fetcher.enter (.cycled (.ok .paused)), depot)
    else
      let changes := fetcher.duty.pending
      some ((fetcher.updateDuty ({ · with pending := [] })).enter (.handing changes), depot)
  | .handing (change :: rest) => some (fetcher.hand change rest depot)
  | .handing [] =>
    match fetcher.leftover with
    | some batch => some ({ fetcher with leftover := none }.enter (.publishing batch false), depot)
    | none => some (fetcher.enter .checking, depot)
  | .checking =>
    if fetcher.duty.assigned.isEmpty then some (fetcher.enter (.idling .idle), depot)
    else some ((fetcher.updateDuty ({ · with fetching := true })).enter .fetching, depot)
  | .fetching => some (fetcher.fetch disturbed depot, depot)
  | .fetchLost cause =>
    some ((fetcher.updateDuty ({ · with fetching := false })).enter
      (.cycled (.error (.fetchFailed fetcher.id cause))), depot)
  | .weighing batch =>
    if fetcher.wakeRequested then
      some ({ fetcher with wakeRequested := false }.enter (.rewinding batch), depot)
    else some (fetcher.enter (.booking batch), depot)
  | .rewinding batch => some (fetcher.rewind batch depot)
  | .rewound =>
    some ((fetcher.updateDuty ({ · with fetching := false })).enter (.cycled (.ok .stale)), depot)
  | .booking batch =>
    let fetcher := fetcher.updateDuty (·.book batch.finished)
    let last := fetcher.duty.assigned.isEmpty
    if batch.isEmpty then
      some (fetcher.enter (if last then .idling .empty else .cycled (.ok .empty)),
        discard batch depot)
    else some (fetcher.enter (.publishing batch last), depot)
  | .publishing batch last =>
    if fetcher.isAsleepInPut depot then none else some (fetcher.publish batch last depot)
  | .noting outcome last =>
    let fetcher := fetcher.updateDuty ({ · with unpublished := fetcher.leftover.isSome })
    if last ∧ outcome ≠ .publishDeferred then some (fetcher.enter (.idling outcome), depot)
    else some (fetcher.enter (.cycled (.ok outcome)), depot)
  | .idling outcome =>
    let phase := if fetcher.duty.idle then .cycled (.ok outcome) else .ringing outcome
    some ((fetcher.updateDuty ({ · with idle := true })).enter phase, depot)
  | .ringing outcome =>
    some (fetcher.enter (.cycled (.ok outcome)),
      { depot with queue := depot.queue.notifyAvailable })
  | .cycled result => if fetcher.looping then some (fetcher.afterCycle result depot) else none
  | .stopping =>
    let stop := fetcher.duty.stop.getD .immediate
    some ((fetcher.updateDuty ({ · with stop })).enter (.finishing false), depot)
  | .parking =>
    if fetcher.duty.mayPark then some ({ fetcher with napping := true }.enter .parked, depot)
    else some (fetcher.enter .deciding, depot)
  | .parked => if fetcher.napping then none else some (fetcher.enter .deciding, depot)
  | .finishing failed =>
    if !failed && fetcher.duty.stop == some .draining then some (fetcher.enter .flushing, depot)
    else
      let depot := match fetcher.leftover with
        | some batch => discard batch depot
        | none => depot
      some ({ fetcher with leftover := none }.enter .closing, depot)
  | .flushing => if fetcher.isAsleepInPut depot then none else some (fetcher.flush depot)
  | .flushed =>
    some ((fetcher.updateDuty ({ · with unpublished := false })).enter .announcing, depot)
  | .announcing =>
    some ((fetcher.updateDuty ({ · with awaitingDrain := true })).enter .tolling, depot)
  | .tolling =>
    some (fetcher.enter .latched, { depot with queue := depot.queue.notifyAvailable })
  | .latched => if fetcher.drainLatch.done then some (fetcher.enter .closing, depot) else none
  | .closing => some (fetcher.closeReader, depot)
  | .leaving failure => some ((fetcher.updateDuty Duty.settle).enter (.terminating failure), depot)
  | .terminating failure =>
    some ({ fetcher with terminated := fetcher.terminated.complete.2 }.enter (.ended failure),
      depot)

/-- Ends a nap because its time is up. -/
def timeOut (fetcher : Fetcher ρ) : Fetcher ρ :=
  { fetcher with napping := false }

/-- Begins a single cycle. -/
def beginCycle (fetcher : Fetcher ρ) : Fetcher ρ := fetcher.enter .starting

/-- Begins to run cycle after cycle. -/
def beginLoop (fetcher : Fetcher ρ) : Fetcher ρ :=
  { fetcher with looping := true, phase := .deciding }

end SplitFeed.Fetcher
