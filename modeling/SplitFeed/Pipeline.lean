/-
# The pipeline

A supervisor with its fetch threads on one side of the queue and one consumer with its sink on
the other.  The consumer's progress is a phase, and its steps and those of the fetch threads may
follow each other in any order; `run` lets everybody who can make one step in each round.

The consumer first feeds on the queue until every fetcher has run out of splits, or until its
record limit is reached; then it has the fetchers hand on what they hold, drains the queue and
releases them.  In the end it closes the sink and the fetchers, whatever happened before.
-/
import SplitFeed.Backend
import SplitFeed.Consumer
import SplitFeed.Supervisor

namespace SplitFeed

/-- Where the consumer stands.  Each phase names what it does next. -/
inductive ConsumerPhase where
  /-- Hears of the oldest failure. -/
  | listening
  /-- Looks for a batch. -/
  | polling
  /-- Sends a batch to the sink. -/
  | consuming (batch : SplitBatch Record)
  /-- Asks for a bell, having found no batch. -/
  | asking
  /-- Looks again whether there is a batch. -/
  | looking (bell : Nat)
  /-- Retires fetchers without splits, from a slot on. -/
  | reaping (bell : Nat) (slot : Nat)
  /-- Looks a last time for a batch, all slots being empty. -/
  | lastLook
  /-- Asks fetchers whether they wait for the drain. -/
  | counting (bell : Nat) (fetchers : List Nat)
  /-- Waits for the bell or a failure. -/
  | waiting (bell : Nat)
  /-- Closes the sink. -/
  | closingSink (drained : Except Failure Unit)
  /-- Takes all fetchers off the books. -/
  | dismissing (sofar : Except Failure Unit)
  /-- Closes the queue. -/
  | closingQueue (sofar : Except Failure Unit) (fetchers : List Nat)
  /-- Joins the threads of fetchers in order. -/
  | joining (sofar : Except Failure Unit) (fetchers stragglers : List Nat)
  /-- Hears of a last failure. -/
  | lastWords (sofar : Except Failure Unit)
  /-- Is done. -/
  | over (result : Except Failure Report.Summary)
  /-- Fell over. -/
  | fallen (cause : Word.Overflow)

/-- A run under way.  `errands` are what the consumer still has to tell fetchers before it goes
on, `draining` that it has the fetchers hand on what they hold, `late` that the time for joining
threads is up. -/
structure Pipeline (ρ : Type) where
  supervisor : Supervisor ρ
  sink : Sink
  books : ConsumerBooks
  closeTimeoutMs : Nat
  draining : Bool := false
  late : Bool := false
  errands : List Errand := []
  phase : ConsumerPhase := .listening

/-- Why a run ended without a summary. -/
inductive RunError where
  | failed (failure : Failure)
  /-- A number in the settings or the totals does not fit. -/
  | overflow (cause : Word.Overflow)
deriving DecidableEq

namespace Pipeline

variable {ρ : Type}

/-- The first of two results that is an error. -/
def firstError (first second : Except Failure Unit) : Except Failure Unit :=
  match first with
  | .error failure => .error failure
  | .ok () => second

/-- Goes on to a phase. -/
def enter (phase : ConsumerPhase) (pipeline : Pipeline ρ) : Pipeline ρ :=
  { pipeline with phase }

/-- The pipeline with another queue. -/
def withQueue (queue : HandoffQueue (SplitBatch Record)) (pipeline : Pipeline ρ) : Pipeline ρ :=
  { pipeline with supervisor := pipeline.supervisor.withQueue queue }

/-- The files. -/
def store (pipeline : Pipeline ρ) : FileStore := pipeline.supervisor.depot.store

/-- The pipeline with other files. -/
def withStore (store : FileStore) (pipeline : Pipeline ρ) : Pipeline ρ :=
  let depot := { pipeline.supervisor.depot with store }
  { pipeline with supervisor := { pipeline.supervisor with depot } }

/-- Hears of the oldest failure, or goes on. -/
def listen (next : ConsumerPhase) (pipeline : Pipeline ρ) : Pipeline ρ :=
  match pipeline.supervisor.checkErrors with
  | (.ok (), supervisor) => { pipeline with supervisor, phase := next }
  | (.error failure, supervisor) =>
    { pipeline with supervisor, phase := .closingSink (.error failure) }

/-- Sends a batch to the sink.  When that reaches the record limit, the fetchers are told to hand
on what they hold and wait. -/
def consume (batch : SplitBatch Record) (pipeline : Pipeline ρ) : Pipeline ρ :=
  match pipeline.books.consume batch pipeline.sink pipeline.store with
  | (.error (.overflow cause), sink, store) =>
    { pipeline with sink, phase := .fallen cause }.withStore store
  | (.error (.failed failure), sink, store) =>
    { pipeline with sink, phase := .closingSink (.error failure) }.withStore store
  | (.ok books, sink, store) =>
    let depot := pipeline.supervisor.depot
    let recycled := depot.recycled ++ batch.recycle
    let supervisor := { pipeline.supervisor with depot := { depot with recycled } }
    let next := { pipeline with supervisor, sink, books, phase := .listening }.withStore store
    if !pipeline.draining && books.limitReached then
      let errands := supervisor.liveIds.map (Errand.ask · (.stop .draining))
      { next with draining := true, errands }
    else next

/-- Retires the fetcher in a slot if it has no more to do there, and tells it to stop. -/
def reap (bell slot : Nat) (pipeline : Pipeline ρ) : Pipeline ρ :=
  if slot < pipeline.supervisor.slots.length then
    match pipeline.supervisor.vacate slot with
    | (some id, supervisor) =>
      { pipeline with
        supervisor
        errands := [.ask id (.stop .immediate)]
        phase := .reaping bell (slot + 1) }
    | (none, supervisor) => { pipeline with supervisor, phase := .reaping bell (slot + 1) }
  else if pipeline.supervisor.isVacant then pipeline.enter .lastLook
  else pipeline.enter (.waiting bell)

/-- Asks the first of some fetchers whether it waits for the drain.  Once all do, they are
released and the feeding is over. -/
def countDrained (bell : Nat) (fetchers : List Nat) (pipeline : Pipeline ρ) : Pipeline ρ :=
  match fetchers with
  | [] =>
    { pipeline with
      errands := pipeline.supervisor.liveIds.map (Errand.ask · .releaseLatch)
      phase := .closingSink (.ok ()) }
  | id :: rest =>
    if (pipeline.supervisor.fetcher? id).all Supervisor.isDrained then
      pipeline.enter (.counting bell rest)
    else pipeline.enter (.waiting bell)

/-- Waits for the bell, or else a failure. -/
def await? (bell : Nat) (pipeline : Pipeline ρ) : Option (Pipeline ρ) :=
  if pipeline.supervisor.queue.hasRung bell then some (pipeline.enter .listening)
  else
    match pipeline.supervisor.depot.failures with
    | [] => none
    | _ => some (pipeline.listen .listening)

/-- Closes the sink; its failure comes after one from before. -/
def closeSink (drained : Except Failure Unit) (pipeline : Pipeline ρ) : Pipeline ρ :=
  let (closed, sink, store) := pipeline.sink.close pipeline.store
  let sofar := firstError drained (closed.mapError .sinkNotClosed)
  { pipeline with sink, phase := .dismissing sofar }.withStore store

/-- Takes all fetchers off the books, to say farewell to each of them. -/
def dismiss (sofar : Except Failure Unit) (pipeline : Pipeline ρ) : Pipeline ρ :=
  let supervisor := pipeline.supervisor
  let ids := supervisor.onBooks
  { pipeline with
    supervisor := { supervisor with slots := supervisor.slots.map fun _ => none, retired := [] }
    errands := ids.flatMap fun id => Supervisor.farewell.map (Errand.ask id)
    phase := .closingQueue sofar ids }

/-- Joins the thread of the first of some fetchers; a thread that is still running is waited
for, and left behind once the time is up. -/
def join? (sofar : Except Failure Unit) (fetchers stragglers : List Nat)
    (pipeline : Pipeline ρ) : Option (Pipeline ρ) :=
  match fetchers with
  | [] =>
    if stragglers.isEmpty then some (pipeline.enter (.lastWords sofar))
    else
      let failure := Failure.leftBehind stragglers pipeline.closeTimeoutMs
      some (pipeline.enter (.over ((firstError sofar (.error failure)).map
        fun _ => pipeline.books.summary)))
  | id :: rest =>
    match pipeline.supervisor.fetcher? id with
    | none => some (pipeline.enter (.joining sofar rest stragglers))
    | some fetcher =>
      if fetcher.terminated.done then
        match fetcher.phase with
        | .panicked _ =>
          some (pipeline.enter (.over ((firstError sofar (.error (.fetcherPanicked id))).map
            fun _ => pipeline.books.summary)))
        | .gone => some (pipeline.enter (.joining sofar rest stragglers))
        | _ => none
      else if pipeline.late then
        some (pipeline.enter (.joining sofar rest (stragglers ++ [id])))
      else none

/-- Hears of a last failure and ends the run. -/
def conclude (sofar : Except Failure Unit) (pipeline : Pipeline ρ) : Pipeline ρ :=
  let (closed, supervisor) := pipeline.supervisor.checkErrors
  { pipeline with
    supervisor
    phase := .over ((firstError sofar closed).map fun _ => pipeline.books.summary) }

/-- The next step of the consumer, if it has one. -/
def stepConsumer? [SplitReader ρ] (pipeline : Pipeline ρ) : Option (Pipeline ρ) :=
  match pipeline.errands with
  | errand :: rest =>
    let (more, supervisor) := pipeline.supervisor.run errand
    some { pipeline with supervisor, errands := more ++ rest }
  | [] =>
    let queue := pipeline.supervisor.queue
    match pipeline.phase with
    | .listening => some (pipeline.listen .polling)
    | .polling =>
      match queue.poll with
      | (some batch, queue) => some ((pipeline.withQueue queue).enter (.consuming batch))
      | (none, _) => some (pipeline.enter .asking)
    | .consuming batch => some (pipeline.consume batch)
    | .asking =>
      let (bell, queue) := queue.availability
      some ((pipeline.withQueue queue).enter (.looking bell))
    | .looking bell =>
      if !queue.items.isEmpty then some (pipeline.enter .listening)
      else if pipeline.draining then
        some (pipeline.enter (.counting bell pipeline.supervisor.liveIds))
      else some (pipeline.enter (.reaping bell 0))
    | .reaping bell slot => some (pipeline.reap bell slot)
    | .lastLook =>
      some (pipeline.enter (if queue.items.isEmpty then .closingSink (.ok ()) else .listening))
    | .counting bell fetchers => some (pipeline.countDrained bell fetchers)
    | .waiting bell => pipeline.await? bell
    | .closingSink drained => some (pipeline.closeSink drained)
    | .dismissing sofar => some (pipeline.dismiss sofar)
    | .closingQueue sofar fetchers =>
      some ((pipeline.withQueue queue.close).enter (.joining sofar fetchers []))
    | .joining sofar fetchers stragglers => pipeline.join? sofar fetchers stragglers
    | .lastWords sofar => some (pipeline.conclude sofar)
    | .over _ | .fallen _ => none

/-- Lets every fetch thread that can make one step; answers whether any did. -/
def stepFetchers [SplitReader ρ] (pipeline : Pipeline ρ) : Bool × Pipeline ρ :=
  let supervisor := pipeline.supervisor
  let (moved, crew, depot) := Supervisor.turn (fun _ => true) supervisor.depot supervisor.crew
  (moved, { pipeline with supervisor := { supervisor with crew, depot } })

/-- The result of the run, once there is one. -/
def result? (pipeline : Pipeline ρ) : Option (Except RunError Report.Summary) :=
  match pipeline.phase with
  | .over (.ok summary) => some (.ok summary)
  | .over (.error failure) => some (.error (.failed failure))
  | .fallen cause => some (.error (.overflow cause))
  | _ => none

/-- Lets everybody who can make one step per round, until the run is over or, for want of
rounds, given up.  When nobody can go on, the time for joining threads runs out. -/
def run [SplitReader ρ] : Nat → Pipeline ρ → Pipeline ρ
  | 0, pipeline => pipeline
  | rounds + 1, pipeline =>
    if pipeline.result?.isSome then pipeline
    else
      match pipeline.stepConsumer? with
      | some next => run rounds next.stepFetchers.2
      | none =>
        let (moved, next) := pipeline.stepFetchers
        if moved then run rounds next
        else if pipeline.late then pipeline
        else run rounds { pipeline with late := true }

/-- Sets up a run: deals the splits that the settings describe to new fetchers, and opens the
sink before that.  Numbers that do not fit are found out before anything is opened. -/
def start (settings : Settings) (store : FileStore) : Except RunError (Pipeline Backend) := do
  let splits ← settings.source.splits.mapError .overflow
  let (source, expected) ← settings.source.describe.mapError .overflow
  let runtime := settings.runtime
  let (sink, store) ←
    (Sink.ofSettings settings.sink store).mapError fun cause => .failed (.sinkNotOpened cause)
  let idle := Supervisor.create runtime.queueCapacity runtime.fetcherThreads store
    fun _ => .ok (Backend.ofSettings settings.source)
  match idle.addSplits splits with
  | (.error cause, _) => throw (.failed (.splitsNotDealt cause))
  | (.ok (), supervisor) =>
    let books := { totals := { source, expected }, limit := runtime.recordLimit : ConsumerBooks }
    return { supervisor, sink, books, closeTimeoutMs := runtime.closeTimeoutMs }

/-- A whole run from the files there are, in at most `rounds` rounds: its result, unless it was
given up, and the files afterwards. -/
def runSettings (rounds : Nat) (settings : Settings) (store : FileStore) :
    Option (Except RunError Report.Summary) × FileStore :=
  match start settings store with
  | .error error => (some (.error error), store)
  | .ok pipeline =>
    let ended := pipeline.run rounds
    (ended.result?, ended.store)

end Pipeline

end SplitFeed
