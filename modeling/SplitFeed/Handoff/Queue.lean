/-
# The hand-off queue

A bounded first-in-first-out queue between many producers and a consumer, with a bell.

Every operation below is one critical section.  A blocking call that cannot go on joins a wait
set and leaves the section; it may try again once it has been taken out of the set.

The bell is a signal that tells the consumer to come and look.  Putting into an empty queue
rings the bell that was handed out and hangs up a fresh one in the same section; asking for the
bell of a queue that has something to read, or is closed, answers a bell that has rung already.
-/
import SplitFeed.Signal
import SplitFeed.Text.Quoted

namespace SplitFeed

/-- Why an element was not accepted.  It goes back to its owner either way. -/
inductive PutError (α : Type) where
  /-- The queue is closed: trying again is pointless. -/
  | closed (element : α)
  /-- Somebody woke the producer while the queue was full. -/
  | wokenUp (element : α)
deriving DecidableEq

namespace PutError

variable {α : Type}

/-- The element that was not accepted. -/
def element : PutError α → α
  | closed element => element
  | wokenUp element => element

/-- Whether the queue was closed. -/
def isClosed : PutError α → Bool
  | closed _ => true
  | wokenUp _ => false

/-- The complaint. -/
def message : PutError α → String
  | closed _ => "💀 cannot put into a closed handoff queue"
  | wokenUp _ => "⏰ put was woken up while waiting for capacity"

/-- The refusal by name; the element stays opaque. -/
def describe : PutError α → String
  | closed _ => "PutError::Closed(..)"
  | wokenUp _ => "PutError::WokenUp(..)"

end PutError

/-- Why a consumer came back with nothing. -/
inductive TakeError where
  /-- The queue is closed and empty: nothing will ever arrive. -/
  | closed
  /-- Somebody woke the consumer while the queue was empty. -/
  | interrupted
deriving DecidableEq, Inhabited

namespace TakeError

/-- The complaint. -/
def message : TakeError → String
  | closed => "💀 handoff queue is closed and drained, nothing will ever arrive again"
  | interrupted => "⏰ blocking queue call was woken up before it could finish"

/-- The refusal by name. -/
def describe : TakeError → String
  | closed => "Closed"
  | interrupted => "Interrupted"

end TakeError

/-- The queue under its lock.

`bells` are all bells ever handed out, `bell` the number of the one in use.  `wokenProducers`
and `consumerWoken` are wake-ups that nobody has spent yet.  `asleepInPut` and `asleepInTake`
are the threads in the two wait sets, in the order in which they fell asleep. -/
structure HandoffQueue (α : Type) where
  capacity : Nat
  items : List α := []
  closed : Bool := false
  bells : SignalBoard := ⟨#[OneShot.fresh]⟩
  bell : Nat := 0
  wokenProducers : List Nat := []
  consumerWoken : Bool := false
  asleepInPut : List Nat := []
  asleepInTake : List Nat := []

namespace HandoffQueue

variable {α : Type}

/-- An empty queue with room for at least one element. -/
def ofCapacity (capacity : Nat) : HandoffQueue α :=
  { capacity := max capacity 1 }

instance : Inhabited (HandoffQueue α) := ⟨ofCapacity 1⟩

/-- Whether another element fits. -/
def hasRoom (queue : HandoffQueue α) : Bool :=
  queue.items.length < queue.capacity

/-- Rings the bell in use. -/
def ringBell (queue : HandoffQueue α) : HandoffQueue α :=
  { queue with bells := (queue.bells.complete queue.bell).2 }

/-- Hangs up a fresh bell and uses it from now on. -/
def hangBell (queue : HandoffQueue α) : HandoffQueue α :=
  let (bell, bells) := queue.bells.hang OneShot.fresh
  { queue with bells, bell }

/-- Lets every producer in the wait set go. -/
def rouseProducers (queue : HandoffQueue α) : HandoffQueue α :=
  { queue with asleepInPut := [] }

/-- Lets every consumer in the wait set go. -/
def rouseConsumers (queue : HandoffQueue α) : HandoffQueue α :=
  { queue with asleepInTake := [] }

/-- Lets one consumer in the wait set go, if there is one. -/
def rouseOneConsumer (queue : HandoffQueue α) : HandoffQueue α :=
  { queue with asleepInTake := queue.asleepInTake.tail }

/-- Appends an element there is room for.  A wake-up of its producer is spent, because the put
it was meant for did not have to wait.  The step from empty to non-empty rings the bell. -/
def accept (producer : Nat) (element : α) (queue : HandoffQueue α) : HandoffQueue α :=
  let filled := { queue with
    items := queue.items ++ [element]
    wokenProducers := queue.wokenProducers.erase producer }
  let rung := if queue.items.isEmpty then filled.ringBell.hangBell else filled
  rung.rouseOneConsumer

/-- How one attempt of a blocking put ends. -/
inductive PutResult (α : Type) where
  | accepted
  | refused (error : PutError α)
  | asleep
deriving DecidableEq

/-- One attempt of `thread` to put an element on behalf of `producer`.  A closed queue refuses,
room accepts, a pending wake-up of the producer is spent; otherwise the thread falls asleep. -/
def put (thread producer : Nat) (element : α) (queue : HandoffQueue α) :
    PutResult α × HandoffQueue α :=
  if queue.closed then (.refused (.closed element), queue)
  else if queue.hasRoom then (.accepted, queue.accept producer element)
  else if producer ∈ queue.wokenProducers then
    (.refused (.wokenUp element),
      { queue with wokenProducers := queue.wokenProducers.erase producer })
  else (.asleep, { queue with asleepInPut := queue.asleepInPut ++ [thread] })

/-- How one attempt of a blocking take ends. -/
inductive TakeResult (α : Type) where
  | taken (element : α)
  | refused (error : TakeError)
  | asleep
deriving DecidableEq

/-- One attempt of `thread` to take the head.  An element is taken even from a closed queue;
without one, closing comes before a pending wake-up, and otherwise the thread falls asleep. -/
def take (thread : Nat) (queue : HandoffQueue α) : TakeResult α × HandoffQueue α :=
  match queue.items with
  | head :: rest => (.taken head, { queue with items := rest }.rouseProducers)
  | [] =>
    if queue.closed then (.refused .closed, queue)
    else if queue.consumerWoken then (.refused .interrupted, { queue with consumerWoken := false })
    else (.asleep, { queue with asleepInTake := queue.asleepInTake ++ [thread] })

/-- Takes the head if there is one. -/
def poll (queue : HandoffQueue α) : Option α × HandoffQueue α :=
  match queue.items with
  | head :: rest => (some head, { queue with items := rest }.rouseProducers)
  | [] => (none, queue)

/-- Answers a bell to wait for: one that has rung if there is something to read or the queue is
closed, else the bell in use, renewed if it has rung. -/
def availability (queue : HandoffQueue α) : Nat × HandoffQueue α :=
  if !queue.items.isEmpty || queue.closed then
    let (bell, bells) := queue.bells.hang OneShot.completed
    (bell, { queue with bells })
  else if queue.bells.isDone queue.bell then
    (queue.hangBell.bell, queue.hangBell)
  else (queue.bell, queue)

/-- Rings the bell without adding anything, so that the consumer comes and looks. -/
def notifyAvailable (queue : HandoffQueue α) : HandoffQueue α :=
  queue.ringBell

/-- Closes the queue: nothing more is accepted, what is in it stays, and everybody who waits is
let go. -/
def close (queue : HandoffQueue α) : HandoffQueue α :=
  { queue with closed := true }.ringBell.rouseProducers.rouseConsumers

/-- Wakes a producer that sleeps in a put, or the next put of it that would have to. -/
def wakeProducer (producer : Nat) (queue : HandoffQueue α) : HandoffQueue α :=
  { queue with wokenProducers := queue.wokenProducers.insert producer }.rouseProducers

/-- Wakes the consumer that sleeps in a take, or the next take that would have to. -/
def wakeConsumer (queue : HandoffQueue α) : HandoffQueue α :=
  { queue with consumerWoken := true }.rouseConsumers

/-- Whether a bell has rung. -/
def hasRung (bell : Nat) (queue : HandoffQueue α) : Bool :=
  queue.bells.isDone bell

/-- The queue without its elements, for diagnostics. -/
def describe (queue : HandoffQueue α) : String :=
  Text.labelled "HandoffQueue" [
    ("capacity", toString queue.capacity),
    ("len", toString queue.items.length),
    ("closed", Text.truth queue.closed)]

end HandoffQueue

end SplitFeed
