/-
# Threads at the queue

A dock is a hand-off queue with the blocking calls that threads have under way on it.  A thread
starts a call and attempts it; a call that falls asleep stays under way and is attempted again
once its thread has left the wait set.  A dock is settled when every call under way is asleep.
-/
import SplitFeed.Handoff.Queue

namespace SplitFeed

/-- A blocking call. -/
inductive DockCall (α : Type) where
  | put (producer : Nat) (element : α)
  | take
deriving DecidableEq

/-- How a blocking call ended. -/
inductive DockResult (α : Type) where
  | stored
  | notStored (error : PutError α)
  | taken (element : α)
  | notTaken (error : TakeError)
deriving DecidableEq

/-- A queue and the calls under way on it, each under the number of its thread, in the order in
which they were started. -/
structure Dock (α : Type) where
  queue : HandoffQueue α
  underWay : List (Nat × DockCall α) := []

namespace Dock

variable {α : Type}

/-- One attempt of a call; no result means that its thread fell asleep. -/
def attempt (thread : Nat) (call : DockCall α) (queue : HandoffQueue α) :
    Option (DockResult α) × HandoffQueue α :=
  match call with
  | .put producer element =>
    match queue.put thread producer element with
    | (.accepted, queue) => (some .stored, queue)
    | (.refused error, queue) => (some (.notStored error), queue)
    | (.asleep, queue) => (none, queue)
  | .take =>
    match queue.take thread with
    | (.taken element, queue) => (some (.taken element), queue)
    | (.refused error, queue) => (some (.notTaken error), queue)
    | (.asleep, queue) => (none, queue)

/-- Whether a thread sleeps in one of the wait sets. -/
def isAsleep (thread : Nat) (queue : HandoffQueue α) : Bool :=
  thread ∈ queue.asleepInPut || thread ∈ queue.asleepInTake

/-- A thread starts a call. -/
def start (thread : Nat) (call : DockCall α) (dock : Dock α) : Option (DockResult α) × Dock α :=
  match attempt thread call dock.queue with
  | (some result, queue) => (some result, { dock with queue })
  | (none, queue) => (none, { queue, underWay := dock.underWay ++ [(thread, call)] })

/-- Lets every call whose thread is awake make one attempt, in order.  Answers the calls that
ended, and the dock with the calls that are still under way. -/
def turn (queue : HandoffQueue α) :
    List (Nat × DockCall α) → List (Nat × DockResult α) × Dock α
  | [] => ([], { queue })
  | (thread, call) :: rest =>
    if isAsleep thread queue then
      let (ended, dock) := turn queue rest
      (ended, { dock with underWay := (thread, call) :: dock.underWay })
    else
      match attempt thread call queue with
      | (some result, queue) =>
        let (ended, dock) := turn queue rest
        ((thread, result) :: ended, dock)
      | (none, queue) =>
        let (ended, dock) := turn queue rest
        (ended, { dock with underWay := (thread, call) :: dock.underWay })

/-- Repeats turns, at most `turns` times, until a turn ends no call. -/
def settleWithin : Nat → Dock α → List (Nat × DockResult α) × Dock α
  | 0, dock => ([], dock)
  | turns + 1, dock =>
    match turn dock.queue dock.underWay with
    | ([], dock) => ([], dock)
    | (ended, dock) =>
      let (later, dock) := settleWithin turns dock
      (ended ++ later, dock)

/-- Lets the threads go on until every call under way is asleep.  Each turn but the last ends a
call, so one turn more than there are calls is enough: see `settle_ends_settled`. -/
def settle (dock : Dock α) : List (Nat × DockResult α) × Dock α :=
  settleWithin (dock.underWay.length + 1) dock

end Dock

end SplitFeed
