/-
# Controlling a fetcher

What can be asked of a fetcher from outside: taking on and letting go of splits, waking, pausing
and resuming, stopping, releasing the drain latch.

A request is a section under the fetcher's lock, followed by nudges: single actions that rouse
whoever has to hear of it.  The fetcher's thread may go on between any two of them.  The
requests of this file's last part carry out a section and its nudges without a gap.
-/
import SplitFeed.Fetcher.Basic

namespace SplitFeed

/-- One action of a request that follows its section. -/
inductive Nudge where
  /-- Lets the thread go that sleeps until its controls are touched. -/
  | rouse
  /-- Asks for the fetch under way to be discarded. -/
  | requestWake
  /-- Interrupts the reader. -/
  | wakeReader
  /-- Wakes a put of this fetcher that waits for room. -/
  | wakePut
deriving DecidableEq, Inhabited

/-- What can be asked of a fetcher. -/
inductive Request where
  | addSplits (splits : List Split)
  | removeSplits (ids : List String)
  | wakeUp (force : Bool)
  | pause
  | resume
  | stop (mode : StopMode)
  | releaseLatch
deriving DecidableEq, Inhabited

namespace Nudge

/-- The nudges that wake a fetcher; with `force`, also one that is blocked in its put. -/
def wakeUp (force : Bool) : List Nudge :=
  [requestWake, wakeReader] ++ (if force then [wakePut] else []) ++ [rouse]

/-- Carries out one nudge. -/
def apply {ρ : Type} [SplitReader ρ] (nudge : Nudge) (fetcher : Fetcher ρ) (depot : Depot) :
    Fetcher ρ × Depot :=
  match nudge with
  | rouse => ({ fetcher with napping := false }, depot)
  | requestWake => ({ fetcher with wakeRequested := true }, depot)
  | wakeReader => ({ fetcher with reader := SplitReader.wake fetcher.reader }, depot)
  | wakePut => (fetcher, { depot with queue := depot.queue.wakeProducer fetcher.id })

/-- Carries out nudges in order. -/
def applyAll {ρ : Type} [SplitReader ρ] (nudges : List Nudge) (fetcher : Fetcher ρ)
    (depot : Depot) : Fetcher ρ × Depot :=
  nudges.foldl (fun (fetcher, depot) nudge => nudge.apply fetcher depot) (fetcher, depot)

end Nudge

namespace Request

variable {ρ : Type}

/-- The section of a request, and the nudges that follow it.  Splits are refused when the
fetcher is stopping; a request that changes nothing rouses nobody. -/
def enact (request : Request) (fetcher : Fetcher ρ) : Fetcher ρ × List Nudge :=
  let duty := fetcher.duty
  match request with
  | addSplits splits =>
    let added := Duty.newcomers duty.assigned splits
    if duty.refuses || added.isEmpty then (fetcher, [])
    else ({ fetcher with duty := duty.assign added }, .rouse :: Nudge.wakeUp false)
  | removeSplits ids =>
    let nudges := if (duty.named ids).isEmpty then [] else .rouse :: Nudge.wakeUp false
    ({ fetcher with duty := duty.unassign ids }, nudges)
  | wakeUp force => (fetcher, Nudge.wakeUp force)
  | pause => ({ fetcher with duty := { duty with paused := true } }, [])
  | resume => ({ fetcher with duty := { duty with paused := false } }, [.rouse])
  | stop mode =>
    match duty.stop with
    | some _ => (fetcher, [])
    | none =>
      let nudges := if mode = .immediate then .rouse :: Nudge.wakeUp true else [.rouse]
      ({ fetcher with duty := { duty with stop := some mode } }, nudges)
  | releaseLatch => ({ fetcher with drainLatch := fetcher.drainLatch.complete.2 }, [])

/-- Carries out a request without a gap. -/
def apply [SplitReader ρ] (request : Request) (fetcher : Fetcher ρ) (depot : Depot) :
    Fetcher ρ × Depot :=
  let (fetcher, nudges) := request.enact fetcher
  Nudge.applyAll nudges fetcher depot

end Request

end SplitFeed
