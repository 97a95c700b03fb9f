/-
# Signals

A one-shot signal is done once and stays done.  Threads may sleep on it and tasks may leave a
waker with it; the call that completes it rouses all of them.  A board holds many signals, so
that several owners can share one by its number.

A wake flag is the resettable counterpart: raising it interrupts one nap, and the nap lowers it
again.
-/

namespace SplitFeed

/-- A signal that completes at most once.

`wakers` are the tasks to be woken by the completion, each once however often it asked;
`sleepers` the threads asleep until then. -/
structure OneShot where
  done : Bool := false
  wakers : List Nat := []
  sleepers : List Nat := []
deriving DecidableEq, Inhabited

namespace OneShot

/-- A signal that is not done. -/
def fresh : OneShot := {}

/-- What one call of `complete` did: whether it was the call that completed the signal, and the
tasks that it wakes. -/
structure Completion where
  flipped : Bool
  woken : List Nat
deriving DecidableEq

/-- Completes the signal.  Only the first call flips it; that call lets every sleeping thread go
and wakes every task that left a waker. -/
def complete (signal : OneShot) : Completion × OneShot :=
  if signal.done then (⟨false, []⟩, signal)
  else (⟨true, signal.wakers⟩, { done := true, wakers := [], sleepers := [] })

/-- A signal that is done from the start. -/
def completed : OneShot := fresh.complete.2

/-- A task asks whether the signal is done; if not, it leaves its waker, unless it is there. -/
def poll (waker : Nat) (signal : OneShot) : Bool × OneShot :=
  if signal.done then (true, signal)
  else if waker ∈ signal.wakers then (false, signal)
  else (false, { signal with wakers := signal.wakers ++ [waker] })

/-- A thread waits for the signal: it passes if the signal is done and falls asleep if not. -/
def wait (thread : Nat) (signal : OneShot) : Bool × OneShot :=
  if signal.done then (true, signal)
  else (false, { signal with sleepers := signal.sleepers ++ [thread] })

end OneShot

/-- Signals under numbers.  Two handles are the same signal exactly when they have one number. -/
structure SignalBoard where
  signals : Array OneShot := #[]

namespace SignalBoard

/-- Hangs up another signal and answers its number. -/
def hang (signal : OneShot) (board : SignalBoard) : Nat × SignalBoard :=
  (board.signals.size, ⟨board.signals.push signal⟩)

/-- Whether a signal is done.  A number that was never given out counts as not done. -/
def isDone (number : Nat) (board : SignalBoard) : Bool :=
  match board.signals[number]? with
  | some signal => signal.done
  | none => false

/-- Completes a signal. -/
def complete (number : Nat) (board : SignalBoard) : OneShot.Completion × SignalBoard :=
  match board.signals[number]? with
  | some signal =>
    let (completion, signal) := signal.complete
    (completion, ⟨board.signals.setIfInBounds number signal⟩)
  | none => (⟨false, []⟩, board)

/-- A task asks whether a signal is done and leaves its waker if not. -/
def poll (number waker : Nat) (board : SignalBoard) : Bool × SignalBoard :=
  match board.signals[number]? with
  | some signal =>
    let (done, signal) := signal.poll waker
    (done, ⟨board.signals.setIfInBounds number signal⟩)
  | none => (false, board)

/-- A thread waits for a signal. -/
def wait (number thread : Nat) (board : SignalBoard) : Bool × SignalBoard :=
  match board.signals[number]? with
  | some signal =>
    let (passed, signal) := signal.wait thread
    (passed, ⟨board.signals.setIfInBounds number signal⟩)
  | none => (false, board)

end SignalBoard

/-- A resettable interrupt for a reader that naps. -/
structure WakeFlag where
  raised : Bool := false
deriving DecidableEq, Inhabited

namespace WakeFlag

/-- Raises the flag. -/
def wake (_ : WakeFlag) : WakeFlag := ⟨true⟩

/-- Reads the flag and lowers it. -/
def take (flag : WakeFlag) : Bool × WakeFlag := (flag.raised, ⟨false⟩)

/-- A bounded nap: it is cut short if the flag is up or `disturbed` says that it goes up in the
meantime.  The flag is down afterwards. -/
def nap (disturbed : Bool) (flag : WakeFlag) : Bool × WakeFlag :=
  (flag.raised || disturbed, ⟨false⟩)

end WakeFlag

end SplitFeed
