/-
# Signals on a board

What an operation on a board does to the signal that it is about is said by `Replaces`: another
signal is in that place afterwards, and the others are as they were.

A completion is taken apart here into its section, which marks the signal as done and takes the
wakers out (`flip`), and the rousing of the sleeping threads, which follows it without the lock
(`rouse`).
-/
import SplitFeed.Signal

namespace SplitFeed

namespace SignalBoard

@[simp]
theorem size_hang (signal : OneShot) (board : SignalBoard) :
    (board.hang signal).2.signals.size = board.signals.size + 1 :=
  Array.size_push ..

@[simp]
theorem size_complete (number : Nat) (board : SignalBoard) :
    (board.complete number).2.signals.size = board.signals.size := by
  unfold complete
  split <;> simp

theorem isDone_hang (signal : OneShot) (number : Nat) (board : SignalBoard) :
    (board.hang signal).2.isDone number =
      if number = board.signals.size then signal.done else board.isDone number := by
  simp only [isDone, hang, Array.getElem?_push]
  by_cases hnew : number = board.signals.size
  · rw [if_pos hnew, if_pos hnew]
  · rw [if_neg hnew, if_neg hnew]

/-- A signal that was never hung up is not done. -/
theorem lt_size_of_isDone {number : Nat} {board : SignalBoard} (h : board.isDone number = true) :
    number < board.signals.size := by
  refine Nat.lt_of_not_le fun hsize => ?_
  simp [isDone, Array.getElem?_eq_none hsize] at h

theorem isDone_complete (number other : Nat) (board : SignalBoard) :
    (board.complete number).2.isDone other =
      (board.isDone other || decide (other = number ∧ number < board.signals.size)) := by
  unfold complete
  split
  case h_1 signal hsignal =>
      obtain ⟨hsize, rfl⟩ := Array.getElem?_eq_some_iff.1 hsignal
      by_cases hother : other = number
      · subst hother
        by_cases hdone : board.signals[other].done <;>
          simp [isDone, hsize, OneShot.complete, hdone]
      · simp [isDone, hother, Ne.symm hother]
  case h_2 hnone =>
      have hsize := Array.getElem?_eq_none_iff.1 hnone
      have hnot : ¬ number < board.signals.size := Nat.not_lt.2 hsize
      simp [hnot]

/-! ### One signal among others -/

variable {board middle next : SignalBoard} {signal after last : OneShot} {number : Nat}

/-- The threads that sleep until a signal is done. -/
def sleepers (number : Nat) (board : SignalBoard) : List Nat :=
  board.signals[number]?.elim [] (·.sleepers)

/-- Changes a signal, if it hangs there. -/
def change (number : Nat) (make : OneShot → OneShot) (board : SignalBoard) : SignalBoard :=
  ⟨board.signals.modify number make⟩

/-- The section of a completion: all that completing a signal does, but for the sleeping threads. -/
def flip (number : Nat) (board : SignalBoard) : OneShot.Completion × SignalBoard :=
  let (completion, after) := board.complete number
  (completion, after.change number ({ · with sleepers := board.sleepers number }))

/-- Lets the threads go that sleep until a signal is done. -/
def rouse (number : Nat) (board : SignalBoard) : SignalBoard :=
  board.change number ({ · with sleepers := [] })

/-- A thread leaves the wait set of a signal. -/
def letGo (number thread : Nat) (board : SignalBoard) : SignalBoard :=
  board.change number fun signal => { signal with sleepers := signal.sleepers.erase thread }

/-- A board has a certain signal in one place, and is otherwise as another board. -/
structure Replaces (number : Nat) (after : OneShot) (board next : SignalBoard) : Prop where
  size : next.signals.size = board.signals.size
  here : next.signals[number]? = some after
  elsewhere : ∀ other, other ≠ number → next.signals[other]? = board.signals[other]?

theorem Replaces.trans (hfirst : Replaces number after board middle)
    (hsecond : Replaces number last middle next) : Replaces number last board next where
  size := hsecond.size.trans hfirst.size
  here := hsecond.here
  elsewhere other hne := (hsecond.elsewhere other hne).trans (hfirst.elsewhere other hne)

/-- There is one such board. -/
theorem Replaces.unique (hmiddle : Replaces number after board middle)
    (hnext : Replaces number after board next) : middle = next := by
  refine congrArg SignalBoard.mk (Array.ext_getElem? fun other => ?_)
  by_cases hsame : other = number
  · rw [hsame, hmiddle.here, hnext.here]
  · rw [hmiddle.elsewhere other hsame, hnext.elsewhere other hsame]

theorem replaces_self (h : board.signals[number]? = some signal) :
    Replaces number signal board board := ⟨rfl, h, fun _ _ => rfl⟩

theorem replaces_change (h : board.signals[number]? = some signal) (make : OneShot → OneShot) :
    Replaces number (make signal) board (board.change number make) where
  size := Array.size_modify
  here := by rw [change, Array.getElem?_modify, if_pos rfl, h, Option.map_some]
  elsewhere other hne := by rw [change, Array.getElem?_modify, if_neg (Ne.symm hne)]

theorem replaces_rouse (h : board.signals[number]? = some signal) :
    Replaces number { signal with sleepers := [] } board (board.rouse number) :=
  replaces_change h ({ · with sleepers := [] })

theorem replaces_letGo (thread : Nat) (h : board.signals[number]? = some signal) :
    Replaces number { signal with sleepers := signal.sleepers.erase thread } board
      (board.letGo number thread) :=
  replaces_change h fun signal => { signal with sleepers := signal.sleepers.erase thread }

theorem replaces_set (h : board.signals[number]? = some signal) (after : OneShot) :
    Replaces number after board ⟨board.signals.setIfInBounds number after⟩ where
  size := Array.size_setIfInBounds
  here := by
    obtain ⟨hsize, -⟩ := Array.getElem?_eq_some_iff.1 h
    rw [Array.getElem?_setIfInBounds, if_pos rfl, if_pos hsize]
  elsewhere other hne := by rw [Array.getElem?_setIfInBounds, if_neg (Ne.symm hne)]

theorem isDone_of_some (h : board.signals[number]? = some signal) :
    board.isDone number = signal.done := by
  rw [isDone, h]

theorem sleepers_of_some (h : board.signals[number]? = some signal) :
    board.sleepers number = signal.sleepers := by
  rw [sleepers, h, Option.elim_some]

theorem complete_of_some (h : board.signals[number]? = some signal) :
    (board.complete number).1 = signal.complete.1 ∧
      Replaces number signal.complete.2 board (board.complete number).2 := by
  rw [complete, h]
  exact ⟨rfl, replaces_set h _⟩

theorem poll_of_some (waker : Nat) (h : board.signals[number]? = some signal) :
    (board.poll number waker).1 = (signal.poll waker).1 ∧
      Replaces number (signal.poll waker).2 board (board.poll number waker).2 := by
  rw [poll, h]
  exact ⟨rfl, replaces_set h _⟩

theorem wait_of_some (thread : Nat) (h : board.signals[number]? = some signal) :
    (board.wait number thread).1 = (signal.wait thread).1 ∧
      Replaces number (signal.wait thread).2 board (board.wait number thread).2 := by
  rw [wait, h]
  exact ⟨rfl, replaces_set h _⟩

theorem flip_of_some (h : board.signals[number]? = some signal) :
    (board.flip number).1 = signal.complete.1 ∧
      Replaces number { signal.complete.2 with sleepers := signal.sleepers } board
        (board.flip number).2 := by
  obtain ⟨hanswer, hreplaces⟩ := complete_of_some h
  refine ⟨hanswer, hreplaces.trans ?_⟩
  rw [← sleepers_of_some h]
  exact replaces_change hreplaces.here ({ · with sleepers := board.sleepers number })

/-- A completion that nobody comes between is `complete`. -/
theorem rouse_flip (h : (board.complete number).1.flipped = true) :
    (board.flip number).2.rouse number = (board.complete number).2 := by
  cases hsignal : board.signals[number]? with
  | none => simp [complete, hsignal] at h
  | some signal =>
      obtain ⟨hanswer, hcomplete⟩ := complete_of_some hsignal
      obtain ⟨-, hflip⟩ := flip_of_some hsignal
      have hrouse := hflip.trans (replaces_rouse hflip.here)
      have hnobody : signal.complete.2.sleepers = [] := by
        rw [hanswer, OneShot.complete] at h
        split at h
        · cases h
        · next hpending => simp [OneShot.complete, hpending]
      have hafter : ({ signal.complete.2 with sleepers := [] } : OneShot) = signal.complete.2 := by
        rw [← hnobody]
      exact (hafter ▸ hrouse).unique hcomplete

end SignalBoard

end SplitFeed
