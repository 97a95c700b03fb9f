/-
# Bells that callers wait for

Every call of `availability` hands out a bell, and whoever asked may keep it as long as it likes.
The queue renews its bell in two places and rings it in three.  What carries the whole module is
one invariant about all bells that were ever handed out: one that has not rung is the bell in use,
and there is such a bell only while there is nothing to read and the queue is open.

A blocking put or take is one move for each of its attempts.  Others may do anything in between.
-/
import SplitFeed.Proofs.Handoff.Moves
import SplitFeed.Proofs.Signal.Board

namespace SplitFeed

namespace HandoffQueue

variable {α : Type}

/-! ### Ringing and renewing the bell -/

/-- How many bells have been hung up. -/
def bellCount (queue : HandoffQueue α) : Nat := queue.bells.signals.size

theorem hasRung_ringBell (bell : Nat) (queue : HandoffQueue α) :
    queue.ringBell.hasRung bell =
      (queue.hasRung bell || decide (bell = queue.bell ∧ queue.bell < queue.bellCount)) :=
  SignalBoard.isDone_complete ..

theorem hasRung_ringBell_of_hasRung {bell : Nat} {queue : HandoffQueue α}
    (h : queue.hasRung bell = true) : queue.ringBell.hasRung bell = true := by
  rw [hasRung_ringBell, h, Bool.true_or]

theorem hasRung_hangBell (bell : Nat) (queue : HandoffQueue α) :
    queue.hangBell.hasRung bell = if bell = queue.bellCount then false else queue.hasRung bell :=
  SignalBoard.isDone_hang ..

@[simp]
theorem bellCount_ringBell (queue : HandoffQueue α) :
    queue.ringBell.bellCount = queue.bellCount := SignalBoard.size_complete ..

@[simp]
theorem bellCount_hangBell (queue : HandoffQueue α) :
    queue.hangBell.bellCount = queue.bellCount + 1 := SignalBoard.size_hang ..

@[simp]
theorem bell_hangBell (queue : HandoffQueue α) : queue.hangBell.bell = queue.bellCount := rfl

theorem lt_bellCount_of_hasRung {bell : Nat} {queue : HandoffQueue α}
    (h : queue.hasRung bell = true) : bell < queue.bellCount :=
  SignalBoard.lt_size_of_isDone h

/-- Putting into an empty queue rings the bell in use before it hangs up another. -/
theorem bells_accept_of_empty (producer : Nat) (element : α) {queue : HandoffQueue α}
    (h : queue.items = []) :
    (queue.accept producer element).bells = queue.ringBell.hangBell.bells ∧
      (queue.accept producer element).bell = queue.ringBell.hangBell.bell := by
  simp only [accept, h, List.isEmpty_nil, if_true]
  exact ⟨rfl, rfl⟩

/-- Putting into a queue with something to read leaves the bells alone. -/
theorem bells_accept_of_ne_nil (producer : Nat) (element : α) {queue : HandoffQueue α}
    (h : queue.items ≠ []) :
    (queue.accept producer element).bells = queue.bells ∧
      (queue.accept producer element).bell = queue.bell := by
  simp only [accept, List.isEmpty_iff, h, if_false]
  exact ⟨rfl, rfl⟩

/-- Whether a consumer has a reason to come: there is something to read, or never will be. -/
def IsReady (queue : HandoffQueue α) : Prop := queue.items ≠ [] ∨ queue.closed = true

/-- Nobody has to wait for a queue that is ready; otherwise the bell in use is handed out, and
another is hung up for it if it has rung. -/
theorem availability_cases (queue : HandoffQueue α) :
    (queue.IsReady ∧ queue.availability =
        (queue.bellCount, { queue with bells := (queue.bells.hang OneShot.completed).2 })) ∨
      (¬ queue.IsReady ∧ queue.hasRung queue.bell = true ∧
        queue.availability = (queue.bellCount, queue.hangBell)) ∨
      (¬ queue.IsReady ∧ queue.hasRung queue.bell = false ∧
        queue.availability = (queue.bell, queue)) := by
  unfold availability
  split
  case isTrue h => exact .inl ⟨by simpa [IsReady] using h, rfl⟩
  case isFalse h =>
      have hready : ¬ queue.IsReady := by simpa [IsReady] using h
      split
      case isTrue hrung => exact .inr (.inl ⟨hready, hrung, rfl⟩)
      case isFalse hrung => exact .inr (.inr ⟨hready, Bool.eq_false_iff.2 hrung, rfl⟩)

/-- A bell that is asked for has rung exactly if the queue is ready. -/
theorem hasRung_availability (queue : HandoffQueue α) :
    queue.availability.2.hasRung queue.availability.1 = true ↔ queue.IsReady := by
  obtain ⟨hready, h⟩ | ⟨hready, -, h⟩ | ⟨hready, hrung, h⟩ := queue.availability_cases <;> rw [h]
  · refine iff_of_true ?_ hready
    show (queue.bells.hang OneShot.completed).2.isDone queue.bells.signals.size = true
    rw [SignalBoard.isDone_hang, if_pos rfl]
    rfl
  · refine iff_of_false ?_ hready
    rw [hasRung_hangBell, if_pos rfl]
    exact Bool.false_ne_true
  · exact iff_of_false (Bool.eq_false_iff.1 hrung) hready

/-- Handing out a bell takes back no ringing. -/
theorem hasRung_availability_of_hasRung {bell : Nat} {queue : HandoffQueue α}
    (h : queue.hasRung bell = true) : queue.availability.2.hasRung bell = true := by
  have hold : bell ≠ queue.bellCount := Nat.ne_of_lt (lt_bellCount_of_hasRung h)
  obtain ⟨-, hcase⟩ | ⟨-, -, hcase⟩ | ⟨-, -, hcase⟩ := queue.availability_cases <;> rw [hcase]
  · exact (SignalBoard.isDone_hang ..).trans ((if_neg hold).trans h)
  · rw [hasRung_hangBell, if_neg hold, h]
  · exact h

/-- A put takes back no ringing either. -/
theorem hasRung_put_of_hasRung {bell : Nat} {queue : HandoffQueue α}
    (h : queue.hasRung bell = true) (thread producer : Nat) (element : α) :
    (queue.put thread producer element).2.hasRung bell = true := by
  obtain ⟨-, hput⟩ | ⟨-, -, hput⟩ | ⟨-, -, hput⟩ | ⟨-, -, hput⟩ :=
    queue.put_cases thread producer element <;> rw [hput]
  · exact h
  · by_cases hempty : queue.items = []
    · have hold : bell ≠ queue.bellCount := Nat.ne_of_lt (lt_bellCount_of_hasRung h)
      rw [hasRung, (bells_accept_of_empty producer element hempty).1]
      show queue.ringBell.hangBell.hasRung bell = true
      rw [hasRung_hangBell, bellCount_ringBell, if_neg hold]
      exact hasRung_ringBell_of_hasRung h
    · rw [hasRung, (bells_accept_of_ne_nil producer element hempty).1]
      exact h
  · exact h
  · exact h

/-- No move takes back a ringing. -/
theorem hasRung_apply_of_hasRung {bell : Nat} {queue : HandoffQueue α}
    (h : queue.hasRung bell = true) (move : Move α) :
    (move.apply queue).hasRung bell = true := by
  cases move with
  | put thread producer element => exact hasRung_put_of_hasRung h thread producer element
  | availability => exact hasRung_availability_of_hasRung h
  | notifyAvailable | close => exact hasRung_ringBell_of_hasRung h
  | take thread =>
      simp only [Move.apply, take]
      split
      · exact h
      · split
        · exact h
        · split <;> exact h
  | poll =>
      simp only [Move.apply, poll]
      split <;> exact h
  | wakeProducer _ | wakeConsumer => exact h

/-- All bells still hang after one was handed out, also that one and the bell in use. -/
theorem hung_availability {queue : HandoffQueue α} (h : queue.bell < queue.bellCount) :
    queue.bellCount ≤ queue.availability.2.bellCount ∧
      queue.availability.1 < queue.availability.2.bellCount ∧
      queue.availability.2.bell < queue.availability.2.bellCount := by
  obtain ⟨-, hcase⟩ | ⟨-, -, hcase⟩ | ⟨-, -, hcase⟩ := queue.availability_cases <;> rw [hcase]
  · have hcount : (queue.bells.hang OneShot.completed).2.signals.size = queue.bellCount + 1 :=
      SignalBoard.size_hang ..
    simp only [bellCount] at hcount h ⊢
    omega
  · simp
  · exact ⟨Nat.le_refl _, h, h⟩

/-- The bell handed out by a queue that is not ready is the one in use from then on. -/
theorem bell_availability {queue : HandoffQueue α} (h : ¬ queue.IsReady) :
    queue.availability.2.bell = queue.availability.1 := by
  obtain ⟨hready, -⟩ | ⟨-, -, hcase⟩ | ⟨-, -, hcase⟩ := queue.availability_cases
  · exact absurd hready h
  · rw [hcase, bell_hangBell]
  · rw [hcase]

end HandoffQueue

/-- A queue and the bells that callers of `availability` were given, oldest first. -/
structure Belfry (α : Type) where
  queue : HandoffQueue α
  handed : List Nat := []

namespace Belfry

open HandoffQueue (Move)

variable {α : Type}

/-- A new queue, whose bell nobody has asked for. -/
def opened (capacity : Nat) : Belfry α := { queue := HandoffQueue.ofCapacity capacity }

/-- The bell that a move hands out. -/
def given (queue : HandoffQueue α) : Move α → List Nat
  | .availability => [queue.availability.1]
  | _ => []

/-- The belfry after a move. -/
def step (belfry : Belfry α) (move : Move α) : Belfry α where
  queue := move.apply belfry.queue
  handed := belfry.handed ++ given belfry.queue move

/-- The belfry after one move after the other. -/
def after (belfry : Belfry α) (moves : List (Move α)) : Belfry α := moves.foldl step belfry

/-- No bell that was handed out can be missed: while it has not rung, it is the bell in use, and
there is nothing to read yet. -/
structure Sound (belfry : Belfry α) : Prop where
  hung : belfry.queue.bell < belfry.queue.bellCount
  handedOut : ∀ bell ∈ belfry.handed, bell < belfry.queue.bellCount
  waiting : ∀ bell ∈ belfry.handed, belfry.queue.hasRung bell = false →
    bell = belfry.queue.bell ∧ belfry.queue.items = [] ∧ belfry.queue.closed = false

theorem sound_opened (capacity : Nat) : Sound (opened capacity : Belfry α) where
  hung := Nat.zero_lt_one
  handedOut := by simp [opened]
  waiting := by simp [opened]

/-- A move that hands out no bell and leaves the bells alone may only take elements away, unless
there were some. -/
theorem sound_of_same {queue after : HandoffQueue α} {handed : List Nat}
    (h : Sound ⟨queue, handed⟩) (hbells : after.bells = queue.bells)
    (hbell : after.bell = queue.bell)
    (hitems : queue.items = [] → after.items = []) (hclosed : after.closed = queue.closed) :
    Sound ⟨after, handed⟩ where
  hung := by
    show after.bell < after.bells.signals.size
    rw [hbells, hbell]
    exact h.hung
  handedOut bell hmem := by
    show bell < after.bells.signals.size
    rw [hbells]
    exact h.handedOut bell hmem
  waiting bell hmem hrung := by
    have hbefore : queue.hasRung bell = false := by
      rw [← hrung, HandoffQueue.hasRung, HandoffQueue.hasRung, hbells]
    obtain ⟨hsame, hempty, hopen⟩ := h.waiting bell hmem hbefore
    exact ⟨hsame.trans hbell.symm, hitems hempty, hclosed.trans hopen⟩

/-- Who was given fewer bells misses none either. -/
theorem sound_mono {queue : HandoffQueue α} {handed more : List Nat}
    (h : Sound ⟨queue, more⟩) (hsub : handed ⊆ more) : Sound ⟨queue, handed⟩ where
  hung := h.hung
  handedOut bell hmem := h.handedOut bell (hsub hmem)
  waiting bell hmem := h.waiting bell (hsub hmem)

/-- Once every bell that was handed out has rung, the queue may change in any way. -/
theorem sound_of_rung {queue : HandoffQueue α} {handed : List Nat}
    (hhung : queue.bell < queue.bellCount)
    (hrung : ∀ bell ∈ handed, queue.hasRung bell = true) : Sound ⟨queue, handed⟩ where
  hung := hhung
  handedOut bell hmem := HandoffQueue.lt_bellCount_of_hasRung (hrung bell hmem)
  waiting bell hmem hnot := absurd (hrung bell hmem) (by simp [hnot])

/-- Ringing the bell in use rings every bell that somebody still waits for. -/
theorem hasRung_ringBell_of_sound {belfry : Belfry α} (h : Sound belfry) {bell : Nat}
    (hmem : bell ∈ belfry.handed) : belfry.queue.ringBell.hasRung bell = true := by
  rw [HandoffQueue.hasRung_ringBell, Bool.or_eq_true, decide_eq_true_eq]
  cases hrung : belfry.queue.hasRung bell with
  | true => exact .inl rfl
  | false => exact .inr ⟨(h.waiting bell hmem hrung).1, h.hung⟩

/-- If there is something to read, or never will be, then nobody waits. -/
theorem hasRung_of_sound {belfry : Belfry α} (h : Sound belfry)
    (hready : belfry.queue.IsReady) {bell : Nat}
    (hmem : bell ∈ belfry.handed) : belfry.queue.hasRung bell = true := by
  cases hrung : belfry.queue.hasRung bell with
  | true => rfl
  | false =>
      obtain ⟨-, hempty, hopen⟩ := h.waiting bell hmem hrung
      simp [HandoffQueue.IsReady, hempty, hopen] at hready

/-- A put that finds the queue empty leaves nobody waiting, whether it is accepted or not. -/
theorem hasRung_put_of_empty {belfry : Belfry α} (h : Sound belfry)
    (hroom : 0 < belfry.queue.capacity) (hempty : belfry.queue.items = [])
    (thread producer : Nat) (element : α) {bell : Nat} (hmem : bell ∈ belfry.handed) :
    (belfry.queue.put thread producer element).2.hasRung bell = true := by
  obtain ⟨hclosed, hput⟩ | ⟨-, -, hput⟩ | ⟨-, hfull, -⟩ | ⟨-, hfull, -⟩ :=
    belfry.queue.put_cases thread producer element
  · rw [hput]
    exact hasRung_of_sound h (.inr hclosed) hmem
  · have hnew : bell ≠ belfry.queue.bellCount := Nat.ne_of_lt (h.handedOut bell hmem)
    rw [hput, HandoffQueue.hasRung, (HandoffQueue.bells_accept_of_empty _ _ hempty).1]
    show belfry.queue.ringBell.hangBell.hasRung bell = true
    rw [HandoffQueue.hasRung_hangBell, HandoffQueue.bellCount_ringBell, if_neg hnew,
      hasRung_ringBell_of_sound h hmem]
  · exact absurd hfull (by simpa [hempty] using Nat.ne_of_gt hroom)
  · exact absurd hfull (by simpa [hempty] using Nat.ne_of_gt hroom)

/-- Whoever asks again while a bell that was handed out has not rung is given the same bell, and
afterwards another. -/
theorem availability_eq_iff {belfry : Belfry α} (h : Sound belfry) {bell : Nat}
    (hmem : bell ∈ belfry.handed) :
    belfry.queue.availability.1 = bell ↔ belfry.queue.hasRung bell = false := by
  have hnew : belfry.queue.bellCount ≠ bell := Nat.ne_of_gt (h.handedOut bell hmem)
  obtain ⟨hready, hcase⟩ | ⟨-, hrung, hcase⟩ | ⟨-, hrung, hcase⟩ :=
    belfry.queue.availability_cases <;> rw [hcase]
  · exact iff_of_false hnew (by simp [hasRung_of_sound h hready hmem])
  · refine iff_of_false hnew fun hwaits => ?_
    obtain ⟨rfl, -, -⟩ := h.waiting bell hmem hwaits
    exact Bool.noConfusion (hrung.symm.trans hwaits)
  · constructor
    · rintro rfl
      exact hrung
    · exact fun hwaits => (h.waiting bell hmem hwaits).1.symm

/-! ### Every move -/

/-- Putting into an empty queue leaves a bell in use that hangs. -/
theorem hung_accept_of_empty (producer : Nat) (element : α) {queue : HandoffQueue α}
    (hempty : queue.items = []) :
    (queue.accept producer element).bell < (queue.accept producer element).bellCount := by
  obtain ⟨hbells, hbell⟩ := HandoffQueue.bells_accept_of_empty producer element hempty
  rw [HandoffQueue.bellCount, hbells, hbell]
  show queue.ringBell.bellCount < queue.ringBell.hangBell.bellCount
  simp

/-- A put touches the bells only if the queue was empty, and then nobody waits afterwards. -/
theorem sound_put {belfry : Belfry α} (h : Sound belfry) (hroom : 0 < belfry.queue.capacity)
    (thread producer : Nat) (element : α) :
    Sound ⟨(belfry.queue.put thread producer element).2, belfry.handed⟩ := by
  have hrung (hempty : belfry.queue.items = []) := fun bell (hmem : bell ∈ belfry.handed) =>
    hasRung_put_of_empty h hroom hempty thread producer element hmem
  obtain ⟨-, hput⟩ | ⟨-, -, hput⟩ | ⟨-, -, hput⟩ | ⟨-, -, hput⟩ :=
    belfry.queue.put_cases thread producer element <;> rw [hput] at hrung ⊢
  · exact h
  · by_cases hempty : belfry.queue.items = []
    · exact sound_of_rung (hung_accept_of_empty _ _ hempty) (hrung hempty)
    · obtain ⟨hbells, hbell⟩ :=
        HandoffQueue.bells_accept_of_ne_nil producer element hempty
      exact sound_of_same h hbells hbell (fun hnil => absurd hnil hempty)
        (HandoffQueue.closed_accept ..)
  · exact sound_of_same h rfl rfl id rfl
  · exact sound_of_same h rfl rfl id rfl

theorem sound_take {belfry : Belfry α} (h : Sound belfry) (thread : Nat) :
    Sound ⟨(belfry.queue.take thread).2, belfry.handed⟩ := by
  unfold HandoffQueue.take
  split
  case h_1 head rest hitems =>
      exact sound_of_same h rfl rfl (fun hnil => absurd hnil (by simp [hitems])) rfl
  case h_2 =>
      split
      · exact h
      · split <;> exact sound_of_same h rfl rfl id rfl

theorem sound_poll {belfry : Belfry α} (h : Sound belfry) :
    Sound ⟨belfry.queue.poll.2, belfry.handed⟩ := by
  unfold HandoffQueue.poll
  split
  case h_1 head rest hitems =>
      exact sound_of_same h rfl rfl (fun hnil => absurd hnil (by simp [hitems])) rfl
  case h_2 => exact h

/-- A bell that has not rung after one was handed out is that one: it was handed out before only
if it was given again. -/
theorem sound_availability {belfry : Belfry α} (h : Sound belfry) :
    Sound ⟨belfry.queue.availability.2, belfry.handed ++ [belfry.queue.availability.1]⟩ := by
  obtain ⟨hcount, hgiven, hhung⟩ := HandoffQueue.hung_availability h.hung
  refine ⟨hhung, fun bell hmem => ?_, fun bell hmem hrung => ?_⟩
  · rcases List.mem_append.1 hmem with hold | hnew
    · exact Nat.lt_of_lt_of_le (h.handedOut bell hold) hcount
    · exact List.mem_singleton.1 hnew ▸ hgiven
  · have hsame : belfry.queue.availability.1 = bell := by
      rcases List.mem_append.1 hmem with hold | hnew
      · refine (availability_eq_iff h hold).2 (Bool.eq_false_iff.2 fun hbefore => ?_)
        exact Bool.noConfusion
          (hrung.symm.trans (HandoffQueue.hasRung_availability_of_hasRung hbefore))
      · exact (List.mem_singleton.1 hnew).symm
    subst hsame
    have hready : ¬ belfry.queue.IsReady :=
      mt (HandoffQueue.hasRung_availability _).2 (Bool.eq_false_iff.1 hrung)
    obtain ⟨hempty, hopen⟩ : belfry.queue.items = [] ∧ belfry.queue.closed = false := by
      simpa [HandoffQueue.IsReady] using hready
    obtain ⟨hitems, hclosed⟩ := HandoffQueue.availability_same belfry.queue
    exact ⟨(HandoffQueue.bell_availability hready).symm, hitems.trans hempty,
      hclosed.trans hopen⟩

/-- Ringing the bell in use, and no more that callers can see, leaves nobody waiting. -/
theorem sound_ringBell {belfry : Belfry α} (h : Sound belfry) {after : HandoffQueue α}
    (hbells : after.bells = belfry.queue.ringBell.bells) (hbell : after.bell = belfry.queue.bell) :
    Sound ⟨after, belfry.handed⟩ := by
  refine sound_of_rung ?_ fun bell hmem => ?_
  · rw [HandoffQueue.bellCount, hbells, hbell]
    exact Nat.lt_of_lt_of_eq h.hung (HandoffQueue.bellCount_ringBell _).symm
  · rw [HandoffQueue.hasRung, hbells]
    exact hasRung_ringBell_of_sound h hmem

/-- A move that is no call of `availability` hands out nothing. -/
theorem step_of_given_nil {belfry : Belfry α} {move : Move α} (h : given belfry.queue move = []) :
    belfry.step move = ⟨move.apply belfry.queue, belfry.handed⟩ := by
  rw [step, h, List.append_nil]

/-- Every move keeps the belfry sound. -/
theorem sound_step {belfry : Belfry α} (h : Sound belfry) (hroom : 0 < belfry.queue.capacity)
    (move : Move α) : Sound (belfry.step move) := by
  cases move with
  | availability => exact sound_availability h
  | put thread producer element =>
      rw [step_of_given_nil rfl]
      exact sound_put h hroom thread producer element
  | take thread =>
      rw [step_of_given_nil rfl]
      exact sound_take h thread
  | poll =>
      rw [step_of_given_nil rfl]
      exact sound_poll h
  | notifyAvailable | close =>
      rw [step_of_given_nil rfl]
      exact sound_ringBell h rfl rfl
  | wakeProducer _ | wakeConsumer =>
      rw [step_of_given_nil rfl]
      exact sound_of_same h rfl rfl id rfl

/-- A belfry stays sound whatever happens to it. -/
theorem sound_after {belfry : Belfry α} (h : Sound belfry) (hroom : 0 < belfry.queue.capacity)
    (moves : List (Move α)) :
    Sound (belfry.after moves) ∧ 0 < (belfry.after moves).queue.capacity := by
  induction moves generalizing belfry with
  | nil => exact ⟨h, hroom⟩
  | cons move moves ih =>
      refine ih (sound_step h hroom move) ?_
      exact Nat.lt_of_lt_of_eq hroom (HandoffQueue.capacity_apply move belfry.queue).symm

/-- No bell is missed.  Whatever was done to a queue of any capacity: a bell handed out at any
time that has not rung is the bell in use, and the queue is empty and open.  So a put into the
empty queue, a notification and a close leave no bell that has not rung; whoever asks is given a
bell that was handed out before exactly if that one has not rung since; and the bell it is given
has rung exactly if there is something to read or the queue is closed. -/
theorem no_bell_missed (capacity : Nat) (moves : List (Move α)) :
    let belfry := (opened capacity : Belfry α).after moves
    let queue := belfry.queue
    (∀ bell ∈ belfry.handed, queue.hasRung bell = false →
      bell = queue.bell ∧ queue.items = [] ∧ queue.closed = false) ∧
    (∀ bell ∈ belfry.handed, ∀ thread producer element, queue.items = [] →
      (queue.put thread producer element).2.hasRung bell = true) ∧
    (∀ bell ∈ belfry.handed,
      queue.notifyAvailable.hasRung bell = true ∧ queue.close.hasRung bell = true) ∧
    (∀ bell ∈ belfry.handed, queue.availability.1 = bell ↔ queue.hasRung bell = false) ∧
    (queue.availability.2.hasRung queue.availability.1 = true ↔
      queue.items ≠ [] ∨ queue.closed = true) := by
  intro belfry queue
  obtain ⟨hsound, hroom⟩ : Sound belfry ∧ 0 < belfry.queue.capacity :=
    sound_after (sound_opened capacity) (Nat.lt_of_lt_of_le Nat.one_pos (Nat.le_max_right ..)) moves
  refine ⟨hsound.waiting, fun bell hmem thread producer element hempty => ?_,
    fun bell hmem => ⟨?_, ?_⟩, fun bell hmem => availability_eq_iff hsound hmem,
    HandoffQueue.hasRung_availability queue⟩
  · exact hasRung_put_of_empty hsound hroom hempty thread producer element hmem
  · exact hasRung_ringBell_of_sound hsound hmem
  · exact hasRung_ringBell_of_sound hsound hmem

end Belfry

/-! ### Queues in order -/

namespace HandoffQueue

variable {α : Type} {queue : HandoffQueue α} {handed : List Nat} {bell : Nat}

/-- An open queue in which nobody sleeps for want of room that there is, and of whose bells those
that were handed out are not missed. -/
structure InOrder (handed : List Nat) (queue : HandoffQueue α) : Prop where
  room : 0 < queue.capacity
  isOpen : queue.closed = false
  roomy : queue.items.length < queue.capacity → queue.asleepInPut = []
  bells : Belfry.Sound ⟨queue, handed⟩

theorem inOrder_ofCapacity (capacity : Nat) :
    (ofCapacity capacity : HandoffQueue α).InOrder [] where
  room := Nat.lt_of_lt_of_le Nat.one_pos (Nat.le_max_right ..)
  isOpen := rfl
  roomy _ := rfl
  bells := Belfry.sound_opened capacity

/-- Who forgets a bell does not miss it. -/
theorem inOrder_mono {more : List Nat} (h : queue.InOrder more) (hsub : handed ⊆ more) :
    queue.InOrder handed where
  room := h.room
  isOpen := h.isOpen
  roomy := h.roomy
  bells := Belfry.sound_mono h.bells hsub

theorem inOrder_put (h : queue.InOrder handed) (thread producer : Nat) (element : α) :
    (queue.put thread producer element).2.InOrder handed := by
  obtain ⟨hroom, hopen, hroomy, hbells⟩ := h
  have hbells' := Belfry.sound_put hbells hroom thread producer element
  obtain ⟨-, hput⟩ | ⟨-, hfits, hput⟩ | ⟨-, -, hput⟩ | ⟨-, hfull, hput⟩ :=
    queue.put_cases thread producer element <;> rw [hput] at hbells' ⊢
  · exact ⟨hroom, hopen, hroomy, hbells⟩
  · refine ⟨?_, ?_, fun _ => ?_, hbells'⟩
    · rwa [capacity_accept]
    · rwa [closed_accept]
    · rw [asleepInPut_accept, hroomy hfits]
  · exact ⟨hroom, hopen, hroomy, hbells'⟩
  · exact ⟨hroom, hopen, fun hfits => absurd hfits (Nat.not_lt.2 hfull), hbells'⟩

theorem inOrder_notifyAvailable (h : queue.InOrder handed) :
    queue.notifyAvailable.InOrder handed :=
  ⟨h.room, h.isOpen, h.roomy, Belfry.sound_ringBell h.bells rfl rfl⟩

theorem inOrder_wakeProducer (h : queue.InOrder handed) (producer : Nat) :
    (queue.wakeProducer producer).InOrder handed :=
  ⟨h.room, h.isOpen, fun _ => rfl, Belfry.sound_of_same h.bells rfl rfl id rfl⟩

theorem inOrder_poll (h : queue.InOrder handed) : queue.poll.2.InOrder handed := by
  have hbells := Belfry.sound_poll h.bells
  cases hitems : queue.items with
  | nil =>
      rw [poll_nil hitems]
      exact h
  | cons head rest =>
      rw [poll_cons hitems] at hbells ⊢
      exact ⟨h.room, h.isOpen, fun _ => rfl, hbells⟩

theorem inOrder_take (h : queue.InOrder handed) (thread : Nat) :
    (queue.take thread).2.InOrder handed := by
  have hbells := Belfry.sound_take h.bells thread
  obtain ⟨head, rest, -, htake⟩ | ⟨-, htake⟩ | ⟨-, htake⟩ | ⟨-, -, -, htake⟩ :=
    queue.take_cases thread <;> rw [htake] at hbells ⊢
  · exact ⟨h.room, h.isOpen, fun _ => rfl, hbells⟩
  · exact h
  · exact ⟨h.room, h.isOpen, h.roomy, hbells⟩
  · exact ⟨h.room, h.isOpen, h.roomy, hbells⟩

theorem inOrder_wakeConsumer (h : queue.InOrder handed) : queue.wakeConsumer.InOrder handed :=
  ⟨h.room, h.isOpen, h.roomy, Belfry.sound_of_same h.bells rfl rfl id rfl⟩

/-- Who asks for a bell is given one that is not missed. -/
theorem inOrder_availability (h : queue.InOrder handed) :
    queue.availability.2.InOrder (handed ++ [queue.availability.1]) := by
  obtain ⟨hitems, hclosed⟩ := queue.availability_same
  have hcapacity : queue.availability.2.capacity = queue.capacity :=
    capacity_apply .availability queue
  refine ⟨?_, ?_, ?_, Belfry.sound_availability h.bells⟩
  · rw [hcapacity]
    exact h.room
  · rw [hclosed]
    exact h.isOpen
  · rw [hitems, hcapacity, queue.availability_waiting.1]
    exact h.roomy

/-- While a bell that was handed out has not rung, there is nothing to read, and room. -/
theorem empty_of_silent (h : queue.InOrder handed) (hmem : bell ∈ handed)
    (hsilent : queue.hasRung bell = false) : queue.items = [] ∧ queue.hasRoom = true := by
  have hempty := (h.bells.waiting bell hmem hsilent).2.1
  refine ⟨hempty, decide_eq_true ?_⟩
  rw [hempty]
  exact h.room

end HandoffQueue

end SplitFeed
