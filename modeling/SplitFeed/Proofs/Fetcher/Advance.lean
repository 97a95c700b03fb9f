/-
# What a step of a fetcher's thread can do

`Advance` lists the steps of the thread, one constructor for each way in which a phase can end,
with what has to be the case for it and what it changes.  `advance_of_step?` says that the list is
complete; later proofs take a step apart by it and never look at `step?` again.

What a step puts into the queue is named by `handsOver`.
-/
import SplitFeed.Fetcher.Step
import SplitFeed.Proofs.Handoff.Moves
import Mathlib.Data.Option.Basic

namespace SplitFeed.Fetcher

variable {ρ : Type} [SplitReader ρ]

/-- The steps of a thread.  A phase that can end in several ways has a constructor for each. -/
inductive Advance (disturbed : List Bool) (f : Fetcher ρ) (d : Depot) : Fetcher ρ → Depot → Prop
  | halt (hphase : f.phase = .deciding) (hstop : f.duty.stop.isSome) :
      Advance disturbed f d { f with phase := .finishing false } d
  | start (hphase : f.phase = .deciding) (hstop : f.duty.stop = none) :
      Advance disturbed f d { f with phase := .starting } d
  | forget (hphase : f.phase = .starting) :
      Advance disturbed f d { f with wakeRequested := false, phase := .collecting } d
  | skip (hphase : f.phase = .collecting) (hpaused : f.duty.paused = true) :
      Advance disturbed f d { f with phase := .cycled (.ok .paused) } d
  | collect (hphase : f.phase = .collecting) (hpaused : f.duty.paused = false) :
      Advance disturbed f d
        { f with duty := { f.duty with pending := [] }, phase := .handing f.duty.pending } d
  | hand {change rest recycled reader} (hphase : f.phase = .handing (change :: rest))
      (hcall : SplitReader.change change f.reader = (.returned (), recycled, reader)) :
      Advance disturbed f d { f with reader, phase := .handing rest }
        { d with recycled := d.recycled ++ recycled }
  | handFail {change rest recycled reader cause} (hphase : f.phase = .handing (change :: rest))
      (hcall : SplitReader.change change f.reader = (.failed cause, recycled, reader)) :
      Advance disturbed f d
        { f with reader, phase := .cycled (.error (.changesNotHanded f.id cause)) }
        { d with recycled := d.recycled ++ recycled }
  | handPanic {change rest recycled reader text} (hphase : f.phase = .handing (change :: rest))
      (hcall : SplitReader.change change f.reader = (.panicked text, recycled, reader)) :
      Advance disturbed f d { f with reader, phase := .panicked text }
        { d with recycled := d.recycled ++ recycled }
  | retry {batch} (hphase : f.phase = .handing []) (hleft : f.leftover = some batch) :
      Advance disturbed f d { f with leftover := none, phase := .publishing batch false } d
  | check (hphase : f.phase = .handing []) (hleft : f.leftover = none) :
      Advance disturbed f d { f with phase := .checking } d
  | findNothing (hphase : f.phase = .checking) (hassigned : f.duty.assigned = []) :
      Advance disturbed f d { f with phase := .idling .idle } d
  | findSplits (hphase : f.phase = .checking) (hassigned : f.duty.assigned ≠ []) :
      Advance disturbed f d
        { f with duty := { f.duty with fetching := true }, phase := .fetching } d
  | fetch {batch reader} (hphase : f.phase = .fetching)
      (hcall : SplitReader.fetch d.store disturbed f.reader = (.returned batch, reader)) :
      Advance disturbed f d { f with reader, phase := .weighing batch } d
  | fetchFail {cause reader} (hphase : f.phase = .fetching)
      (hcall : SplitReader.fetch d.store disturbed f.reader = (.failed cause, reader)) :
      Advance disturbed f d { f with reader, phase := .fetchLost cause } d
  | fetchPanic {text reader} (hphase : f.phase = .fetching)
      (hcall : SplitReader.fetch d.store disturbed f.reader = (.panicked text, reader)) :
      Advance disturbed f d { f with reader, phase := .panicked text } d
  | lose {cause} (hphase : f.phase = .fetchLost cause) :
      Advance disturbed f d
        { f with
          duty := { f.duty with fetching := false }
          phase := .cycled (.error (.fetchFailed f.id cause)) } d
  | turnAway {batch} (hphase : f.phase = .weighing batch) (hwake : f.wakeRequested = true) :
      Advance disturbed f d { f with wakeRequested := false, phase := .rewinding batch } d
  | keep {batch} (hphase : f.phase = .weighing batch) (hwake : f.wakeRequested = false) :
      Advance disturbed f d { f with phase := .booking batch } d
  | rewind {batch result recycled reader} (hphase : f.phase = .rewinding batch)
      (hcall : SplitReader.rewind batch f.reader = (result, recycled, reader))
      (hresult : ∀ text, result ≠ .panicked text) :
      Advance disturbed f d { f with reader, phase := .rewound }
        { d with recycled := d.recycled ++ recycled }
  | rewindPanic {batch text recycled reader} (hphase : f.phase = .rewinding batch)
      (hcall : SplitReader.rewind batch f.reader = (.panicked text, recycled, reader)) :
      Advance disturbed f d { f with reader, phase := .panicked text }
        { d with recycled := d.recycled ++ recycled }
  | staleEnd (hphase : f.phase = .rewound) :
      Advance disturbed f d
        { f with duty := { f.duty with fetching := false }, phase := .cycled (.ok .stale) } d
  | bookNothingLast {batch} (hphase : f.phase = .booking batch) (hempty : batch.isEmpty = true)
      (hlast : (f.duty.book batch.finished).assigned = []) :
      Advance disturbed f d
        { f with duty := f.duty.book batch.finished, phase := .idling .empty } (discard batch d)
  | bookNothing {batch} (hphase : f.phase = .booking batch) (hempty : batch.isEmpty = true)
      (hlast : (f.duty.book batch.finished).assigned ≠ []) :
      Advance disturbed f d
        { f with duty := f.duty.book batch.finished, phase := .cycled (.ok .empty) }
        (discard batch d)
  | book {batch} (hphase : f.phase = .booking batch) (hempty : batch.isEmpty = false) :
      Advance disturbed f d
        { f with
          duty := f.duty.book batch.finished
          phase := .publishing batch (f.duty.book batch.finished).assigned.isEmpty } d
  | publish {batch last} (hphase : f.phase = .publishing batch last)
      (hawake : f.isAsleepInPut d = false) (hopen : d.queue.closed = false)
      (hroom : d.queue.hasRoom = true) :
      Advance disturbed f d { f with phase := .noting .published last }
        { d with queue := d.queue.accept f.id batch }
  | defer {batch last} (hphase : f.phase = .publishing batch last)
      (hawake : f.isAsleepInPut d = false) (hopen : d.queue.closed = false)
      (hroom : d.queue.hasRoom = false) (hwoken : f.id ∈ d.queue.wokenProducers) :
      Advance disturbed f d
        { f with leftover := some batch, phase := .noting .publishDeferred last }
        { d with queue := { d.queue with
          wokenProducers := d.queue.wokenProducers.erase f.id } }
  | shutOut {batch last} (hphase : f.phase = .publishing batch last)
      (hawake : f.isAsleepInPut d = false) (hclosed : d.queue.closed = true) :
      Advance disturbed f d { f with phase := .noting .queueClosed last } (discard batch d)
  | doze {batch last} (hphase : f.phase = .publishing batch last)
      (hawake : f.isAsleepInPut d = false) (hopen : d.queue.closed = false)
      (hroom : d.queue.hasRoom = false) (hwoken : f.id ∉ d.queue.wokenProducers) :
      Advance disturbed f d f
        { d with queue := { d.queue with asleepInPut := d.queue.asleepInPut ++ [f.id] } }
  | noteLast {outcome} (hphase : f.phase = .noting outcome true)
      (houtcome : outcome ≠ .publishDeferred) :
      Advance disturbed f d
        { f with
          duty := { f.duty with unpublished := f.leftover.isSome }
          phase := .idling outcome } d
  | note {outcome last} (hphase : f.phase = .noting outcome last)
      (hlast : last = true → outcome = .publishDeferred) :
      Advance disturbed f d
        { f with
          duty := { f.duty with unpublished := f.leftover.isSome }
          phase := .cycled (.ok outcome) } d
  | stayIdle {outcome} (hphase : f.phase = .idling outcome) (hidle : f.duty.idle = true) :
      Advance disturbed f d { f with phase := .cycled (.ok outcome) } d
  | turnIdle {outcome} (hphase : f.phase = .idling outcome) (hidle : f.duty.idle = false) :
      Advance disturbed f d
        { f with duty := { f.duty with idle := true }, phase := .ringing outcome } d
  | ring {outcome} (hphase : f.phase = .ringing outcome) :
      Advance disturbed f d { f with phase := .cycled (.ok outcome) }
        { d with queue := d.queue.notifyAvailable }
  | lieDown {outcome} (hphase : f.phase = .cycled (.ok outcome)) (hloop : f.looping = true)
      (houtcome : outcome = .paused ∨ outcome = .idle) :
      Advance disturbed f d { f with phase := .parking } d
  | giveUp (hphase : f.phase = .cycled (.ok .queueClosed)) (hloop : f.looping = true) :
      Advance disturbed f d { f with phase := .stopping } d
  | goOn {outcome} (hphase : f.phase = .cycled (.ok outcome)) (hloop : f.looping = true)
      (hidle : outcome ≠ .paused ∧ outcome ≠ .idle) (hopen : outcome ≠ .queueClosed) :
      Advance disturbed f d { f with phase := .deciding } d
  | report {failure} (hphase : f.phase = .cycled (.error failure)) (hloop : f.looping = true) :
      Advance disturbed f d { f with phase := .finishing true }
        { d with failures := d.failures ++ [failure] }
  | stop (hphase : f.phase = .stopping) :
      Advance disturbed f d
        { f with
          duty := { f.duty with stop := f.duty.stop.getD .immediate }
          phase := .finishing false } d
  | nap (hphase : f.phase = .parking) (hmay : f.duty.mayPark = true) :
      Advance disturbed f d { f with napping := true, phase := .parked } d
  | stayUp (hphase : f.phase = .parking) (hmay : f.duty.mayPark = false) :
      Advance disturbed f d { f with phase := .deciding } d
  | getUp (hphase : f.phase = .parked) (hawake : f.napping = false) :
      Advance disturbed f d { f with phase := .deciding } d
  | drain (hphase : f.phase = .finishing false) (hstop : f.duty.stop = some .draining) :
      Advance disturbed f d { f with phase := .flushing } d
  | drop {failed} (hphase : f.phase = .finishing failed)
      (hstop : failed = false → f.duty.stop ≠ some .draining) :
      Advance disturbed f d { f with leftover := none, phase := .closing }
        { d with recycled := d.recycled ++ (f.leftover.elim [] (·.recycle)) }
  | flushNothing (hphase : f.phase = .flushing) (hawake : f.isAsleepInPut d = false)
      (hleft : f.leftover = none) :
      Advance disturbed f d { f with phase := .flushed } d
  | flush {batch} (hphase : f.phase = .flushing) (hawake : f.isAsleepInPut d = false)
      (hleft : f.leftover = some batch) (hopen : d.queue.closed = false)
      (hroom : d.queue.hasRoom = true) :
      Advance disturbed f d { f with leftover := none }
        { d with queue := d.queue.accept f.id batch }
  | flushAgain {batch} (hphase : f.phase = .flushing) (hawake : f.isAsleepInPut d = false)
      (hleft : f.leftover = some batch) (hopen : d.queue.closed = false)
      (hroom : d.queue.hasRoom = false) (hwoken : f.id ∈ d.queue.wokenProducers) :
      Advance disturbed f d f
        { d with queue := { d.queue with
          wokenProducers := d.queue.wokenProducers.erase f.id } }
  | flushShut {batch} (hphase : f.phase = .flushing) (hawake : f.isAsleepInPut d = false)
      (hleft : f.leftover = some batch) (hclosed : d.queue.closed = true) :
      Advance disturbed f d { f with leftover := none } (discard batch d)
  | flushDoze {batch} (hphase : f.phase = .flushing) (hawake : f.isAsleepInPut d = false)
      (hleft : f.leftover = some batch) (hopen : d.queue.closed = false)
      (hroom : d.queue.hasRoom = false) (hwoken : f.id ∉ d.queue.wokenProducers) :
      Advance disturbed f d f
        { d with queue := { d.queue with asleepInPut := d.queue.asleepInPut ++ [f.id] } }
  | clear (hphase : f.phase = .flushed) :
      Advance disturbed f d
        { f with duty := { f.duty with unpublished := false }, phase := .announcing } d
  | announce (hphase : f.phase = .announcing) :
      Advance disturbed f d
        { f with duty := { f.duty with awaitingDrain := true }, phase := .tolling } d
  | toll (hphase : f.phase = .tolling) :
      Advance disturbed f d { f with phase := .latched }
        { d with queue := d.queue.notifyAvailable }
  | unlatch (hphase : f.phase = .latched) (hdone : f.drainLatch.done = true) :
      Advance disturbed f d { f with phase := .closing } d
  | close {reader} (hphase : f.phase = .closing)
      (hcall : SplitReader.close f.reader = (.returned (), reader)) :
      Advance disturbed f d { f with reader, phase := .leaving none } d
  | closeFail {cause reader} (hphase : f.phase = .closing)
      (hcall : SplitReader.close f.reader = (.failed cause, reader)) :
      Advance disturbed f d
        { f with reader, phase := .leaving (some (.readerNotClosed f.id cause)) } d
  | closePanic {text reader} (hphase : f.phase = .closing)
      (hcall : SplitReader.close f.reader = (.panicked text, reader)) :
      Advance disturbed f d { f with reader, phase := .panicked text } d
  | leave {failure} (hphase : f.phase = .leaving failure) :
      Advance disturbed f d
        { f with duty := f.duty.settle, phase := .terminating failure } d
  | terminate {failure} (hphase : f.phase = .terminating failure) :
      Advance disturbed f d
        { f with terminated := f.terminated.complete.2, phase := .ended failure } d

variable {disturbed : List Bool} {f g : Fetcher ρ} {d e : Depot}

/-- An attempt to publish is one of the steps of a publishing thread. -/
theorem advance_publish {batch : SplitBatch Record} {last : Bool}
    (hphase : f.phase = .publishing batch last) (hawake : f.isAsleepInPut d = false) :
    Advance disturbed f d (f.publish batch last d).1 (f.publish batch last d).2 := by
  cases hopen : d.queue.closed with
  | true => simpa [publish, tryPut, HandoffQueue.put, hopen, enter] using
      Advance.shutOut hphase hawake hopen
  | false =>
      cases hroom : d.queue.hasRoom with
      | true => simpa [publish, tryPut, HandoffQueue.put, hopen, hroom, enter] using
          Advance.publish hphase hawake hopen hroom
      | false =>
          by_cases hwoken : f.id ∈ d.queue.wokenProducers
          · simpa [publish, tryPut, HandoffQueue.put, hopen, hroom, hwoken, enter] using
              Advance.defer hphase hawake hopen hroom hwoken
          · simpa [publish, tryPut, HandoffQueue.put, hopen, hroom, hwoken] using
              Advance.doze hphase hawake hopen hroom hwoken

/-- An attempt to flush is one of the steps of a flushing thread. -/
theorem advance_flush (hphase : f.phase = .flushing) (hawake : f.isAsleepInPut d = false) :
    Advance disturbed f d (f.flush d).1 (f.flush d).2 := by
  cases hleft : f.leftover with
  | none => simpa [Fetcher.flush, hleft, enter] using
      Advance.flushNothing hphase hawake hleft
  | some batch =>
      cases hopen : d.queue.closed with
      | true => simpa [Fetcher.flush, tryPut, HandoffQueue.put, hleft, hopen] using
          Advance.flushShut hphase hawake hleft hopen
      | false =>
          cases hroom : d.queue.hasRoom with
          | true => simpa [Fetcher.flush, tryPut, HandoffQueue.put, hleft, hopen, hroom] using
              Advance.flush hphase hawake hleft hopen hroom
          | false =>
              by_cases hwoken : f.id ∈ d.queue.wokenProducers
              · simpa [Fetcher.flush, tryPut, HandoffQueue.put, hleft, hopen, hroom, hwoken] using
                  Advance.flushAgain hphase hawake hleft hopen hroom hwoken
              · simpa [Fetcher.flush, tryPut, HandoffQueue.put, hleft, hopen, hroom, hwoken] using
                  Advance.flushDoze hphase hawake hleft hopen hroom hwoken

/-- A call that hands a change to the reader ends in one of three ways. -/
theorem advance_hand {change : SplitsChange Split} {rest : List (SplitsChange Split)}
    (hphase : f.phase = .handing (change :: rest)) :
    Advance disturbed f d (f.hand change rest d).1 (f.hand change rest d).2 := by
  rcases hcall : SplitReader.change change f.reader with ⟨result, recycled, reader⟩
  cases result with
  | returned _ => simpa [Fetcher.hand, hcall, enter] using Advance.hand hphase hcall
  | failed _ => simpa [Fetcher.hand, hcall, enter] using Advance.handFail hphase hcall
  | panicked _ => simpa [Fetcher.hand, hcall, enter] using Advance.handPanic hphase hcall

/-- A fetch ends in one of three ways. -/
theorem advance_fetch (hphase : f.phase = .fetching) :
    Advance disturbed f d (f.fetch disturbed d) d := by
  rcases hcall : SplitReader.fetch d.store disturbed f.reader with ⟨result, reader⟩
  cases result with
  | returned _ => simpa [Fetcher.fetch, hcall, enter] using Advance.fetch hphase hcall
  | failed _ => simpa [Fetcher.fetch, hcall, enter] using Advance.fetchFail hphase hcall
  | panicked _ => simpa [Fetcher.fetch, hcall, enter] using Advance.fetchPanic hphase hcall

/-- A reader that is given a stale batch panics or does not. -/
theorem advance_rewind {batch : SplitBatch Record} (hphase : f.phase = .rewinding batch) :
    Advance disturbed f d (f.rewind batch d).1 (f.rewind batch d).2 := by
  rcases hcall : SplitReader.rewind batch f.reader with ⟨result, recycled, reader⟩
  cases result with
  | returned _ => simpa [Fetcher.rewind, hcall, enter] using Advance.rewind hphase hcall (by simp)
  | failed _ => simpa [Fetcher.rewind, hcall, enter] using Advance.rewind hphase hcall (by simp)
  | panicked _ => simpa [Fetcher.rewind, hcall, enter] using Advance.rewindPanic hphase hcall

/-- Closing the reader ends in one of three ways. -/
theorem advance_closeReader (hphase : f.phase = .closing) :
    Advance disturbed f d f.closeReader d := by
  rcases hcall : SplitReader.close f.reader with ⟨result, reader⟩
  cases result with
  | returned _ => simpa [closeReader, hcall, enter] using Advance.close hphase hcall
  | failed _ => simpa [closeReader, hcall, enter] using Advance.closeFail hphase hcall
  | panicked _ => simpa [closeReader, hcall, enter] using Advance.closePanic hphase hcall

/-- A loop goes on in one of four ways after a cycle. -/
theorem advance_afterCycle {result : Except Failure CycleOutcome}
    (hphase : f.phase = .cycled result) (hloop : f.looping = true) :
    Advance disturbed f d (f.afterCycle result d).1 (f.afterCycle result d).2 := by
  cases result with
  | error failure => exact .report hphase hloop
  | ok outcome =>
      cases outcome with
      | paused | idle => exact .lieDown hphase hloop (by simp)
      | queueClosed => exact .giveUp hphase hloop
      | published | empty | stale | publishDeferred =>
          exact .goOn hphase hloop (by simp) (by simp)

/-- Whatever the thread does next is listed. -/
theorem advance_of_step? (h : f.step? disturbed d = some (g, e)) : Advance disturbed f d g e := by
  cases hphase : f.phase with
  | resting | gone | panicked _ | ended _ => simp [step?, hphase] at h
  | deciding =>
      cases hstop : f.duty.stop with
      | none =>
          obtain ⟨rfl, rfl⟩ : _ ∧ _ := by simpa [step?, hphase, hstop, enter] using h
          exact .start hphase hstop
      | some _ =>
          obtain ⟨rfl, rfl⟩ : _ ∧ _ := by simpa [step?, hphase, hstop, enter] using h
          exact .halt hphase (by simp [hstop])
  | starting =>
      obtain ⟨rfl, rfl⟩ : _ ∧ _ := by simpa [step?, hphase, enter] using h
      exact .forget hphase
  | collecting =>
      cases hpaused : f.duty.paused with
      | true =>
          obtain ⟨rfl, rfl⟩ : _ ∧ _ := by simpa [step?, hphase, hpaused, enter] using h
          exact .skip hphase hpaused
      | false =>
          obtain ⟨rfl, rfl⟩ : _ ∧ _ := by
            simpa [step?, hphase, hpaused, enter, updateDuty] using h
          simpa [hpaused] using Advance.collect hphase hpaused
  | handing changes =>
      cases changes with
      | cons change rest =>
          have hstep : f.hand change rest d = (g, e) := by simpa [step?, hphase] using h
          simpa [hstep] using (advance_hand hphase : Advance disturbed f d _ _)
      | nil =>
          cases hleft : f.leftover with
          | some batch =>
              obtain ⟨rfl, rfl⟩ : _ ∧ _ := by simpa [step?, hphase, hleft, enter] using h
              exact .retry hphase hleft
          | none =>
              obtain ⟨rfl, rfl⟩ : _ ∧ _ := by simpa [step?, hphase, hleft, enter] using h
              simpa [hleft] using Advance.check hphase hleft
  | checking =>
      by_cases hassigned : f.duty.assigned = []
      · obtain ⟨rfl, rfl⟩ : _ ∧ _ := by simpa [step?, hphase, hassigned, enter] using h
        exact .findNothing hphase hassigned
      · obtain ⟨rfl, rfl⟩ : _ ∧ _ := by
          simpa [step?, hphase, hassigned, enter, updateDuty] using h
        exact .findSplits hphase hassigned
  | fetching =>
      obtain ⟨rfl, rfl⟩ : _ ∧ _ := by simpa [step?, hphase] using h
      exact advance_fetch hphase
  | fetchLost cause =>
      obtain ⟨rfl, rfl⟩ : _ ∧ _ := by simpa [step?, hphase, enter, updateDuty] using h
      exact .lose hphase
  | weighing batch =>
      cases hwake : f.wakeRequested with
      | true =>
          obtain ⟨rfl, rfl⟩ : _ ∧ _ := by simpa [step?, hphase, hwake, enter] using h
          exact .turnAway hphase hwake
      | false =>
          obtain ⟨rfl, rfl⟩ : _ ∧ _ := by simpa [step?, hphase, hwake, enter] using h
          simpa [hwake] using Advance.keep hphase hwake
  | rewinding batch =>
      have hstep : f.rewind batch d = (g, e) := by simpa [step?, hphase] using h
      simpa [hstep] using (advance_rewind hphase : Advance disturbed f d _ _)
  | rewound =>
      obtain ⟨rfl, rfl⟩ : _ ∧ _ := by simpa [step?, hphase, enter, updateDuty] using h
      exact .staleEnd hphase
  | booking batch =>
      cases hempty : batch.isEmpty with
      | false =>
          obtain ⟨rfl, rfl⟩ : _ ∧ _ := by
            simpa [step?, hphase, hempty, enter, updateDuty] using h
          exact .book hphase hempty
      | true =>
          by_cases hlast : (f.duty.book batch.finished).assigned = []
          · obtain ⟨rfl, rfl⟩ : _ ∧ _ := by
              simpa [step?, hphase, hempty, hlast, enter, updateDuty] using h
            exact .bookNothingLast hphase hempty hlast
          · obtain ⟨rfl, rfl⟩ : _ ∧ _ := by
              simpa [step?, hphase, hempty, hlast, enter, updateDuty] using h
            exact .bookNothing hphase hempty hlast
  | publishing batch last =>
      cases hawake : f.isAsleepInPut d with
      | true => simp [step?, hphase, hawake] at h
      | false =>
          have hstep : f.publish batch last d = (g, e) := by simpa [step?, hphase, hawake] using h
          simpa [hstep] using (advance_publish hphase hawake : Advance disturbed f d _ _)
  | noting outcome last =>
      by_cases hlast : last = true ∧ outcome ≠ .publishDeferred
      · obtain ⟨rfl, rfl⟩ : _ ∧ _ := by
          simpa [step?, hphase, hlast, enter, updateDuty] using h
        obtain ⟨rfl, houtcome⟩ := hlast
        exact .noteLast hphase houtcome
      · obtain ⟨rfl, rfl⟩ : _ ∧ _ := by
          simpa [step?, hphase, hlast, enter, updateDuty] using h
        exact .note hphase fun htrue => by_contra fun hne => hlast ⟨htrue, hne⟩
  | idling outcome =>
      cases hidle : f.duty.idle with
      | true =>
          obtain ⟨rfl, rfl⟩ : _ ∧ _ := by
            simpa [step?, hphase, hidle, enter, updateDuty] using h
          have hsame : ({ f.duty with idle := true } : Duty) = f.duty := by rw [← hidle]
          rw [hsame]
          exact .stayIdle hphase hidle
      | false =>
          obtain ⟨rfl, rfl⟩ : _ ∧ _ := by
            simpa [step?, hphase, hidle, enter, updateDuty] using h
          exact .turnIdle hphase hidle
  | ringing outcome =>
      obtain ⟨rfl, rfl⟩ : _ ∧ _ := by simpa [step?, hphase, enter] using h
      exact .ring hphase
  | cycled result =>
      cases hloop : f.looping with
      | false => simp [step?, hphase, hloop] at h
      | true =>
          have hstep : f.afterCycle result d = (g, e) := by simpa [step?, hphase, hloop] using h
          simpa [hstep] using (advance_afterCycle hphase hloop : Advance disturbed f d _ _)
  | stopping =>
      obtain ⟨rfl, rfl⟩ : _ ∧ _ := by simpa [step?, hphase, enter, updateDuty] using h
      exact .stop hphase
  | parking =>
      cases hmay : f.duty.mayPark with
      | true =>
          obtain ⟨rfl, rfl⟩ : _ ∧ _ := by simpa [step?, hphase, hmay, enter] using h
          exact .nap hphase hmay
      | false =>
          obtain ⟨rfl, rfl⟩ : _ ∧ _ := by simpa [step?, hphase, hmay, enter] using h
          exact .stayUp hphase hmay
  | parked =>
      cases hawake : f.napping with
      | true => simp [step?, hphase, hawake] at h
      | false =>
          obtain ⟨rfl, rfl⟩ : _ ∧ _ := by simpa [step?, hphase, hawake, enter] using h
          simpa [hawake] using Advance.getUp hphase hawake
  | finishing failed =>
      by_cases hstop : failed = false ∧ f.duty.stop = some .draining
      · obtain ⟨rfl, rfl⟩ : _ ∧ _ := by simpa [step?, hphase, hstop, enter] using h
        obtain ⟨rfl, hstop⟩ := hstop
        exact .drain hphase hstop
      · have hdrop : failed = false → f.duty.stop ≠ some .draining := fun hfalse hmode =>
          hstop ⟨hfalse, hmode⟩
        have hstep : f.step? disturbed d = some ({ f with leftover := none, phase := .closing },
            { d with recycled := d.recycled ++ f.leftover.elim [] (·.recycle) }) := by
          cases hleft : f.leftover <;> simp [step?, hphase, hstop, hleft, enter, discard]
        obtain ⟨rfl, rfl⟩ : _ ∧ _ := by simpa [hstep] using h
        exact .drop hphase hdrop
  | flushing =>
      cases hawake : f.isAsleepInPut d with
      | true => simp [step?, hphase, hawake] at h
      | false =>
          have hstep : f.flush d = (g, e) := by simpa [step?, hphase, hawake] using h
          simpa [hstep] using (advance_flush hphase hawake : Advance disturbed f d _ _)
  | flushed =>
      obtain ⟨rfl, rfl⟩ : _ ∧ _ := by simpa [step?, hphase, enter, updateDuty] using h
      exact .clear hphase
  | announcing =>
      obtain ⟨rfl, rfl⟩ : _ ∧ _ := by simpa [step?, hphase, enter, updateDuty] using h
      exact .announce hphase
  | tolling =>
      obtain ⟨rfl, rfl⟩ : _ ∧ _ := by simpa [step?, hphase, enter] using h
      exact .toll hphase
  | latched =>
      cases hdone : f.drainLatch.done with
      | false => simp [step?, hphase, hdone] at h
      | true =>
          obtain ⟨rfl, rfl⟩ : _ ∧ _ := by simpa [step?, hphase, hdone, enter] using h
          exact .unlatch hphase hdone
  | closing =>
      obtain ⟨rfl, rfl⟩ : _ ∧ _ := by simpa [step?, hphase] using h
      exact advance_closeReader hphase
  | leaving failure =>
      obtain ⟨rfl, rfl⟩ : _ ∧ _ := by simpa [step?, hphase, enter, updateDuty] using h
      exact .leave hphase
  | terminating failure =>
      obtain ⟨rfl, rfl⟩ : _ ∧ _ := by simpa [step?, hphase, enter] using h
      exact .terminate hphase

/-! ### What a step puts into the queue -/

omit [SplitReader ρ]

/-- The batch for which the thread's next step asks for a place in the queue. -/
def offers (f : Fetcher ρ) : Option (SplitBatch Record) :=
  match f.phase with
  | .publishing batch _ => some batch
  | .flushing => f.leftover
  | _ => none

/-- The batch that the thread's next step puts into the queue: the one it offers, if the thread
is awake and the queue takes it. -/
def handsOver (f : Fetcher ρ) (d : Depot) : Option (SplitBatch Record) :=
  if f.isAsleepInPut d || d.queue.closed || !d.queue.hasRoom then none else f.offers

theorem offers_of_handsOver {batch : SplitBatch Record} (h : f.handsOver d = some batch) :
    f.offers = some batch := by
  unfold handsOver at h
  split at h
  · cases h
  · exact h

theorem handsOver_eq_none (h : f.offers = none) : f.handsOver d = none := by
  simp [handsOver, h]

/-- A step changes the queue's content only by what it hands over, and leaves alone what only
others change. -/
structure Advanced (f : Fetcher ρ) (d : Depot) (g : Fetcher ρ) (e : Depot) : Prop where
  id : g.id = f.id
  looping : g.looping = f.looping
  items : e.queue.items = d.queue.items ++ (f.handsOver d).toList
  closed : e.queue.closed = d.queue.closed
  capacity : e.queue.capacity = d.queue.capacity
  store : e.store = d.store

theorem advanced_of_queue_eq (hid : g.id = f.id) (hlooping : g.looping = f.looping)
    (hqueue : e.queue = d.queue) (hoffers : f.offers = none) (hstore : e.store = d.store) :
    Advanced f d g e where
  id := hid
  looping := hlooping
  items := by simp [hqueue, handsOver_eq_none hoffers]
  closed := by rw [hqueue]
  capacity := by rw [hqueue]
  store := hstore

/-- Whatever the thread does, the content of the queue grows by what it hands over. -/
theorem advanced [SplitReader ρ] (h : Advance disturbed f d g e) : Advanced f d g e := by
  cases h with
  | publish hphase hawake hopen hroom =>
      exact ⟨rfl, rfl, by simp [handsOver, offers, *], by simp, by simp, rfl⟩
  | flush hphase hawake hleft hopen hroom =>
      exact ⟨rfl, rfl, by simp [handsOver, offers, *], by simp, by simp, rfl⟩
  | defer hphase hawake hopen hroom | doze hphase hawake hopen hroom =>
      exact ⟨rfl, rfl, by simp [handsOver, *], rfl, rfl, rfl⟩
  | flushAgain hphase hawake hleft hopen hroom | flushDoze hphase hawake hleft hopen hroom =>
      exact ⟨rfl, rfl, by simp [handsOver, *], rfl, rfl, rfl⟩
  | shutOut hphase hawake hclosed | flushShut hphase hawake hleft hclosed =>
      exact ⟨rfl, rfl, by simp [handsOver, discard, *], rfl, rfl, rfl⟩
  | flushNothing hphase hawake hleft =>
      exact advanced_of_queue_eq rfl rfl rfl (by simp [offers, *]) rfl
  | ring hphase | toll hphase =>
      exact ⟨rfl, rfl, by simp [handsOver, offers, *], rfl, rfl, rfl⟩
  | _ => exact advanced_of_queue_eq rfl rfl rfl (by simp [offers, *]) rfl

/-- A step tries to put one batch into the queue at most, and may ring the bell. -/
theorem queue_advance [SplitReader ρ] (h : Advance disturbed f d g e) :
    e.queue = d.queue ∨ (∃ batch, e.queue = (d.queue.put f.id f.id batch).2) ∨
      e.queue = d.queue.notifyAvailable := by
  cases h with
  | @publish batch _ _ _ hopen hroom | @flush batch _ _ _ hopen hroom =>
      exact .inr (.inl ⟨batch, by simp [HandoffQueue.put, hopen, hroom]⟩)
  | @defer batch _ _ _ hopen hroom hwoken | @doze batch _ _ _ hopen hroom hwoken
  | @flushAgain batch _ _ _ hopen hroom hwoken | @flushDoze batch _ _ _ hopen hroom hwoken =>
      exact .inr (.inl ⟨batch, by simp [HandoffQueue.put, hopen, hroom, hwoken]⟩)
  | ring | toll => exact .inr (.inr rfl)
  | _ => exact .inl rfl

end SplitFeed.Fetcher
