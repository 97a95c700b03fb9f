/-
# Fetchers that were dismissed

A fetcher was dismissed when it was asked to stop, in whichever way, its latch was released, and its
thread, if it lay down before that, was roused.  Neither its own thread nor anybody else takes that
back.

When the queue is closed as well, nothing stands in the thread's way any more.  Every phase is some
steps away from the end; `toClose` bounds their number, each step brings it down, and what others
ask for does not raise it, because splits are refused by then and a removal that the reader has
still to hear of was a split before.
-/
import SplitFeed.Proofs.Fetcher.Farewell
import SplitFeed.Proofs.Supervisor.Crew

namespace SplitFeed.Fetcher

variable {ρ : Type} {f g : Fetcher ρ} {d e : Depot} {disturbed : List Bool}

/-- The fetcher is to stop, and its own latch and nap do not keep it. -/
structure Dismissed (f : Fetcher ρ) : Prop where
  stop : f.duty.stop ≠ none
  latch : f.drainLatch.done = true
  roused : f.phase = .parked → f.napping = false

/-- The thread runs cycle after cycle, and the books are settled when it is through. -/
structure Runs (f : Fetcher ρ) : Prop where
  looping : f.looping = true
  started : f.phase ≠ .resting
  settled : f.phase.isSettled = true → f.duty.closed = true

/-- The fetcher after a request or a nudge.  Its thread stands where it stood, and what it was freed
from it is still free from. -/
structure Frees (f g : Fetcher ρ) : Prop where
  id : g.id = f.id := by rfl
  phase : g.phase = f.phase := by rfl
  looping : g.looping = f.looping := by rfl
  leftover : g.leftover = f.leftover := by rfl
  closed : g.duty.closed = f.duty.closed := by rfl
  stop : f.duty.stop ≠ none → g.duty.stop ≠ none := by exact fun h => h
  latch : f.drainLatch.done = true → g.drainLatch.done = true := by exact fun h => h
  napping : g.napping = true → f.napping = true := by exact fun h => h
  toRead : f.duty.stop ≠ none → g.duty.pending.length + g.duty.assigned.length ≤
    f.duty.pending.length + f.duty.assigned.length := by exact fun _ => Nat.le_refl _

/-- How many steps a thread that was dismissed takes at most until its books are settled.  A cycle
that has still to collect its changes has one step for each of them. -/
def toClose (f : Fetcher ρ) : Nat :=
  match f.phase with
  | .resting | .terminating _ | .ended _ | .gone | .panicked _ => 0
  | .leaving _ => 1
  | .closing => 2
  | .latched => 3
  | .tolling => 4
  | .announcing => 5
  | .flushed => 6
  | .flushing => if f.leftover.isSome then 8 else 7
  | .finishing _ => 9
  | .stopping | .deciding => 10
  | .parking | .parked => 11
  | .cycled _ => 12
  | .ringing _ | .rewound | .fetchLost _ => 13
  | .idling _ | .rewinding _ => 14
  | .noting _ _ => 15
  | .publishing _ _ => 16
  | .booking _ => 17
  | .weighing _ => 18
  | .fetching => 19
  | .checking => 20
  | .handing changes => 21 + changes.length
  | .collecting => 22 + (f.duty.pending.length + f.duty.assigned.length)
  | .starting => 23 + (f.duty.pending.length + f.duty.assigned.length)

theorem runs_new (id : Nat) (reader : ρ) : ({ id, reader } : Fetcher ρ).beginLoop.Runs :=
  ⟨rfl, nofun, nofun⟩

/-! ### What others do -/

/-- Fewer splits and one removal more are not more than the splits from before. -/
theorem toRead_unassign (ids : List String) (duty : Duty) :
    (duty.unassign ids).pending.length + (duty.unassign ids).assigned.length ≤
      duty.pending.length + duty.assigned.length := by
  have hparts := List.length_eq_length_filter_add (l := duty.assigned)
    fun split => ids.contains split.id
  have hpending : (duty.unassign ids).pending.length ≤
      duty.pending.length + (duty.named ids).length := by
    cases hnamed : duty.named ids <;> simp [Duty.unassign, hnamed]
  simp only [Duty.unassign, Duty.named] at hpending ⊢
  omega

theorem frees_enact (request : Request) (f : Fetcher ρ) : f.Frees (request.enact f).1 := by
  cases request with
  | addSplits splits =>
      simp only [Request.enact]
      split
      · exact {}
      · next htakes =>
          have hgoes : f.duty.stop = none := by simp_all [Duty.refuses]
          exact { toRead := fun hstop => absurd hgoes hstop }
  | removeSplits ids => exact { toRead := fun _ => toRead_unassign ids f.duty }
  | stop mode =>
      simp only [Request.enact]
      split
      · exact {}
      · exact { stop := fun _ => Option.some_ne_none mode }
  | releaseLatch => exact { latch := fun _ => OneShot.done_complete _ }
  | wakeUp _ | pause | resume => exact {}

theorem frees_nudge [SplitReader ρ] (nudge : Nudge) (f : Fetcher ρ) (d : Depot) :
    f.Frees (nudge.apply f d).1 := by
  cases nudge with
  | rouse => exact { napping := nofun }
  | requestWake | wakeReader | wakePut => exact {}

theorem dismissed_of_frees (hf : f.Dismissed) (h : f.Frees g) : g.Dismissed where
  stop := h.stop hf.stop
  latch := h.latch hf.latch
  roused hparked := by
    rw [← Bool.not_eq_true]
    intro hnaps
    exact absurd ((hf.roused (h.phase ▸ hparked)).symm.trans (h.napping hnaps)) Bool.noConfusion

theorem runs_of_frees (hf : f.Runs) (h : f.Frees g) : g.Runs where
  looping := h.looping.trans hf.looping
  started := h.phase ▸ hf.started
  settled hsettled := h.closed.trans (hf.settled (h.phase ▸ hsettled))

/-- Nobody makes the way of a thread that is to stop longer. -/
theorem toClose_of_frees (hstop : f.duty.stop ≠ none) (h : f.Frees g) : g.toClose ≤ f.toClose := by
  have htoRead := h.toRead hstop
  unfold toClose
  rw [h.phase, h.leftover]
  split <;> omega

/-! ### What the thread does -/

section Thread

variable [SplitReader ρ]

theorem stop_stays (hstop : f.duty.stop ≠ none) (h : Advance disturbed f d g e) :
    g.duty.stop ≠ none := by
  obtain ⟨mode, hmode⟩ := Option.ne_none_iff_exists'.1 hstop
  rw [stop_advance h hmode]
  nofun

/-- A thread that is to stop does not lie down. -/
theorem dismissed_advance (hf : f.Dismissed) (h : Advance disturbed f d g e) : g.Dismissed where
  stop := stop_stays hf.stop h
  latch := latch_advance h ▸ hf.latch
  roused := by
    have hstop := hf.stop
    cases h <;> simp_all [Duty.mayPark]

theorem runs_advance (hf : f.Runs) (h : Advance disturbed f d g e) : g.Runs where
  looping := (advanced h).looping.trans hf.looping
  started := by cases h <;> simp_all
  settled := by
    have hsettled := hf.settled
    cases h <;> simp_all [Phase.isSettled, Duty.settle]

/-- Every step of a thread that was dismissed brings it nearer to its end, when the queue is
closed. -/
theorem toClose_advance (hf : f.Dismissed) (hclosed : d.queue.closed = true)
    (h : Advance disturbed f d g e) : g.toClose < f.toClose ∨ g.toClose = 0 := by
  have hstop := hf.stop
  cases h with
  | skip hphase | collect hphase | handFail hphase =>
      simp only [toClose, hphase, List.length_cons]
      omega
  | drain hphase =>
      simp only [toClose, hphase]
      split <;> omega
  | _ => simp_all [toClose, Duty.mayPark]

end Thread

section Strides

open Supervisor (Stride)

variable [SplitReader ρ]

theorem dismissed_stride (hf : f.Dismissed) (h : Stride disturbed f d g e) : g.Dismissed := by
  cases h with
  | advance h => exact dismissed_advance hf h
  | vanish => exact ⟨hf.stop, hf.latch, nofun⟩

theorem runs_stride (hf : f.Runs) (h : Stride disturbed f d g e) : g.Runs := by
  cases h with
  | advance h => exact runs_advance hf h
  | vanish hphase => exact ⟨hf.looping, nofun, fun _ => hf.settled (hphase ▸ rfl)⟩

theorem toClose_stride (hf : f.Dismissed) (hclosed : d.queue.closed = true)
    (h : Stride disturbed f d g e) : g.toClose < f.toClose ∨ g.toClose = 0 := by
  cases h with
  | advance h => exact toClose_advance hf hclosed h
  | vanish => exact .inr rfl

/-- A thread that was dismissed can go on until it is over, unless it sleeps in a put. -/
theorem exists_stride (hf : f.Dismissed) (hr : f.Runs) (hawake : f.isAsleepInPut d = false)
    (disturbed : List Bool) :
    f.isOver = true ∨ (Supervisor.stepFetcher? disturbed f d).isSome = true := by
  cases hphase : f.phase with
  | resting => exact absurd hphase hr.started
  | gone | panicked _ => exact .inl (by simp [isOver, hphase])
  | handing changes =>
      right
      cases changes with
      | nil => cases hleft : f.leftover <;> simp [Supervisor.stepFetcher?, step?, hphase, hleft]
      | cons => simp [Supervisor.stepFetcher?, step?, hphase]
  | latched => exact .inr (by simp [Supervisor.stepFetcher?, step?, hphase, hf.latch])
  | parked => exact .inr (by simp [Supervisor.stepFetcher?, step?, hphase, hf.roused hphase])
  | cycled _ => exact .inr (by simp [Supervisor.stepFetcher?, step?, hphase, hr.looping])
  | publishing _ _ | flushing =>
      exact .inr (by simp [Supervisor.stepFetcher?, step?, hphase, hawake])
  | collecting | checking | weighing _ | booking _ | noting _ _ | parking | finishing _ =>
      right
      simp only [Supervisor.stepFetcher?, step?, hphase]
      repeat' split
      all_goals rfl
  | _ => exact .inr (by simp [Supervisor.stepFetcher?, step?, hphase])

end Strides

/-- A thread with no step to go has settled its books, unless a call into the reader panicked. -/
theorem closed_of_toClose (hr : f.Runs) (h : f.toClose = 0) :
    f.duty.closed = true ∨ f.phase.isPanic = true := by
  cases hphase : f.phase with
  | resting => exact absurd hphase hr.started
  | terminating _ | ended _ | gone => exact .inl (hr.settled (hphase ▸ rfl))
  | panicked _ => exact .inr rfl
  | flushing =>
      simp only [toClose, hphase] at h
      split at h <;> cases h
  | _ => simp [toClose, hphase] at h

end SplitFeed.Fetcher
