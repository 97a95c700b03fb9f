/-
# A fetcher among its controls

A station is one fetcher with everything that is shared with it.  Its moves are the steps of the
thread, the sections and nudges of requests, and whatever others do to the queue and to the files;
they may follow each other in any order.  A nudge may also come when nobody asked for it, which
only adds interleavings.

`sent` remembers the batches that the thread has put into the queue, oldest first.

The second half says what the flags of a fetcher mean in each phase of its thread.
-/
import SplitFeed.Fetcher.Control
import SplitFeed.Proofs.Course
import SplitFeed.Proofs.Fetcher.Advance

namespace SplitFeed

/-- A signal is done after it was completed, for the first time or again. -/
theorem OneShot.done_complete (signal : OneShot) : signal.complete.2.done = true := by
  unfold complete
  split
  · assumption
  · rfl

/-- A fetcher, what it shares, and what it has put into the queue so far. -/
structure Station (ρ : Type) where
  fetcher : Fetcher ρ
  depot : Depot
  sent : List (SplitBatch Record) := []

namespace Station

variable {ρ : Type}

/-- A fetcher that was just made. -/
def fresh (id : Nat) (reader : ρ) (depot : Depot) : Station ρ :=
  { fetcher := { id, reader }, depot }

/-- What can happen to a station next. -/
inductive Move where
  /-- A single cycle begins. -/
  | cycle
  /-- A thread begins to run cycle after cycle. -/
  | loop
  /-- The thread makes a step. -/
  | thread (disturbed : List Bool)
  /-- A nap is over. -/
  | timeOut
  /-- The section of a request. -/
  | ask (request : Request)
  | nudge (nudge : Nudge)
  /-- Somebody else uses the queue. -/
  | queue (move : HandoffQueue.Move (SplitBatch Record))
  /-- Somebody changes the files. -/
  | files (store : FileStore)

/-- Whether a move is made beside the thread, by its controls or by others. -/
def Move.isBeside : Move → Bool
  | .cycle | .loop | .thread _ => false
  | _ => true

/-- Whether a cycle can begin: none is under way and no thread runs cycle after cycle. -/
def mayBegin (f : Fetcher ρ) : Bool :=
  match f.phase with
  | .resting | .cycled _ => !f.looping
  | _ => false

/-- The station after a move, if the move can be made. -/
def step [SplitReader ρ] (move : Move) (station : Station ρ) : Option (Station ρ) :=
  let ⟨fetcher, depot, _⟩ := station
  match move with
  | .cycle => if mayBegin fetcher then some { station with fetcher := fetcher.beginCycle } else none
  | .loop => if mayBegin fetcher then some { station with fetcher := fetcher.beginLoop } else none
  | .thread disturbed =>
    (fetcher.step? disturbed depot).map fun (next, after) =>
      { fetcher := next, depot := after, sent := station.sent ++ (fetcher.handsOver depot).toList }
  | .timeOut => some { station with fetcher := fetcher.timeOut }
  | .ask request => some { station with fetcher := (request.enact fetcher).1 }
  | .nudge nudge =>
    let (fetcher, depot) := nudge.apply fetcher depot
    some { station with fetcher, depot }
  | .queue move => some { station with depot := { depot with queue := move.apply depot.queue } }
  | .files store => some { station with depot := { depot with store } }

theorem phase_of_mayBegin {f : Fetcher ρ} (hmay : mayBegin f = true) :
    (f.phase = .resting ∨ ∃ result, f.phase = .cycled result) ∧ f.looping = false := by
  unfold mayBegin at hmay
  split at hmay
  · next hphase => exact ⟨.inl hphase, by simpa using hmay⟩
  · next hphase => exact ⟨.inr ⟨_, hphase⟩, by simpa using hmay⟩
  · cases hmay

/-- A move of the thread is a step of the list `Advance`. -/
theorem step_thread [SplitReader ρ] {disturbed : List Bool} {station next : Station ρ}
    (h : station.step (.thread disturbed) = some next) :
    Fetcher.Advance disturbed station.fetcher station.depot next.fetcher next.depot ∧
      next.sent = station.sent ++ (station.fetcher.handsOver station.depot).toList := by
  simp only [step, Option.map_eq_some_iff, Prod.exists] at h
  obtain ⟨fetcher, depot, hstep, rfl⟩ := h
  exact ⟨Fetcher.advance_of_step? hstep, rfl⟩

theorem exists_step_thread [SplitReader ρ] {disturbed : List Bool} {station : Station ρ}
    (h : ∃ pair, station.fetcher.step? disturbed station.depot = some pair) :
    ∃ next, station.step (.thread disturbed) = some next := by
  obtain ⟨⟨fetcher, depot⟩, hstep⟩ := h
  simp [step, hstep]

end Station

/-! ### What the flags mean -/

namespace Phase

/-- Whether the thread is between its decision to fetch and the end of that fetch's booking. -/
def isFetch : Phase → Bool
  | fetching | fetchLost _ | weighing _ | rewinding _ | rewound | booking _ => true
  | _ => false

/-- Whether a call into the reader panicked. -/
def isPanic : Phase → Bool
  | panicked _ => true
  | _ => false

/-- Whether a batch that is left over cannot exist: it was looked for in vain, or was dealt with. -/
def isEmptyHanded : Phase → Bool
  | resting | checking | publishing _ _ | idling _ | ringing _ | stopping | flushed | announcing
  | tolling | latched | closing | leaving _ | terminating _ | ended _ | gone => true
  | cycled (.ok outcome) => outcome = .queueClosed
  | noting outcome _ => outcome ≠ .publishDeferred
  | phase => phase.isFetch

/-- Whether the thread has noted if a batch is left over, and nothing came of it since. -/
def isNoted : Phase → Bool
  | publishing _ _ | noting _ _ | flushing | flushed | announcing | tolling | latched | closing
  | leaving _ | panicked _ => false
  | _ => true

/-- Whether the thread has settled its books. -/
def isSettled : Phase → Bool
  | terminating _ | ended _ | gone => true
  | _ => false

/-- Whether the thread holds a batch, or is about to. -/
def isBusy : Phase → Bool
  | publishing _ _ | noting _ _ => true
  | phase => phase.isFetch

/-- Whether the thread will look yet whether a wake-up has touched its cycle. -/
def isTouchable : Phase → Bool
  | collecting | handing _ | checking | fetching | weighing _ => true
  | _ => false

end Phase

namespace Fetcher

variable {ρ : Type}

/-- The flags of a fetcher agree with the phase of its thread. -/
structure Coherent (f : Fetcher ρ) : Prop where
  fetching : f.phase.isFetch = true → f.duty.fetching = true
  notFetching : f.phase.isFetch = false → f.phase.isPanic = false → f.duty.fetching = false
  emptyHanded : f.phase.isEmptyHanded = true → f.leftover = none
  noted : f.phase.isNoted = true → f.duty.unpublished = f.leftover.isSome
  closed : f.duty.closed = true → f.phase.isSettled = true
  stopped : f.phase = .finishing false → f.duty.stop.isSome = true

theorem coherent_new (id : Nat) (reader : ρ) : Coherent { id, reader : Fetcher ρ } where
  fetching := by simp [Phase.isFetch]
  notFetching _ _ := rfl
  emptyHanded _ := rfl
  noted _ := rfl
  closed hclosed := by simp at hclosed
  stopped hphase := by cases hphase

/-- A step sets the flags as the phase it leads to asks for, or leaves them as they are and leads
to a phase that asks for no more. -/
theorem coherent_advance [SplitReader ρ] {disturbed : List Bool} {f g : Fetcher ρ} {d e : Depot}
    (hf : Coherent f) (h : Advance disturbed f d g e) : Coherent g where
  fetching hin := by
    cases h with
    | findSplits => rfl
    | fetch hphase _ | fetchFail hphase _ | turnAway hphase _ | keep hphase _
    | rewind hphase _ _ => exact hf.fetching (hphase ▸ rfl)
    | doze | flush | flushAgain | flushShut | flushDoze => exact hf.fetching hin
    | _ => cases hin
  notFetching hnot hcalm := by
    cases h with
    | lose | staleEnd | bookNothingLast | bookNothing | book | leave => rfl
    | findSplits | fetch | fetchFail | turnAway | keep | rewind => cases hnot
    | handPanic | fetchPanic | rewindPanic | closePanic => cases hcalm
    | doze | flush | flushAgain | flushShut | flushDoze => exact hf.notFetching hnot hcalm
    | _ =>
        rename f.phase = _ => hphase
        exact hf.notFetching (hphase ▸ rfl) (hphase ▸ rfl)
  emptyHanded hempty := by
    cases h with
    | check _ hleft | flushNothing _ _ hleft => exact hleft
    | retry | drop | flush | flushShut => rfl
    | doze | flushAgain | flushDoze => exact hf.emptyHanded hempty
    | noteLast hphase houtcome =>
        exact hf.emptyHanded (by simpa [hphase, Phase.isEmptyHanded] using houtcome)
    | note hphase hlast =>
        have hclosed : _ = CycleOutcome.queueClosed := of_decide_eq_true hempty
        exact hf.emptyHanded (by simp [hphase, Phase.isEmptyHanded, hclosed])
    | halt | start | forget | collect | skip | hand | handFail | handPanic | fetchPanic | lose
    | rewindPanic | staleEnd | bookNothing | defer | lieDown | goOn | report | stop | nap
    | stayUp | getUp | drain | closePanic => cases hempty
    | _ =>
        rename f.phase = _ => hphase
        exact hf.emptyHanded (hphase ▸ rfl)
  noted hnoted := by
    cases h with
    | noteLast | note => rfl
    | leave hphase =>
        have hnone : f.leftover = none := hf.emptyHanded (hphase ▸ rfl)
        simp [Duty.settle, hnone]
    | flush hphase | flushShut hphase => simp [hphase, Phase.isNoted] at hnoted
    | doze | flushAgain | flushDoze => exact hf.noted hnoted
    | retry | book | publish | defer | shutOut | drain | drop | flushNothing | clear | announce
    | toll | unlatch | close | closeFail | closePanic | handPanic | fetchPanic
    | rewindPanic => cases hnoted
    | _ =>
        rename f.phase = _ => hphase
        exact hf.noted (hphase ▸ rfl)
  closed hclosed := by
    cases h with
    | leave | terminate => rfl
    | doze | flush | flushAgain | flushShut | flushDoze => exact hf.closed hclosed
    | _ =>
        rename f.phase = _ => hphase
        have hsettled := hf.closed hclosed
        rw [hphase] at hsettled
        cases hsettled
  stopped hfinishing := by
    cases h with
    | halt _ hstop => exact hstop
    | stop => rfl
    | doze | flush | flushAgain | flushShut | flushDoze => exact hf.stopped hfinishing
    | _ => cases hfinishing

/-- The flags that tell a coherent fetcher from others, and what they are read off from. -/
theorem coherent_congr {f g : Fetcher ρ} (hf : Coherent f) (hphase : g.phase = f.phase)
    (hleft : g.leftover = f.leftover) (hfetching : g.duty.fetching = f.duty.fetching)
    (hunpublished : g.duty.unpublished = f.duty.unpublished)
    (hclosed : g.duty.closed = f.duty.closed)
    (hstop : f.duty.stop.isSome = true → g.duty.stop.isSome = true) : Coherent g where
  fetching := by rw [hphase, hfetching]; exact hf.fetching
  notFetching := by rw [hphase, hfetching]; exact hf.notFetching
  emptyHanded := by rw [hphase, hleft]; exact hf.emptyHanded
  noted := by rw [hphase, hleft, hunpublished]; exact hf.noted
  closed := by rw [hphase, hclosed]; exact hf.closed
  stopped h := hstop (hf.stopped (hphase ▸ h))

theorem coherent_enact {f : Fetcher ρ} (request : Request) (hf : Coherent f) :
    Coherent (request.enact f).1 := by
  cases request with
  | addSplits splits =>
      simp only [Request.enact]
      split
      · exact hf
      · exact coherent_congr hf rfl rfl rfl rfl rfl (fun h => h)
  | stop mode =>
      simp only [Request.enact]
      split
      · exact hf
      · exact coherent_congr hf rfl rfl rfl rfl rfl (fun _ => rfl)
  | removeSplits _ | wakeUp _ | pause | resume | releaseLatch =>
      exact coherent_congr hf rfl rfl rfl rfl rfl (fun h => h)

theorem coherent_nudge [SplitReader ρ] {f : Fetcher ρ} (nudge : Nudge) (depot : Depot)
    (hf : Coherent f) : Coherent (nudge.apply f depot).1 := by
  cases nudge <;> exact coherent_congr hf rfl rfl rfl rfl rfl (fun h => h)

/-- A cycle begins in a phase in which nothing was looked for yet. -/
theorem coherent_begin {f g : Fetcher ρ} (hf : Coherent f) (hmay : Station.mayBegin f = true)
    (hphase : g.phase = .starting ∨ g.phase = .deciding) (hleft : g.leftover = f.leftover)
    (hduty : g.duty = f.duty) : Coherent g := by
  obtain ⟨hfetch, hpanic, hnoted, hsettled⟩ : f.phase.isFetch = false ∧ f.phase.isPanic = false ∧
      f.phase.isNoted = true ∧ f.phase.isSettled = false := by
    obtain ⟨hphase | ⟨result, hphase⟩, -⟩ := Station.phase_of_mayBegin hmay <;>
      exact hphase ▸ ⟨rfl, rfl, rfl, rfl⟩
  obtain ⟨hfetch', hempty', hnever⟩ : g.phase.isFetch = false ∧ g.phase.isEmptyHanded = false ∧
      g.phase ≠ .finishing false := by
    rcases hphase with hg | hg <;> rw [hg] <;> exact ⟨rfl, rfl, Phase.noConfusion⟩
  exact
    { fetching := fun h => by rw [hfetch'] at h; cases h
      notFetching := fun _ _ => by rw [hduty]; exact hf.notFetching hfetch hpanic
      emptyHanded := fun h => by rw [hempty'] at h; cases h
      noted := fun _ => by rw [hduty, hleft]; exact hf.noted hnoted
      closed := fun h => by
        rw [hduty] at h
        rw [hf.closed h] at hsettled
        cases hsettled
      stopped := fun h => absurd h hnever }

end Fetcher

namespace Station

variable {ρ : Type} [SplitReader ρ]

/-- Every move keeps the flags coherent. -/
theorem coherent_step {move : Move} {station next : Station ρ} (hf : station.fetcher.Coherent)
    (h : station.step move = some next) : next.fetcher.Coherent := by
  cases move with
  | cycle =>
      simp only [step, Option.ite_none_right_eq_some, Option.some.injEq] at h
      obtain ⟨hmay, rfl⟩ := h
      exact Fetcher.coherent_begin hf hmay (.inl rfl) rfl rfl
  | loop =>
      simp only [step, Option.ite_none_right_eq_some, Option.some.injEq] at h
      obtain ⟨hmay, rfl⟩ := h
      exact Fetcher.coherent_begin hf hmay (.inr rfl) rfl rfl
  | thread disturbed => exact Fetcher.coherent_advance hf (step_thread h).1
  | ask request =>
      obtain rfl := Option.some.inj h
      exact Fetcher.coherent_enact request hf
  | nudge nudge =>
      obtain rfl := Option.some.inj h
      exact Fetcher.coherent_nudge nudge station.depot hf
  | timeOut =>
      obtain rfl := Option.some.inj h
      exact Fetcher.coherent_congr hf rfl rfl rfl rfl rfl (fun h => h)
  | queue _ | files _ =>
      obtain rfl := Option.some.inj h
      exact hf

/-- A closed queue stays closed and takes nothing. -/
theorem closed_step {move : Move} {station next : Station ρ}
    (hclosed : station.depot.queue.closed = true)
    (h : station.step move = some next) :
    next.depot.queue.closed = true ∧ next.sent = station.sent := by
  cases move with
  | cycle | loop =>
      simp only [step, Option.ite_none_right_eq_some, Option.some.injEq] at h
      obtain ⟨-, rfl⟩ := h
      exact ⟨hclosed, rfl⟩
  | thread disturbed =>
      obtain ⟨hadvance, hsent⟩ := step_thread h
      refine ⟨(Fetcher.advanced hadvance).closed.trans hclosed, ?_⟩
      simp [hsent, Fetcher.handsOver, hclosed]
  | nudge nudge =>
      obtain rfl := Option.some.inj h
      cases nudge <;> exact ⟨hclosed, rfl⟩
  | queue move =>
      obtain rfl := Option.some.inj h
      exact ⟨HandoffQueue.closed_apply hclosed, rfl⟩
  | timeOut | ask _ | files _ =>
      obtain rfl := Option.some.inj h
      exact ⟨hclosed, rfl⟩

/-! ### What others leave alone -/

/-- What only the thread changes, and whether the fetcher was asked to stop. -/
structure Beside (station next : Station ρ) : Prop where
  id : next.fetcher.id = station.fetcher.id := by rfl
  looping : next.fetcher.looping = station.fetcher.looping := by rfl
  phase : next.fetcher.phase = station.fetcher.phase := by rfl
  leftover : next.fetcher.leftover = station.fetcher.leftover := by rfl
  terminated : next.fetcher.terminated = station.fetcher.terminated := by rfl
  latch : station.fetcher.drainLatch.done = true → next.fetcher.drainLatch.done = true := by
    exact fun h => h
  fetching : next.fetcher.duty.fetching = station.fetcher.duty.fetching := by rfl
  unpublished : next.fetcher.duty.unpublished = station.fetcher.duty.unpublished := by rfl
  awaitingDrain : next.fetcher.duty.awaitingDrain = station.fetcher.duty.awaitingDrain := by rfl
  closed : next.fetcher.duty.closed = station.fetcher.duty.closed := by rfl
  stop : ∀ mode, station.fetcher.duty.stop = some mode → next.fetcher.duty.stop = some mode := by
    exact fun _ h => h
  failures : next.depot.failures = station.depot.failures := by rfl
  recycled : next.depot.recycled = station.depot.recycled := by rfl
  sent : next.sent = station.sent := by rfl

/-- The moves, told apart by whether the thread begins something, goes on, or is left alone. -/
inductive Turn (station next : Station ρ) : Move → Prop
  | cycle (hmay : mayBegin station.fetcher = true)
      (hnext : next = { station with fetcher := station.fetcher.beginCycle }) :
      Turn station next .cycle
  | loop (hmay : mayBegin station.fetcher = true)
      (hnext : next = { station with fetcher := station.fetcher.beginLoop }) :
      Turn station next .loop
  | thread {disturbed}
      (hadvance : Fetcher.Advance disturbed station.fetcher station.depot next.fetcher next.depot)
      (hsent : next.sent =
        station.sent ++ (station.fetcher.handsOver station.depot).toList) :
      Turn station next (.thread disturbed)
  | beside {move : Move} (hmove : move.isBeside = true) (hsame : Beside station next) :
      Turn station next move

omit [SplitReader ρ] in
theorem beside_enact (request : Request) (station : Station ρ) :
    Beside station { station with fetcher := (request.enact station.fetcher).1 } := by
  cases request with
  | addSplits splits =>
      simp only [Request.enact]
      split <;> exact {}
  | stop mode =>
      simp only [Request.enact]
      split
      · exact {}
      · next hstop => exact { stop := fun _ h => absurd (hstop ▸ h) nofun }
  | releaseLatch => exact { latch := fun _ => OneShot.done_complete _ }
  | removeSplits _ | wakeUp _ | pause | resume => exact {}

omit [SplitReader ρ] in
/-- The wake request of a fetcher is raised by its nudge alone. -/
theorem wakeRequested_enact (request : Request) (f : Fetcher ρ) :
    (request.enact f).1.wakeRequested = f.wakeRequested := by
  cases request with
  | addSplits _ | stop _ =>
      simp only [Request.enact]
      split <;> rfl
  | removeSplits _ | wakeUp _ | pause | resume | releaseLatch => rfl

theorem turn_of_step {move : Move} {station next : Station ρ} (h : station.step move = some next) :
    Turn station next move := by
  cases move with
  | cycle =>
      simp only [step, Option.ite_none_right_eq_some, Option.some.injEq] at h
      exact .cycle h.1 h.2.symm
  | loop =>
      simp only [step, Option.ite_none_right_eq_some, Option.some.injEq] at h
      exact .loop h.1 h.2.symm
  | thread disturbed => exact .thread (step_thread h).1 (step_thread h).2
  | ask request =>
      obtain rfl := Option.some.inj h
      exact .beside rfl (beside_enact request station)
  | nudge nudge =>
      obtain rfl := Option.some.inj h
      cases nudge <;> exact .beside rfl {}
  | timeOut | queue _ | files _ =>
      obtain rfl := Option.some.inj h
      exact .beside rfl {}

end Station

end SplitFeed
