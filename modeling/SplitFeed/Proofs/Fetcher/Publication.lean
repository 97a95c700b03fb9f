/-
# What is in flight gets to the queue

As long as the queue is open, a batch in flight can still be published: the consumer polls, and the
thread goes on.  Nothing else has to happen than that a paused fetcher is resumed and that naps and
blocked puts end.

With what is known of removals this says exactly when a split that was taken away shows up in the
queue after all.
-/
import SplitFeed.Proofs.Fetcher.InFlight

namespace SplitFeed.Station

/-- Moves that help the thread along and ask for nothing new. -/
def Move.IsMild : Move → Prop
  | cycle | thread [] | timeOut | ask .resume | nudge .wakePut | queue .poll => True
  | _ => False

section Reach

variable {ρ : Type} [SplitReader ρ] {station next : Station ρ} {move : Move}
  {batch : SplitBatch Record} {g : Fetcher ρ} {e : Depot}

/-- Mild moves lead to a state in which a batch has just been published. -/
def CanPublish (batch : SplitBatch Record) (station : Station ρ) : Prop :=
  ∃ moves last, (∀ move ∈ moves, move.IsMild) ∧ Course.follow step moves station = some last ∧
    ∃ between, last.sent = station.sent ++ between ++ [batch]

/-- What was published stays published. -/
theorem sent_step (h : station.step move = some next) :
    ∃ more, next.sent = station.sent ++ more := by
  cases move with
  | cycle | loop =>
      simp only [step, Option.ite_none_right_eq_some, Option.some.injEq] at h
      obtain ⟨-, rfl⟩ := h
      exact ⟨[], by simp⟩
  | thread disturbed => exact ⟨_, (step_thread h).2⟩
  | timeOut | ask _ | nudge _ | queue _ | files _ =>
      obtain rfl := Option.some.inj h
      exact ⟨[], by simp⟩

theorem canPublish_step (move : Move) (hmild : move.IsMild) (h : station.step move = some next)
    (hnext : next.CanPublish batch) : station.CanPublish batch := by
  obtain ⟨moves, last, hmoves, hfollow, between, hsent⟩ := hnext
  obtain ⟨more, hmore⟩ := sent_step h
  refine ⟨move :: moves, last, ?_, ?_, more ++ between, ?_⟩
  · exact List.forall_mem_cons.2 ⟨hmild, hmoves⟩
  · simp [h, hfollow]
  · rw [hsent, hmore]
    simp

/-- The queue takes elements and has room for at least one. -/
def IsOpen (station : Station ρ) : Prop :=
  station.depot.queue.closed = false ∧ 0 < station.depot.queue.capacity

/-- The consumer can empty the queue. -/
theorem canPublish_of_empty {items : List (SplitBatch Record)}
    (hitems : station.depot.queue.items = items)
    (h : ∀ queue : HandoffQueue (SplitBatch Record), queue.items = [] →
      queue.closed = station.depot.queue.closed →
      queue.capacity = station.depot.queue.capacity →
      CanPublish batch { station with depot := { station.depot with queue } }) :
    station.CanPublish batch := by
  induction items generalizing station with
  | nil => exact h station.depot.queue hitems rfl rfl
  | cons head rest ih =>
      refine canPublish_step (.queue .poll) trivial rfl (ih ?_ ?_)
      · simp [HandoffQueue.Move.apply, HandoffQueue.poll_cons hitems]
      · intro queue hnil hclosed hcapacity
        have hpoll := HandoffQueue.poll_cons hitems
        refine h queue hnil ?_ ?_
        · simpa [HandoffQueue.Move.apply, hpoll] using hclosed
        · simpa [HandoffQueue.Move.apply, hpoll] using hcapacity

theorem canPublish_handsOver (h : station.fetcher.step? [] station.depot = some (g, e))
    (hhands : station.fetcher.handsOver station.depot = some batch) :
    station.CanPublish batch := by
  refine ⟨[.thread []],
    { fetcher := g, depot := e, sent := station.sent ++ [batch] }, ?_, ?_, [], ?_⟩
  · exact fun move hmem => List.mem_singleton.1 hmem ▸ trivial
  · simp [step, h, hhands]
  · simp

/-- A thread that is awake and offers a batch has a step to make. -/
theorem exists_step_of_offers {f : Fetcher ρ} {d : Depot} (hoffers : f.offers = some batch)
    (hawake : f.isAsleepInPut d = false) : ∃ g e, f.step? [] d = some (g, e) := by
  unfold Fetcher.offers at hoffers
  split at hoffers
  · next hphase => exact ⟨_, _, by simp [Fetcher.step?, hphase, hawake]; rfl⟩
  · next hphase => exact ⟨_, _, by simp [Fetcher.step?, hphase, hawake]; rfl⟩
  · cases hoffers

/-- A thread that offers a batch to an open queue gets it accepted in the end. -/
theorem canPublish_of_offers (hopen : station.IsOpen)
    (hoffers : station.fetcher.offers = some batch) : station.CanPublish batch := by
  refine canPublish_of_empty rfl fun queue hnil hclosed hcapacity => ?_
  refine canPublish_step (.nudge .wakePut) trivial rfl ?_
  have hawake : station.fetcher.isAsleepInPut
      { station.depot with queue := queue.wakeProducer station.fetcher.id } = false := rfl
  have hroom : (queue.wakeProducer station.fetcher.id).hasRoom = true := by
    simp [HandoffQueue.hasRoom, hnil, hcapacity, hopen.2]
  obtain ⟨g, e, hstep⟩ := exists_step_of_offers hoffers hawake
  refine canPublish_handsOver hstep ?_
  simp [Fetcher.handsOver, hawake, hclosed, hopen.1, hroom, hoffers]

/-- The thread goes on, and the queue stays open. -/
theorem canPublish_advance (hopen : station.IsOpen)
    (h : station.fetcher.step? [] station.depot = some (g, e))
    (hnext : ∀ sent, IsOpen ⟨g, e, sent⟩ → CanPublish batch ⟨g, e, sent⟩) :
    station.CanPublish batch := by
  have hadvanced := Fetcher.advanced (Fetcher.advance_of_step? h)
  have hopen' (sent : List (SplitBatch Record)) : IsOpen ⟨g, e, sent⟩ :=
    ⟨hadvanced.closed.trans hopen.1, hadvanced.capacity ▸ hopen.2⟩
  have hstep : station.step (.thread []) = some ⟨g, e,
      station.sent ++ (station.fetcher.handsOver station.depot).toList⟩ := by simp [step, h]
  exact canPublish_step (.thread []) trivial hstep (hnext _ (hopen' _))

end Reach

section Chain

/-! ### From phase to phase

Each lemma takes a thread with a batch left over one phase nearer to publishing it. -/

variable {sort : ReaderSort} {batch : SplitBatch Record} {f : Fetcher Backend} {d : Depot}
  {sent : List (SplitBatch Record)}

theorem canPublish_of_handing {changes : List (SplitsChange Split)} (hsuited : f.Suited sort)
    (hopen : IsOpen ⟨f, d, sent⟩) (hphase : f.phase = .handing changes)
    (hleft : f.leftover = some batch) : CanPublish batch ⟨f, d, sent⟩ := by
  induction changes generalizing f d sent with
  | nil =>
      have hstep : f.step? [] d =
          some ({ f with leftover := none, phase := .publishing batch false }, d) := by
        simp [Fetcher.step?, hphase, hleft, Fetcher.enter]
      exact canPublish_advance hopen hstep fun sent hopen' => canPublish_of_offers hopen' rfl
  | cons change rest ih =>
      have hsuits := hsuited.handing hphase _ List.mem_cons_self
      rw [← hsuited.reader] at hsuits
      obtain ⟨recycled, reader, hcall, -⟩ := Backend.change_of_suits hsuits
      have hstep : f.step? [] d =
          some ({ f with reader, phase := .handing rest },
            { d with recycled := d.recycled ++ recycled }) := by
        simp [Fetcher.step?, hphase, Fetcher.hand, hcall, Fetcher.enter]
      have hnext := Fetcher.suited_advance hsuited (Fetcher.advance_of_step? hstep)
      exact canPublish_advance hopen hstep fun sent hopen' => ih hnext hopen' rfl hleft

theorem canPublish_of_collecting (hsuited : f.Suited sort) (hopen : IsOpen ⟨f, d, sent⟩)
    (hphase : f.phase = .collecting) (hleft : f.leftover = some batch) :
    CanPublish batch ⟨f, d, sent⟩ := by
  refine canPublish_step (.ask .resume) trivial rfl ?_
  let resumed : Fetcher Backend := { f with duty := { f.duty with paused := false } }
  have hresumed : resumed.Suited sort :=
    Fetcher.suited_enact hsuited (show Request.Suits sort .resume from trivial)
  have hstep : resumed.step? [] d =
      some ({ resumed with
        duty := { resumed.duty with pending := [] }
        phase := .handing resumed.duty.pending }, d) := by
    simp [Fetcher.step?, resumed, hphase, Fetcher.enter, Fetcher.updateDuty]
  have hnext := Fetcher.suited_advance hresumed (Fetcher.advance_of_step? hstep)
  exact canPublish_advance hopen hstep fun sent hopen' =>
    canPublish_of_handing hnext hopen' rfl hleft

theorem canPublish_of_starting (hsuited : f.Suited sort) (hopen : IsOpen ⟨f, d, sent⟩)
    (hphase : f.phase = .starting) (hleft : f.leftover = some batch) :
    CanPublish batch ⟨f, d, sent⟩ := by
  have hstep : f.step? [] d =
      some ({ f with wakeRequested := false, phase := .collecting }, d) := by
    simp [Fetcher.step?, hphase, Fetcher.enter]
  have hnext := Fetcher.suited_advance hsuited (Fetcher.advance_of_step? hstep)
  exact canPublish_advance hopen hstep fun sent hopen' =>
    canPublish_of_collecting hnext hopen' rfl hleft

theorem canPublish_of_finishing (hopen : IsOpen ⟨f, d, sent⟩)
    (hphase : f.phase = .finishing false) (hstop : f.duty.stop = some .draining)
    (hleft : f.leftover = some batch) : CanPublish batch ⟨f, d, sent⟩ := by
  have hstep : f.step? [] d = some ({ f with phase := .flushing }, d) := by
    simp [Fetcher.step?, hphase, hstop, Fetcher.enter]
  exact canPublish_advance hopen hstep fun sent hopen' => canPublish_of_offers hopen' hleft

theorem canPublish_of_deciding (hsuited : f.Suited sort) (hopen : IsOpen ⟨f, d, sent⟩)
    (hphase : f.phase = .deciding) (hstop : f.duty.stop ≠ some .immediate)
    (hleft : f.leftover = some batch) : CanPublish batch ⟨f, d, sent⟩ := by
  cases hmode : f.duty.stop with
  | none =>
      have hstep : f.step? [] d = some ({ f with phase := .starting }, d) := by
        simp [Fetcher.step?, hphase, hmode, Fetcher.enter]
      have hnext := Fetcher.suited_advance hsuited (Fetcher.advance_of_step? hstep)
      exact canPublish_advance hopen hstep fun sent hopen' =>
        canPublish_of_starting hnext hopen' rfl hleft
  | some mode =>
      have hdraining : f.duty.stop = some .draining := by
        cases mode with
        | immediate => exact absurd hmode hstop
        | draining => exact hmode
      have hstep : f.step? [] d = some ({ f with phase := .finishing false }, d) := by
        simp [Fetcher.step?, hphase, hmode, Fetcher.enter]
      exact canPublish_advance hopen hstep fun sent hopen' =>
        canPublish_of_finishing hopen' rfl hdraining hleft

theorem canPublish_of_parked (hsuited : f.Suited sort) (hopen : IsOpen ⟨f, d, sent⟩)
    (hphase : f.phase = .parked) (hstop : f.duty.stop ≠ some .immediate)
    (hleft : f.leftover = some batch) : CanPublish batch ⟨f, d, sent⟩ := by
  refine canPublish_step .timeOut trivial rfl ?_
  have hrisen : f.timeOut.Suited sort :=
    ⟨hsuited.reader, hsuited.assigned, hsuited.pending, hsuited.handing⟩
  have hstep : f.timeOut.step? [] d = some ({ f.timeOut with phase := .deciding }, d) := by
    simp [Fetcher.step?, Fetcher.timeOut, hphase, Fetcher.enter]
  have hnext := Fetcher.suited_advance hrisen (Fetcher.advance_of_step? hstep)
  exact canPublish_advance hopen hstep fun sent hopen' =>
    canPublish_of_deciding hnext hopen' rfl hstop hleft

theorem canPublish_of_parking (hsuited : f.Suited sort) (hopen : IsOpen ⟨f, d, sent⟩)
    (hphase : f.phase = .parking) (hstop : f.duty.stop ≠ some .immediate)
    (hleft : f.leftover = some batch) : CanPublish batch ⟨f, d, sent⟩ := by
  cases hmay : f.duty.mayPark with
  | true =>
      have hstep : f.step? [] d = some ({ f with napping := true, phase := .parked }, d) := by
        simp [Fetcher.step?, hphase, hmay, Fetcher.enter]
      have hnext := Fetcher.suited_advance hsuited (Fetcher.advance_of_step? hstep)
      exact canPublish_advance hopen hstep fun sent hopen' =>
        canPublish_of_parked hnext hopen' rfl hstop hleft
  | false =>
      have hstep : f.step? [] d = some ({ f with phase := .deciding }, d) := by
        simp [Fetcher.step?, hphase, hmay, Fetcher.enter]
      have hnext := Fetcher.suited_advance hsuited (Fetcher.advance_of_step? hstep)
      exact canPublish_advance hopen hstep fun sent hopen' =>
        canPublish_of_deciding hnext hopen' rfl hstop hleft

theorem canPublish_of_mayBegin (hsuited : f.Suited sort) (hopen : IsOpen ⟨f, d, sent⟩)
    (hmay : mayBegin f = true) (hleft : f.leftover = some batch) :
    CanPublish batch ⟨f, d, sent⟩ := by
  have hcycle : step .cycle ⟨f, d, sent⟩ = some ⟨f.beginCycle, d, sent⟩ := by simp [step, hmay]
  have hbegun : f.beginCycle.Suited sort :=
    Fetcher.suited_congr hsuited rfl (fun _ hmem => hmem) rfl (fun _ heq => by cases heq)
  exact canPublish_step .cycle trivial hcycle (canPublish_of_starting hbegun hopen rfl hleft)

theorem canPublish_of_cycled {outcome : CycleOutcome} (hcoherent : f.Coherent)
    (hsuited : f.Suited sort) (hopen : IsOpen ⟨f, d, sent⟩)
    (hphase : f.phase = .cycled (.ok outcome))
    (hstop : f.looping = true → f.duty.stop ≠ some .immediate)
    (hleft : f.leftover = some batch) : CanPublish batch ⟨f, d, sent⟩ := by
  cases hloop : f.looping with
  | false => exact canPublish_of_mayBegin hsuited hopen (by simp [mayBegin, hphase, hloop]) hleft
  | true =>
      have hgoes (h : outcome ≠ .paused ∧ outcome ≠ .idle) : CanPublish batch ⟨f, d, sent⟩ := by
        have hqueue : outcome ≠ .queueClosed := by
          rintro rfl
          have hnone := hcoherent.emptyHanded (by simp [hphase, Phase.isEmptyHanded])
          simp [hnone] at hleft
        have hstep : f.step? [] d = some ({ f with phase := .deciding }, d) := by
          cases outcome <;> simp_all [Fetcher.step?, Fetcher.afterCycle, Fetcher.enter]
        have hnext := Fetcher.suited_advance hsuited (Fetcher.advance_of_step? hstep)
        exact canPublish_advance hopen hstep fun sent hopen' =>
          canPublish_of_deciding hnext hopen' rfl (hstop hloop) hleft
      by_cases hrests : outcome = .paused ∨ outcome = .idle
      · have hstep : f.step? [] d = some ({ f with phase := .parking }, d) := by
          rcases hrests with rfl | rfl <;>
            simp [Fetcher.step?, hphase, hloop, Fetcher.afterCycle, Fetcher.enter]
        have hnext := Fetcher.suited_advance hsuited (Fetcher.advance_of_step? hstep)
        exact canPublish_advance hopen hstep fun sent hopen' =>
          canPublish_of_parking hnext hopen' rfl (hstop hloop) hleft
      · exact hgoes (not_or.1 hrests)

theorem canPublish_of_noting {outcome : CycleOutcome} {last : Bool} (hcoherent : f.Coherent)
    (hsuited : f.Suited sort) (hopen : IsOpen ⟨f, d, sent⟩)
    (hphase : f.phase = .noting outcome last)
    (hstop : f.looping = true → f.duty.stop ≠ some .immediate)
    (hleft : f.leftover = some batch) : CanPublish batch ⟨f, d, sent⟩ := by
  have hdeferred : outcome = .publishDeferred := by
    by_contra hne
    have hnone := hcoherent.emptyHanded (by simp [hphase, Phase.isEmptyHanded, hne])
    simp [hnone] at hleft
  have hstep : f.step? [] d =
      some ({ f with
        duty := { f.duty with unpublished := f.leftover.isSome }
        phase := .cycled (.ok outcome) }, d) := by
    simp [Fetcher.step?, hphase, hdeferred, Fetcher.enter, Fetcher.updateDuty]
  have hadvance := Fetcher.advance_of_step? hstep
  exact canPublish_advance hopen hstep fun sent hopen' =>
    canPublish_of_cycled (Fetcher.coherent_advance hcoherent hadvance)
      (Fetcher.suited_advance hsuited hadvance) hopen' rfl hstop hleft

/-- A batch in flight that is not in the thread's hand is left over, and not doomed. -/
theorem leftover_of_inFlight (hflight : f.inFlight = some batch)
    (hhand : ∀ other, f.phase ≠ .booking other ∧ ∀ last, f.phase ≠ .publishing other last) :
    f.isDoomed = false ∧ f.leftover = some batch := by
  unfold Fetcher.inFlight at hflight
  split at hflight
  · next hphase => exact absurd hphase (hhand _).1
  · next hphase => exact absurd hphase ((hhand _).2 _)
  · simpa using hflight

/-- Whatever the thread is at, its batch in flight can still get to an open queue. -/
theorem canPublish_of_inFlight (hcoherent : f.Coherent) (hsuited : f.Suited sort)
    (hopen : IsOpen ⟨f, d, sent⟩) (hflight : f.inFlight = some batch)
    (hfull : batch.isEmpty = false) : CanPublish batch ⟨f, d, sent⟩ := by
  cases hphase : f.phase with
  | booking other =>
      obtain rfl : other = batch := by simpa [Fetcher.inFlight, hphase] using hflight
      have hstep : f.step? [] d =
          some ({ f with
            duty := f.duty.book other.finished
            phase := .publishing other (f.duty.book other.finished).assigned.isEmpty }, d) := by
        simp [Fetcher.step?, hphase, hfull, Fetcher.enter, Fetcher.updateDuty]
      exact canPublish_advance hopen hstep fun sent hopen' => canPublish_of_offers hopen' rfl
  | publishing other last =>
      obtain rfl : other = batch := by simpa [Fetcher.inFlight, hphase] using hflight
      exact canPublish_of_offers hopen (by simp [Fetcher.offers, hphase])
  | starting =>
      exact canPublish_of_starting hsuited hopen hphase
        (leftover_of_inFlight hflight (by simp [hphase])).2
  | collecting =>
      exact canPublish_of_collecting hsuited hopen hphase
        (leftover_of_inFlight hflight (by simp [hphase])).2
  | handing changes =>
      exact canPublish_of_handing hsuited hopen hphase
        (leftover_of_inFlight hflight (by simp [hphase])).2
  | flushing =>
      have hleft := (leftover_of_inFlight hflight (by simp [hphase])).2
      exact canPublish_of_offers hopen (by simp [Fetcher.offers, hphase, hleft])
  | deciding =>
      obtain ⟨hdoomed, hleft⟩ := leftover_of_inFlight hflight (by simp [hphase])
      exact canPublish_of_deciding hsuited hopen hphase
        (by simpa [Fetcher.isDoomed, hphase] using hdoomed) hleft
  | parking =>
      obtain ⟨hdoomed, hleft⟩ := leftover_of_inFlight hflight (by simp [hphase])
      exact canPublish_of_parking hsuited hopen hphase
        (by simpa [Fetcher.isDoomed, hphase] using hdoomed) hleft
  | parked =>
      obtain ⟨hdoomed, hleft⟩ := leftover_of_inFlight hflight (by simp [hphase])
      exact canPublish_of_parked hsuited hopen hphase
        (by simpa [Fetcher.isDoomed, hphase] using hdoomed) hleft
  | noting outcome last =>
      obtain ⟨hdoomed, hleft⟩ := leftover_of_inFlight hflight (by simp [hphase])
      exact canPublish_of_noting hcoherent hsuited hopen hphase
        (by simpa [Fetcher.isDoomed, hphase] using hdoomed) hleft
  | cycled result =>
      obtain ⟨hdoomed, hleft⟩ := leftover_of_inFlight hflight (by simp [hphase])
      cases result with
      | ok outcome =>
          exact canPublish_of_cycled hcoherent hsuited hopen hphase
            (by simpa [Fetcher.isDoomed, hphase] using hdoomed) hleft
      | error failure =>
          have hloop : f.looping = false := by simpa [Fetcher.isDoomed, hphase] using hdoomed
          exact canPublish_of_mayBegin hsuited hopen (by simp [mayBegin, hphase, hloop]) hleft
  | finishing failed =>
      obtain ⟨hdoomed, hleft⟩ := leftover_of_inFlight hflight (by simp [hphase])
      obtain ⟨rfl, hstop⟩ : failed = false ∧ f.duty.stop = some .draining := by
        simpa [Fetcher.isDoomed, hphase] using hdoomed
      exact canPublish_of_finishing hopen hphase hstop hleft
  | panicked text => simp [Fetcher.inFlight, Fetcher.isDoomed, hphase] at hflight
  | _ =>
      -- In every other phase a batch that is left over was dealt with before.
      have hleft := (leftover_of_inFlight hflight (by simp [hphase])).2
      have hnone := hcoherent.emptyHanded (by simp [hphase, Phase.isEmptyHanded, Phase.isFetch])
      simp [hnone] at hleft

end Chain

/-! ### A split that was taken away -/

variable {id : String} {sort : ReaderSort} {station next returned last : Station Backend}
  {moves : List Move}

theorem regular_fresh (id : Nat) (reader : Backend) (capacity : Nat) (store : FileStore) :
    (fresh id reader { queue := .ofCapacity capacity, store }).Regular reader.sort where
  coherent := Fetcher.coherent_new id reader
  suited := ⟨rfl, fun _ h => (List.not_mem_nil h).elim, fun _ h => (List.not_mem_nil h).elim,
    fun h => by cases h⟩
  roomy := Nat.lt_of_lt_of_le Nat.zero_lt_one (Nat.le_max_right capacity 1)

/-- Moves that suit a sort, as a course without moves that do not. -/
theorem never_unsuited (hsuits : ∀ move ∈ moves, move.Suits sort) (station : Station Backend) :
    Course.Never step (fun _ move => ¬ Move.Suits sort move) moves station :=
  Course.never_of_forall _ (fun move hmem _ => not_not.2 (hsuits move hmem)) station

theorem regular_follow (hs : station.Regular sort) (hsuits : ∀ move ∈ moves, move.Suits sort)
    (h : Course.follow step moves station = some last) : last.Regular sort :=
  Course.follow_preserves_of_never (Regular sort)
    (fun hs hmove hstep => regular_step hs (not_not.1 hmove) hstep) h
    (never_unsuited hsuits station) hs

theorem purged_follow {alert : Bool} (hs : station.Purged id alert sort)
    (hsuits : ∀ move ∈ moves, move.Suits sort)
    (hkept : Course.Never step (Readmits id) moves station)
    (h : Course.follow step moves station = some last) : last.Purged id alert sort :=
  Course.follow_preserves_of_never (Purged id alert sort)
    (fun hs hmove hstep =>
      purged_step hs (not_not.1 (not_or.1 hmove).1) (not_or.1 hmove).2 hstep) h
    (Course.never_or (never_unsuited hsuits station) hkept) hs

/-- Over a whole course, no more is published of the split than was in flight. -/
theorem exposed_follow (hs : station.Purged id true sort)
    (hsuits : ∀ move ∈ moves, move.Suits sort)
    (hkept : Course.Never step (Readmits id) moves station)
    (h : Course.follow step moves station = some last) :
    (last.exposed id).Sublist (station.exposed id) := by
  refine (Course.follow_preserves_of_never
    (fun later => later.Purged id true sort ∧ (later.exposed id).Sublist (station.exposed id))
    ?_ h (Course.never_or (never_unsuited hsuits station) hkept) ⟨hs, .refl _⟩).2
  rintro move before after ⟨hpurged, hexposed⟩ hmove hstep
  obtain ⟨hsuited, hkept⟩ := not_or.1 hmove
  exact ⟨purged_step hpurged (not_not.1 hsuited) hkept hstep,
    (exposed_step hpurged hstep).trans hexposed⟩

theorem sent_follow (h : Course.follow step moves station = some last) :
    ∃ more, last.sent = station.sent ++ more := by
  refine Course.follow_preserves (fun later => ∃ more, later.sent = station.sent ++ more)
    ?_ h ⟨[], (List.append_nil _).symm⟩
  rintro move before after ⟨more, hmore⟩ hstep
  obtain ⟨fresh, hfresh⟩ := sent_step hstep
  exact ⟨more ++ fresh, by rw [hfresh, hmore, List.append_assoc]⟩

/-- Nothing is published any more once the queue is closed. -/
theorem sent_of_closed (hclosed : station.depot.queue.closed = true)
    (h : Course.follow step moves station = some last) : last.sent = station.sent := by
  refine (Course.follow_preserves
    (fun later => later.depot.queue.closed = true ∧ later.sent = station.sent)
    ?_ h ⟨hclosed, rfl⟩).2
  rintro move before after ⟨hclosed, hsent⟩ hstep
  obtain ⟨hstill, hsame⟩ := closed_step hclosed hstep
  exact ⟨hstill, hsame.trans hsent⟩

/-- Whatever happens from here on, and as long as a split is not brought back, no batch with news of
it is published. -/
def StaysAway (id : String) (sort : ReaderSort) (station : Station Backend) : Prop :=
  ∀ moves last, (∀ move ∈ moves, move.Suits sort) →
    Course.Never step (Readmits id) moves station →
    Course.follow step moves station = some last →
    ∀ batch ∈ last.sent.drop station.sent.length, batch.news id = []

theorem mild_suits {move : Move} (h : move.IsMild) : move.Suits sort := by
  cases move with
  | ask request => cases request <;> first | exact h.elim | trivial
  | _ => trivial

theorem not_readmits_of_mild {move : Move} (h : move.IsMild) (station : Station Backend) :
    ¬ station.Readmits id move := by
  cases move with
  | ask request => cases request <;> first | exact h.elim | exact not_false
  | _ => exact not_false

/-- After a removal of which all concerned were told, a split stays away exactly if the queue is
closed or no batch in flight tells of it. -/
theorem staysAway_iff (hs : station.Purged id true sort) :
    station.StaysAway id sort ↔
      station.depot.queue.closed = true ∨
        ∀ batch ∈ station.fetcher.inFlight, batch.news id = [] := by
  constructor
  · intro haway
    cases hclosed : station.depot.queue.closed with
    | true => exact .inl rfl
    | false =>
        refine .inr fun batch hflight => by_contra fun hnews => ?_
        have hfull : batch.isEmpty = false := by
          rw [← Bool.not_eq_true]
          exact fun hempty => hnews (SplitBatch.news_of_isEmpty hempty id)
        obtain ⟨moves, last, hmild, hfollow, between, hsent⟩ :=
          canPublish_of_inFlight hs.coherent hs.suited ⟨hclosed, hs.roomy⟩ hflight hfull
        refine hnews (haway moves last (fun move hmem => mild_suits (hmild move hmem))
          (Course.never_of_forall _
            (fun move hmem station => not_readmits_of_mild (hmild move hmem) station) station)
          hfollow batch ?_)
        rw [hsent, List.append_assoc, List.drop_left]
        simp
  · intro hsafe moves last hsuits hkept hfollow batch hmem
    rcases hsafe with hclosed | hquiet
    · rw [sent_of_closed hclosed hfollow] at hmem
      simp at hmem
    · have hexposed := exposed_follow hs hsuits hkept hfollow
      obtain ⟨more, hmore⟩ := sent_follow hfollow
      have hthreat : station.fetcher.threat id = [] := by
        rw [Fetcher.threat, List.filter_eq_nil_iff]
        intro other hother
        rw [Bool.not_eq_true, SplitBatch.tells_eq_false]
        exact hquiet other (Option.mem_toList.1 hother)
      rw [hmore, List.drop_left] at hmem
      have hlength := hexposed.length_le
      rw [exposed, exposed, hmore, hthreat, List.filter_append] at hlength
      have hnone : more.filter (·.tells id) = [] := by
        rw [← List.length_eq_zero_iff]
        simp only [List.length_append, List.length_nil] at hlength
        omega
      rw [List.filter_eq_nil_iff] at hnone
      exact SplitBatch.tells_eq_false.1 (Bool.not_eq_true _ ▸ hnone batch hmem)

/-- The section of a removal notes it for the reader. -/
theorem purged_removal {ids : List String} {split : Split} (hs : station.Regular sort)
    (htaken : split ∈ station.fetcher.duty.named ids)
    (h : station.step (.ask (.removeSplits ids)) = some next) :
    next.Purged split.id false sort := by
  refine ⟨regular_step hs (show Move.Suits sort (.ask (.removeSplits ids)) from trivial) h, ?_⟩
  obtain rfl := Option.some.inj h
  have hsome : (station.fetcher.duty.named ids).isEmpty = false := by
    cases hnamed : station.fetcher.duty.named ids with
    | nil => simp [hnamed] at htaken
    | cons _ _ => rfl
  apply Fetcher.purgedOf_of_purge
  simp only [Request.enact, Duty.unassign, hsome]
  apply SplitsChange.purge_of_removes
  simp only [SplitsChange.removes, List.any_eq_true, beq_iff_eq]
  exact ⟨split, htaken, rfl⟩

/-- Among the nudges of a removal that took something is the wake request. -/
theorem requestWake_mem {ids : List String} {split : Split} {f : Fetcher Backend}
    (htaken : split ∈ f.duty.named ids) :
    Nudge.requestWake ∈ ((Request.removeSplits ids).enact f).2 := by
  have hsome : f.duty.named ids ≠ [] := List.ne_nil_of_mem htaken
  simp [Request.enact, hsome, Nudge.wakeUp]

/-- Once a removal and all of its nudges were carried out, all concerned were told. -/
theorem purged_of_removal {ids : List String} {split : Split} {during : List Move}
    (hs : station.Regular sort) (htaken : split ∈ station.fetcher.duty.named ids)
    (hduring : Course.follow step (.ask (.removeSplits ids) :: during) station = some returned)
    (htold : (((Request.removeSplits ids).enact station.fetcher).2.map Move.nudge).Sublist during)
    (hsuits : ∀ move ∈ during, move.Suits sort)
    (hkept : Course.Never step (Readmits split.id) (.ask (.removeSplits ids) :: during) station) :
    returned.Purged split.id true sort := by
  obtain ⟨entered, hentered, hrest⟩ := Course.follow_cons_eq_some.1 hduring
  have hkept := hkept.2 entered hentered
  have hmem : Move.nudge .requestWake ∈ during :=
    htold.subset (List.mem_map_of_mem (requestWake_mem htaken))
  obtain ⟨before, after, rfl⟩ := List.append_of_mem hmem
  rw [Course.follow_append, Option.bind_eq_some_iff] at hrest
  obtain ⟨told, htoldfollow, hrest⟩ := hrest
  obtain ⟨woken, hwoken, hrest⟩ := Course.follow_cons_eq_some.1 hrest
  obtain ⟨hkept, hkept'⟩ := Course.never_append hkept htoldfollow
  have hsuits' (move : Move) (h : move ∈ before ∨ move ∈ after) : move.Suits sort := by
    refine hsuits move ?_
    rcases h with h | h <;> simp [h]
  have htold' : told.Purged split.id false sort :=
    purged_follow (purged_removal hs htaken hentered) (fun move h => hsuits' move (.inl h)) hkept
      htoldfollow
  have hwoken' : woken.Purged split.id true sort := by
    have hsuits : Move.Suits sort (.nudge .requestWake) := trivial
    refine ⟨regular_step htold'.toRegular hsuits hwoken, ?_⟩
    obtain rfl := Option.some.inj hwoken
    exact Fetcher.purgedOf_requestWake htold'.purged true
  exact purged_follow hwoken' (fun move h => hsuits' move (.inr h)) (hkept'.2 woken hwoken) hrest

/-- A split that a removal has taken away is never published afterwards exactly if no batch with
news of it is in flight when the removal returns, or the queue is closed by then: however the
removal is interleaved with the thread, other requests, and what others do to queue and files. -/
theorem taken_split_staysAway_iff (id : Nat) (reader : Backend) (capacity : Nat)
    (store : FileStore) (ids : List String) (before during : List Move)
    {called returned : Station Backend} (split : Split)
    (hbefore : Course.follow step before
      (fresh id reader { queue := .ofCapacity capacity, store }) = some called)
    (htaken : split ∈ called.fetcher.duty.named ids)
    (hduring : Course.follow step (.ask (.removeSplits ids) :: during) called = some returned)
    (htold : (((Request.removeSplits ids).enact called.fetcher).2.map Move.nudge).Sublist during)
    (hsuits : ∀ move ∈ before ++ during, move.Suits reader.sort)
    (hkept : Course.Never step (Readmits split.id) (.ask (.removeSplits ids) :: during) called) :
    returned.StaysAway split.id reader.sort ↔
      returned.depot.queue.closed = true ∨
        ∀ batch ∈ returned.fetcher.inFlight, batch.news split.id = [] := by
  have hcalled : called.Regular reader.sort :=
    regular_follow (regular_fresh id reader capacity store)
      (fun move hmem => hsuits move (List.mem_append_left _ hmem)) hbefore
  exact staysAway_iff (purged_of_removal hcalled htaken hduring htold
    (fun move hmem => hsuits move (List.mem_append_right _ hmem)) hkept)

/-- A split taken away before the thread has begun with it, with all that the theorem asks for: it
stays away. -/
theorem taken_split_staysAway_at_rest :
    ∃ called returned : Station Backend,
      Course.follow step [.ask (.addSplits [.range ⟨"a", 0, 3⟩])]
          (fresh 0 (.ranges (.withLimits 1 0)) { queue := .ofCapacity 1 }) = some called ∧
        Split.range ⟨"a", 0, 3⟩ ∈ called.fetcher.duty.named ["a"] ∧
        Course.follow step
          [.ask (.removeSplits ["a"]), .nudge .rouse, .nudge .requestWake, .nudge .wakeReader,
            .nudge .rouse] called = some returned ∧
        returned.StaysAway "a" .ranges := by
  refine ⟨_, _, rfl, by decide, rfl, ?_⟩
  refine (taken_split_staysAway_iff 0 (.ranges (.withLimits 1 0)) 1 .empty ["a"]
    [.ask (.addSplits [.range ⟨"a", 0, 3⟩])]
    [.nudge .rouse, .nudge .requestWake, .nudge .wakeReader, .nudge .rouse]
    (.range ⟨"a", 0, 3⟩) rfl (by decide) rfl ?_ ?_ ?_).2 (.inr ?_)
  · exact .refl _
  · simp [Move.Suits, Request.Suits, Split.sort, Backend.sort]
  · exact ⟨not_false, fun _ _ => ⟨not_false, fun _ _ => ⟨not_false, fun _ _ =>
      ⟨not_false, fun _ _ => ⟨not_false, fun _ _ => trivial⟩⟩⟩⟩⟩
  · intro batch hbatch
    cases hbatch

/-- A split whose batch had been looked at when the split was taken away is published after the
removal has returned. -/
theorem taken_split_published :
    ∃ called returned : Station Backend,
      Course.follow step
          [.ask (.addSplits [.range ⟨"a", 0, 3⟩]), .cycle, .thread [], .thread [], .thread [],
            .thread [], .thread [], .thread [], .thread []]
          (fresh 0 (.ranges (.withLimits 1 0)) { queue := .ofCapacity 1 }) = some called ∧
        Split.range ⟨"a", 0, 3⟩ ∈ called.fetcher.duty.named ["a"] ∧
        Course.follow step
          [.ask (.removeSplits ["a"]), .nudge .rouse, .nudge .requestWake, .nudge .wakeReader,
            .nudge .rouse] called = some returned ∧
        ¬ returned.StaysAway "a" .ranges := by
  refine ⟨_, _, rfl, by decide, rfl, fun haway => ?_⟩
  have hnone := haway [.thread [], .thread []] _ (by simp [Move.Suits]) ?_ rfl _ List.mem_cons_self
  · exact absurd hnone (by decide)
  · exact ⟨not_false, fun _ _ => ⟨not_false, fun _ _ => trivial⟩⟩

end SplitFeed.Station
