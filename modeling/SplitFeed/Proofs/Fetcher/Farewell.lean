/-
# Fetchers that are asked to drain

A fetcher that is asked to drain, before anybody has asked it to stop, finishes the cycle under way,
puts what it holds into the queue, says that it waits for the drain, and waits on its latch.  After
it has said so it puts nothing into the queue, and its reader is not closed before the latch was
released.

What is in flight gets lost only if the loop fails, if the queue is closed, or if the cycle is
touched by a wake-up, which makes the thread give its batch back.
-/
import SplitFeed.Proofs.Fetcher.Account
import SplitFeed.Proofs.Fetcher.Custody

namespace SplitFeed

namespace Phase

/-- Whether a cycle is under way. -/
def isCycling : Phase → Bool
  | starting | collecting | handing _ | checking | fetching | fetchLost _ | weighing _
  | rewinding _ | rewound | booking _ | publishing _ _ | noting _ _ | idling _ | ringing _ => true
  | _ => false

/-- Whether the thread hands on what it holds, or waits for the drain. -/
def isParting : Phase → Bool
  | flushing | flushed | announcing | tolling | latched => true
  | _ => false

/-- Whether the thread waits for the drain. -/
def isWaiting : Phase → Bool
  | tolling | latched => true
  | _ => false

end Phase

namespace Fetcher

variable {ρ : Type}

/-- No wake-up has touched the cycle under way. -/
structure Untouched (f : Fetcher ρ) : Prop where
  wake : f.phase.isTouchable = true → f.wakeRequested = false
  kept : ∀ batch, f.phase ≠ .rewinding batch

/-- Whether the loop fails, or has come to its end. -/
def fails (f : Fetcher ρ) : Bool :=
  match f.phase with
  | .fetchLost _ | .cycled (.error _) => f.looping
  | .finishing failed => failed
  | phase => phase.isOut

/-- What the thread holds will not come into the queue any more: the queue is closed, or the loop
ends without waiting for the drain. -/
def IsLost (f : Fetcher ρ) (d : Depot) : Prop :=
  d.queue.closed = true ∨ f.duty.awaitingDrain = false ∧ f.fails = true

/-- The thread waits for the drain only if it was asked to drain, and has nothing then; it does not
close the reader before the latch is released. -/
structure Patient (f : Fetcher ρ) : Prop where
  asked : f.phase.isParting = true → f.duty.stop = some .draining
  awaiting : f.duty.awaitingDrain = true → f.duty.stop = some .draining ∧ f.leftover = none ∧
    (f.phase.isWaiting = true ∨ f.drainLatch.done = true ∧ f.phase.isOut = true)

variable [SplitReader ρ] {disturbed : List Bool} {f g : Fetcher ρ} {d e : Depot}

theorem untouched_advance (hf : f.Untouched) (h : Advance disturbed f d g e) : g.Untouched := by
  obtain ⟨hwake, hkept⟩ := hf
  cases h <;> constructor <;> simp_all [Phase.isTouchable]

theorem isLost_advance (hf : f.IsLost d) (h : Advance disturbed f d g e) : g.IsLost e := by
  have hclosed := (advanced h).closed
  unfold IsLost at *
  cases h with
  | drop hphase hstop => exact hf.imp_right fun hends => ⟨hends.1, rfl⟩
  | _ => simp_all [fails, Phase.isOut, Duty.settle]

theorem patient_advance (hc : f.Coherent) (hf : f.Patient) (h : Advance disturbed f d g e) :
    g.Patient := by
  have hempty := hc.emptyHanded
  obtain ⟨hasked, hawaiting⟩ := hf
  cases h <;> constructor <;>
    simp_all [Phase.isParting, Phase.isWaiting, Phase.isOut, Phase.isEmptyHanded, Duty.settle,
      Duty.book]

/-- A request to stop that was accepted stands. -/
theorem stop_advance {mode : StopMode} (h : Advance disturbed f d g e)
    (hstop : f.duty.stop = some mode) : g.duty.stop = some mode := by
  cases h <;> simp_all [Duty.settle, Duty.book]

omit [SplitReader ρ] in
theorem held_of_offers {batch : SplitBatch Record} (h : f.offers = some batch) :
    f.held = some batch := by
  unfold offers at h
  split at h
  · next hphase => simpa [held, hphase] using h
  · next hphase => simpa [held, hphase] using h
  · cases h

/-- Only a thread that found a wake-up gives a batch back. -/
theorem rewinding_of_givenBack {call : ReaderCall} {batch : SplitBatch Record}
    (hcall : call ∈ f.calls disturbed d) (hgiven : call.givenBack = some batch) :
    f.phase = .rewinding batch := by
  unfold calls at hcall
  split at hcall <;> simp_all [ReaderCall.givenBack]

/-- A thread that drains, and whose cycle no wake-up has touched, puts into the queue what has news,
and lets go of the rest. -/
theorem settles_of_untouched (hc : f.Coherent) (hfull : ∀ batch ∈ f.held, batch.isEmpty = false)
    (hf : f.Untouched) (hp : f.Patient) (hstop : f.duty.stop = some .draining)
    (hlost : ¬ f.IsLost d) :
    ∀ entry ∈ f.settles disturbed d, entry.2 = .queued ∧ entry.1.isEmpty = false ∨
      entry.2 = .recycled ∧ entry.1.isEmpty = true := by
  intro entry hentry
  simp only [settles, List.mem_append, List.mem_map, Option.mem_toList,
    List.mem_filterMap] at hentry
  rcases hentry with ⟨batch, hbatch, rfl⟩ | ⟨batch, ⟨call, hcall, hgiven⟩, rfl⟩ |
    ⟨batch, hbatch, rfl⟩
  · exact .inl ⟨rfl, hfull batch (held_of_offers (offers_of_handsOver hbatch))⟩
  · exact absurd (rewinding_of_givenBack hcall hgiven) (hf.kept batch)
  · cases mayDiscard_of_discards hc hbatch with
    | empty hempty => exact .inr ⟨rfl, hempty⟩
    | closed hclosed => exact absurd (.inl hclosed) hlost
    | failed hphase =>
        have hnot : f.duty.awaitingDrain = false := by
          rw [← Bool.not_eq_true]
          intro hawaits
          have hwhere := (hp.awaiting hawaits).2.2
          simp [hphase, Phase.isWaiting, Phase.isOut] at hwhere
        exact absurd (.inr ⟨hnot, by simp [fails, hphase]⟩) hlost
    | stopped hphase himmediate => cases hstop.symm.trans himmediate

theorem parted_advance (hf : f.phase.isWaiting = true ∨ f.phase.isOut = true)
    (h : Advance disturbed f d g e) :
    (g.phase.isWaiting = true ∨ g.phase.isOut = true) ∧ f.handsOver d = none := by
  cases h <;> simp_all [Phase.isWaiting, Phase.isOut, handsOver, offers]

/-- A thread that has handed on all goes on to close the reader, and leaves. -/
theorem leaves_advance (hf : f.phase.isOut = true) (h : Advance disturbed f d g e) :
    g.phase.isOut = true ∧ g.phase ≠ .closing := by
  cases h <;> simp_all [Phase.isOut]

/-- A thread that waits for the drain calls nobody, and goes on when the latch is released. -/
theorem waiting_advance (hf : f.phase.isWaiting = true) (h : Advance disturbed f d g e) :
    f.calls disturbed d = [] ∧ (g.phase.isWaiting = true ∨ g.drainLatch.done = true) := by
  cases h <;> simp_all [Phase.isWaiting, calls]

theorem closing_of_isClose {call : ReaderCall} (hcall : call ∈ f.calls disturbed d)
    (hclose : call.isClose = true) : f.phase = .closing := by
  unfold calls at hcall
  split at hcall <;> simp_all [ReaderCall.isClose]

theorem latch_advance (h : Advance disturbed f d g e) : g.drainLatch = f.drainLatch := by
  cases h <;> rfl

end Fetcher

namespace Station

variable {ρ : Type} [SplitReader ρ] {station next last : Station ρ} {move : Move}
  {moves : List Move}

/-- A wake-up that touches the cycle under way. -/
def Touches (station : Station ρ) : Move → Prop
  | .nudge .requestWake => station.fetcher.phase.isTouchable = true
  | _ => False

instance (station : Station ρ) : DecidablePred station.Touches := fun move => by
  unfold Touches
  split <;> infer_instance

theorem untouched_step (hs : station.fetcher.Untouched) (htouch : ¬ station.Touches move)
    (h : station.step move = some next) : next.fetcher.Untouched := by
  have hkept (hwake : next.fetcher.wakeRequested = station.fetcher.wakeRequested)
      (hphase : next.fetcher.phase = station.fetcher.phase) : next.fetcher.Untouched :=
    ⟨hwake ▸ hphase ▸ hs.wake, hphase ▸ hs.kept⟩
  cases turn_of_step h with
  | cycle hmay hnext | loop hmay hnext => exact hnext ▸ ⟨nofun, nofun⟩
  | thread hadvance hsent => exact Fetcher.untouched_advance hs hadvance
  | beside hmove hsame =>
      cases move with
      | cycle | loop | thread _ => cases hmove
      | nudge nudge =>
          obtain rfl := Option.some.inj h
          cases nudge with
          | requestWake => exact ⟨fun htouched => absurd htouched htouch, hs.kept⟩
          | rouse | wakeReader | wakePut => exact hkept rfl rfl
      | ask request =>
          obtain rfl := Option.some.inj h
          exact hkept (wakeRequested_enact request station.fetcher) hsame.phase
      | timeOut | queue _ | files _ =>
          obtain rfl := Option.some.inj h
          exact hkept rfl rfl

theorem isLost_step (hs : station.fetcher.IsLost station.depot)
    (h : station.step move = some next) : next.fetcher.IsLost next.depot := by
  rcases hs with hclosed | ⟨hawaiting, hfails⟩
  · exact .inl (closed_step hclosed h).1
  · cases turn_of_step h with
    | cycle hmay hnext | loop hmay hnext =>
        obtain ⟨hphase | ⟨result, hphase⟩, hloop⟩ := phase_of_mayBegin hmay
        · simp [Fetcher.fails, hphase, Phase.isOut] at hfails
        · cases result <;> simp [Fetcher.fails, hphase, hloop, Phase.isOut] at hfails
    | thread hadvance hsent => exact Fetcher.isLost_advance (.inr ⟨hawaiting, hfails⟩) hadvance
    | beside hmove hsame =>
        refine .inr ⟨hsame.awaitingDrain.trans hawaiting, ?_⟩
        simpa only [Fetcher.fails, hsame.phase, hsame.looping] using hfails

theorem stop_step {mode : StopMode} (hs : station.fetcher.duty.stop = some mode)
    (h : station.step move = some next) : next.fetcher.duty.stop = some mode := by
  cases turn_of_step h with
  | cycle hmay hnext | loop hmay hnext => exact hnext ▸ hs
  | thread hadvance hsent => exact Fetcher.stop_advance hadvance hs
  | beside hmove hsame => exact hsame.stop mode hs

omit [SplitReader ρ] in
/-- Where a cycle can begin the thread neither waits for the drain nor leaves. -/
theorem unparted_of_mayBegin {f : Fetcher ρ} (hmay : mayBegin f = true) :
    ¬ (f.phase.isWaiting = true ∨ f.phase.isOut = true) := by
  obtain ⟨hphase | ⟨result, hphase⟩, -⟩ := phase_of_mayBegin hmay <;>
    simp [hphase, Phase.isWaiting, Phase.isOut]

theorem patient_step (hc : station.fetcher.Coherent) (hs : station.fetcher.Patient)
    (h : station.step move = some next) : next.fetcher.Patient := by
  cases turn_of_step h with
  | cycle hmay hnext | loop hmay hnext =>
      refine hnext ▸ ⟨Bool.noConfusion, fun hawaits => ?_⟩
      have hwhere := (hs.awaiting hawaits).2.2
      exact absurd (hwhere.imp_right And.right) (unparted_of_mayBegin hmay)
  | thread hadvance hsent => exact Fetcher.patient_advance hc hs hadvance
  | beside hmove hsame =>
      constructor
      · intro hparting
        exact hsame.stop _ (hs.asked (hsame.phase ▸ hparting))
      · intro hawaits
        obtain ⟨hstop, hleft, hwhere⟩ := hs.awaiting (hsame.awaitingDrain ▸ hawaits)
        refine ⟨hsame.stop _ hstop, hsame.leftover.trans hleft, ?_⟩
        rw [hsame.phase]
        exact hwhere.imp_right fun hreleased => ⟨hsame.latch hreleased.1, hreleased.2⟩

theorem full_step (hc : station.fetcher.Coherent)
    (hs : ∀ batch ∈ station.fetcher.held, batch.isEmpty = false)
    (h : station.step move = some next) : ∀ batch ∈ next.fetcher.held, batch.isEmpty = false := by
  cases turn_of_step h with
  | cycle hmay hnext | loop hmay hnext =>
      obtain ⟨hphase | ⟨result, hphase⟩, -⟩ := phase_of_mayBegin hmay <;>
        simp only [Fetcher.held, hphase] at hs <;> exact hnext ▸ hs
  | thread hadvance hsent => exact Fetcher.full_advance hs hc hadvance
  | beside hmove hsame => simpa only [Fetcher.held, hsame.phase, hsame.leftover] using hs

/-- What holds of a fetcher whatever has happened to it. -/
structure Orderly (station : Station ρ) : Prop where
  coherent : station.fetcher.Coherent
  full : ∀ batch ∈ station.fetcher.held, batch.isEmpty = false
  patient : station.fetcher.Patient

omit [SplitReader ρ] in
theorem orderly_fresh (id : Nat) (reader : ρ) (depot : Depot) :
    (fresh id reader depot).Orderly where
  coherent := Fetcher.coherent_new id reader
  full := nofun
  patient := ⟨nofun, nofun⟩

theorem orderly_step (hs : station.Orderly) (h : station.step move = some next) : next.Orderly where
  coherent := coherent_step hs.coherent h
  full := full_step hs.coherent hs.full h
  patient := patient_step hs.coherent hs.patient h

/-- On the way to the drain, what has news is put into the queue and the rest let go of. -/
theorem settles_follow (hs : station.Orderly) (huntouched : station.fetcher.Untouched)
    (hstop : station.fetcher.duty.stop = some .draining)
    (h : Course.follow step moves station = some last)
    (hnever : Course.Never step Touches moves station) (hlast : ¬ last.fetcher.IsLost last.depot) :
    ∀ entry ∈ Course.gather step settles moves station,
      entry.2 = .queued ∧ entry.1.isEmpty = false ∨
        entry.2 = .recycled ∧ entry.1.isEmpty = true := by
  induction moves generalizing station with
  | nil => exact fun _ hentry => absurd hentry List.not_mem_nil
  | cons move moves ih =>
      have hlost : ¬ station.fetcher.IsLost station.depot := fun hlost =>
        hlast (Course.follow_preserves (fun station => station.fetcher.IsLost station.depot)
          isLost_step h hlost)
      obtain ⟨next, hmove, hrest⟩ := Course.follow_cons_eq_some.1 h
      rw [Course.never_cons hmove] at hnever
      have hthere := ih (orderly_step hs hmove) (untouched_step huntouched hnever.1 hmove)
        (stop_step hstop hmove) hrest hnever.2
      intro entry hentry
      simp only [Course.gather, hmove, Option.elim_some, List.mem_append] at hentry
      rcases hentry with hentry | hentry
      · cases move with
        | thread disturbed =>
            exact Fetcher.settles_of_untouched hs.coherent hs.full huntouched hs.patient hstop hlost
              entry hentry
        | _ => cases hentry
      · exact hthere entry hentry

/-- A fetcher that was asked to drain has put all that it had and was brought into the queue when it
says that it waits for the drain. -/
theorem sent_of_awaiting (hs : station.Orderly) (huntouched : station.fetcher.Untouched)
    (hstop : station.fetcher.duty.stop = some .draining)
    (h : Course.follow step moves station = some last)
    (hnever : Course.Never step Touches moves station) (hopen : last.depot.queue.closed = false)
    (hawaits : last.fetcher.duty.awaitingDrain = true) :
    last.sent = station.sent ++ (station.fetcher.custody.toList ++
      (diary moves station).filterMap ReaderCall.brought).filter (!·.isEmpty) := by
  have hlast : last.Orderly := Course.follow_preserves Orderly orderly_step h hs
  obtain ⟨-, hleft, hwhere⟩ := hlast.patient.awaiting hawaits
  have hhand : last.fetcher.custody = none := by
    cases hphase : last.fetcher.phase <;>
      simp_all [Fetcher.custody, Fetcher.inHand, Phase.isWaiting, Phase.isOut]
  have hlost : ¬ last.fetcher.IsLost last.depot := by
    rintro (hclosed | ⟨hnot, -⟩)
    · exact absurd (hopen.symm.trans hclosed) Bool.noConfusion
    · exact absurd (hawaits.symm.trans hnot) Bool.noConfusion
  rw [custody_follow hs.coherent h, hhand, sent_settled h, Option.toList_none, List.append_nil]
  congr 1
  simp only [batchesIn, List.filter_map]
  congr 1
  refine List.filter_congr fun entry hentry => ?_
  rcases settles_follow hs huntouched hstop h hnever hlost entry hentry with hqueued | hrecycled
  · simp [hqueued]
  · simp [hrecycled]

/-! ### After the announcement -/

/-- A thread that waits for the drain, or is past that, puts nothing into the queue. -/
theorem parted_step
    (hs : station.fetcher.phase.isWaiting = true ∨ station.fetcher.phase.isOut = true)
    (h : station.step move = some next) :
    (next.fetcher.phase.isWaiting = true ∨ next.fetcher.phase.isOut = true) ∧
      next.sent = station.sent := by
  cases turn_of_step h with
  | cycle hmay hnext | loop hmay hnext => exact absurd hs (unparted_of_mayBegin hmay)
  | thread hadvance hsent =>
      obtain ⟨hnext, hnone⟩ := Fetcher.parted_advance hs hadvance
      exact ⟨hnext, by simp [hsent, hnone]⟩
  | beside hmove hsame => exact ⟨hsame.phase ▸ hs, hsame.sent⟩

/-- The latch is released by a request and by nothing else. -/
theorem latch_step (h : station.step move = some next)
    (hdone : next.fetcher.drainLatch.done = true) :
    station.fetcher.drainLatch.done = true ∨ move = .ask .releaseLatch := by
  cases move with
  | cycle | loop =>
      simp only [step, Option.ite_none_right_eq_some, Option.some.injEq] at h
      obtain ⟨-, rfl⟩ := h
      exact .inl hdone
  | thread disturbed => exact .inl (Fetcher.latch_advance (step_thread h).1 ▸ hdone)
  | ask request =>
      obtain rfl := Option.some.inj h
      cases request with
      | releaseLatch => exact .inr rfl
      | addSplits _ | stop _ =>
          simp only [Request.enact] at hdone
          split at hdone <;> exact .inl hdone
      | removeSplits _ | wakeUp _ | pause | resume => exact .inl hdone
  | nudge nudge =>
      obtain rfl := Option.some.inj h
      cases nudge <;> exact .inl hdone
  | timeOut | queue _ | files _ =>
      obtain rfl := Option.some.inj h
      exact .inl hdone

theorem latch_follow (h : Course.follow step moves station = some last)
    (hdone : last.fetcher.drainLatch.done = true) :
    station.fetcher.drainLatch.done = true ∨ .ask .releaseLatch ∈ moves := by
  induction moves generalizing station with
  | nil => exact .inl (Option.some.inj h ▸ hdone)
  | cons move moves ih =>
      obtain ⟨next, hmove, hrest⟩ := Course.follow_cons_eq_some.1 h
      rcases ih hrest with hnext | hmem
      · rcases latch_step hmove hnext with hdone | rfl
        · exact .inl hdone
        · exact .inr List.mem_cons_self
      · exact .inr (List.mem_cons_of_mem move hmem)

/-- The reader was closed only if the thread has gone on to leave. -/
def ClosedLate (calls : List ReaderCall) (station : Station ρ) : Prop :=
  (∃ call ∈ calls, call.isClose = true) →
    station.fetcher.phase.isOut = true ∧ station.fetcher.phase ≠ .closing

theorem closedLate_step {sofar : List ReaderCall} (hs : station.ClosedLate sofar)
    (h : station.step move = some next) : next.ClosedLate (sofar ++ station.calls move) := by
  rintro ⟨call, hmem, hclose⟩
  cases turn_of_step h with
  | cycle hmay hnext | loop hmay hnext =>
      have hout := (hs ⟨call, by simpa [calls, byThread] using hmem, hclose⟩).1
      exact absurd (.inr hout) (unparted_of_mayBegin hmay)
  | thread hadvance hsent =>
      refine Fetcher.leaves_advance ?_ hadvance
      rcases List.mem_append.1 hmem with hmem | hmem
      · exact (hs ⟨call, hmem, hclose⟩).1
      · rw [Fetcher.closing_of_isClose hmem hclose]
        rfl
  | beside hmove hsame =>
      rw [calls, byThread_of_beside hmove, List.append_nil] at hmem
      exact hsame.phase ▸ hs ⟨call, hmem, hclose⟩

/-- The thread has not closed the reader yet and waits, or its latch was released. -/
def HoldsOpen (calls : List ReaderCall) (station : Station ρ) : Prop :=
  station.fetcher.drainLatch.done = true ∨
    station.fetcher.phase.isWaiting = true ∧ ∀ call ∈ calls, call.isClose = false

theorem holdsOpen_step {sofar : List ReaderCall} (hs : station.HoldsOpen sofar)
    (h : station.step move = some next) : next.HoldsOpen (sofar ++ station.calls move) := by
  rcases hs with hdone | ⟨hwaits, hopen⟩
  · left
    cases turn_of_step h with
    | cycle hmay hnext | loop hmay hnext => exact hnext ▸ hdone
    | thread hadvance hsent => exact Fetcher.latch_advance hadvance ▸ hdone
    | beside hmove hsame => exact hsame.latch hdone
  · cases turn_of_step h with
    | cycle hmay hnext | loop hmay hnext =>
        exact absurd (.inl hwaits) (unparted_of_mayBegin hmay)
    | thread hadvance hsent =>
        obtain ⟨hsilent, hnext | hdone⟩ := Fetcher.waiting_advance hwaits hadvance
        · exact .inr ⟨hnext, by simpa [calls, byThread, hsilent] using hopen⟩
        · exact .inl hdone
    | beside hmove hsame =>
        refine .inr ⟨hsame.phase ▸ hwaits, ?_⟩
        rwa [calls, byThread_of_beside hmove, List.append_nil]

/-- The reader of a fetcher that waits for the drain is not closed before the latch is released. -/
theorem holdsOpen_of_awaiting {id : Nat} {reader : ρ} {depot : Depot}
    (h : Course.follow step moves (fresh id reader depot) = some last)
    (hawaits : last.fetcher.duty.awaitingDrain = true) :
    last.HoldsOpen (diary moves (fresh id reader depot)) := by
  have hlast : last.Orderly :=
    Course.follow_preserves Orderly orderly_step h (orderly_fresh id reader depot)
  have hlate : last.ClosedLate (diary moves (fresh id reader depot)) := by
    rw [diary_eq_gather h]
    exact Course.follow_gathers ClosedLate closedLate_step h
      (show ClosedLate [] _ from fun ⟨_, hmem, _⟩ => absurd hmem List.not_mem_nil)
  rcases (hlast.patient.awaiting hawaits).2.2 with hwaits | ⟨hdone, -⟩
  · refine .inr ⟨hwaits, fun call hmem => ?_⟩
    rw [← Bool.not_eq_true]
    intro hclose
    have hout := (hlate ⟨call, hmem, hclose⟩).1
    cases hphase : last.fetcher.phase <;> simp_all [Phase.isWaiting, Phase.isOut]
  · exact .inl hdone

/-- From the announcement on nothing is put into the queue, and if the reader was closed the latch
was released. -/
theorem after_awaiting {id : Nat} {reader : ρ} {depot : Depot} {later : List Move}
    {announced : Station ρ} (h : Course.follow step moves (fresh id reader depot) = some announced)
    (hawaits : announced.fetcher.duty.awaitingDrain = true)
    (hlater : Course.follow step later announced = some last) :
    last.sent = announced.sent ∧
      ((∃ call ∈ diary (moves ++ later) (fresh id reader depot), call.isClose = true) →
        .ask .releaseLatch ∈ moves ++ later) := by
  have hannounced : announced.Orderly :=
    Course.follow_preserves Orderly orderly_step h (orderly_fresh id reader depot)
  have hall : Course.follow step (moves ++ later) (fresh id reader depot) = some last := by
    rw [Course.follow_append, h]
    exact hlater
  constructor
  · refine (Course.follow_preserves (fun station =>
      (station.fetcher.phase.isWaiting = true ∨ station.fetcher.phase.isOut = true) ∧
        station.sent = announced.sent) ?_ hlater ⟨?_, rfl⟩).2
    · rintro move state next ⟨hparted, hsent⟩ hmove
      obtain ⟨hnext, hsame⟩ := parted_step hparted hmove
      exact ⟨hnext, hsame.trans hsent⟩
    · exact (hannounced.patient.awaiting hawaits).2.2.imp_right And.right
  · rintro ⟨call, hmem, hclose⟩
    rw [diary_append h hlater, diary_eq_gather hlater] at hmem
    have hdone : last.fetcher.drainLatch.done = true := by
      rcases Course.follow_gathers HoldsOpen holdsOpen_step hlater
        (holdsOpen_of_awaiting h hawaits) with hdone | ⟨-, hopen⟩
      · exact hdone
      · exact absurd (hclose.symm.trans (hopen call hmem)) Bool.noConfusion
    exact (latch_follow hall hdone).resolve_left Bool.noConfusion

/-- The first request to stop says how. -/
theorem stop_of_first {mode : StopMode} (hfirst : station.fetcher.duty.stop = none)
    (h : station.step (.ask (.stop mode)) = some next) :
    next.fetcher.duty.stop = some mode ∧ Beside station next := by
  constructor
  · obtain rfl := Option.some.inj h
    simp [Request.enact, hfirst]
  · cases turn_of_step h with
    | beside hmove hsame => exact hsame

omit [SplitReader ρ] in
theorem untouched_of_rested (h : station.fetcher.phase.isCycling = false) :
    station.fetcher.Untouched := by
  constructor
  · intro htouchable
    cases hphase : station.fetcher.phase <;> simp_all [Phase.isCycling, Phase.isTouchable]
  · intro batch hphase
    simp [hphase, Phase.isCycling] at h

/-- A fetcher that is asked to drain, before anybody has asked it to stop, loses nothing that is in
flight.  If the cycle under way is touched by no wake-up, and the queue stays open, then all that
the thread had or was brought, but for batches without news, is in the queue when the fetcher says
that it waits for the drain.  From then on it puts nothing into the queue, and its reader is not
closed unless the latch was released at some time.  Whoever asks it to stop later changes nothing
of that.  A fetcher that is first asked to stop at once never waits for the drain. -/
theorem drain_loses_nothing {id : Nat} {reader : ρ} {depot : Depot} (before during : List Move)
    {rested asked : Station ρ}
    (hbefore : Course.follow step before (fresh id reader depot) = some rested)
    (hrested : rested.fetcher.phase.isCycling = false)
    (hduring : Course.follow step during rested = some asked)
    (hfirst : asked.fetcher.duty.stop = none) :
    (∀ after announced,
      Course.follow step (.ask (.stop .draining) :: after) asked = some announced →
      Course.Never step Touches (during ++ .ask (.stop .draining) :: after) rested →
      announced.depot.queue.closed = false → announced.fetcher.duty.awaitingDrain = true →
      announced.sent = asked.sent ++ (asked.fetcher.custody.toList ++
        (diary (.ask (.stop .draining) :: after) asked).filterMap ReaderCall.brought).filter
          (!·.isEmpty) ∧
      ∀ later last, Course.follow step later announced = some last →
        last.sent = announced.sent ∧ last.fetcher.duty.stop = some .draining ∧
        ((∃ call ∈ diary (before ++ during ++ .ask (.stop .draining) :: after ++ later)
            (fresh id reader depot), call.isClose = true) →
          .ask .releaseLatch ∈ before ++ during ++ .ask (.stop .draining) :: after ++ later)) ∧
    (∀ after last, Course.follow step (.ask (.stop .immediate) :: after) asked = some last →
      last.fetcher.duty.awaitingDrain = false ∧ last.fetcher.phase ≠ .latched) := by
  have hrested' : rested.Orderly :=
    Course.follow_preserves Orderly orderly_step hbefore (orderly_fresh id reader depot)
  have hasked : asked.Orderly := Course.follow_preserves Orderly orderly_step hduring hrested'
  constructor
  · intro after announced hafter hnever hopen hawaits
    obtain ⟨told, hask, hrest⟩ := Course.follow_cons_eq_some.1 hafter
    obtain ⟨hstop, hsame⟩ := stop_of_first hfirst hask
    obtain ⟨hnever, hnever'⟩ := Course.never_append hnever hduring
    rw [Course.never_cons hask] at hnever'
    have huntouched : told.fetcher.Untouched :=
      untouched_step (Course.follow_preserves_of_never (fun station => station.fetcher.Untouched)
        untouched_step hduring hnever (untouched_of_rested hrested)) hnever'.1 hask
    have htold : told.Orderly := orderly_step hasked hask
    have hsent := sent_of_awaiting htold huntouched hstop hrest hnever'.2 hopen hawaits
    have hdiary : diary (.ask (.stop .draining) :: after) asked = diary after told := by
      rw [diary_eq_gather hafter, diary_eq_gather hrest]
      simp [Course.gather, hask, calls, byThread]
    rw [hsame.sent, Fetcher.custody_congr hsame.phase hsame.leftover, ← hdiary] at hsent
    refine ⟨hsent, fun later last hlater => ?_⟩
    have hall : Course.follow step (before ++ during ++ .ask (.stop .draining) :: after)
        (fresh id reader depot) = some announced := by
      simp only [Course.follow_append, hbefore, hduring, Option.bind_some, hafter]
    have hdraining : last.fetcher.duty.stop = some .draining :=
      Course.follow_preserves (fun station => station.fetcher.duty.stop = some .draining) stop_step
        hlater (Course.follow_preserves
          (fun station => station.fetcher.duty.stop = some .draining) stop_step hrest hstop)
    obtain ⟨hsame, hclosed⟩ := after_awaiting hall hawaits hlater
    exact ⟨hsame, hdraining, hclosed⟩
  · intro after last hafter
    obtain ⟨told, hask, hrest⟩ := Course.follow_cons_eq_some.1 hafter
    obtain ⟨hstop, -⟩ := stop_of_first hfirst hask
    have hlast : last.Orderly :=
      Course.follow_preserves Orderly orderly_step hrest (orderly_step hasked hask)
    have himmediate : last.fetcher.duty.stop = some .immediate :=
      Course.follow_preserves (fun station => station.fetcher.duty.stop = some .immediate) stop_step
        hrest hstop
    constructor
    · rw [← Bool.not_eq_true]
      intro hawaits
      cases himmediate.symm.trans (hlast.patient.awaiting hawaits).1
    · intro hphase
      cases himmediate.symm.trans (hlast.patient.asked (hphase ▸ rfl))

/-- A put is woken after the request to drain, and the batch is flushed once there is room. -/
def woken : List Move :=
  threads 4 ++ [.nudge .wakePut] ++ threads 6 ++ [.queue .poll] ++ threads 4

/-- A fetcher that is asked to drain inside its second fetch, with all that the theorem asks for:
both batches are in the queue when it waits for the drain. -/
theorem second_batch_drained :
    ∃ rested asked announced : Station Backend,
      Course.follow step ([.ask (.addSplits [.range ⟨"a", 0, 3⟩]), .loop] ++ threads 12)
          (fresh 0 (.ranges (.withLimits 1 0)) { queue := .ofCapacity 1 }) = some rested ∧
        rested.fetcher.phase.isCycling = false ∧
        Course.follow step (threads 5) rested = some asked ∧
        asked.fetcher.duty.stop = none ∧
        Course.follow step (.ask (.stop .draining) :: woken) asked = some announced ∧
        Course.Never step Touches (threads 5 ++ .ask (.stop .draining) :: woken) rested ∧
        announced.depot.queue.closed = false ∧ announced.fetcher.duty.awaitingDrain = true ∧
        announced.sent.length = 2 ∧
        announced.sent = asked.sent ++ (asked.fetcher.custody.toList ++
          (diary (.ask (.stop .draining) :: woken) asked).filterMap ReaderCall.brought).filter
            (!·.isEmpty) := by
  refine ⟨_, _, _, rfl, rfl, rfl, rfl, rfl, ?_, rfl, rfl, ?_, ?_⟩
  · decide
  · decide
  · have hbefore : Course.follow step
        ([.ask (.addSplits [.range ⟨"a", 0, 3⟩]), .loop] ++ threads 12)
        (fresh 0 (.ranges (.withLimits 1 0)) { queue := .ofCapacity 1 } : Station Backend) =
          some _ := rfl
    have hdrains := (drain_loses_nothing _ (threads 5) hbefore rfl rfl rfl).1
    exact (hdrains woken _ rfl (by decide) rfl rfl).1

end Station

end SplitFeed
