/-
# A consumer that waits

The consumer waits when it has found no batch and somebody has more to do.  It should not wait for
good: while neither the bell rings that it waits for nor a failure is reported, some fetcher in a
slot works.  Such a fetcher can make its next step now; it is not held up by the queue or by its
latch, and it has something left to do that ends in a put, in a ring of the bell or in a failure.

Four signals have to be right for that: a put into the empty queue, a fetcher that turns idle, one
that comes to wait for the drain, and a failure.
-/
import SplitFeed.Proofs.Pipeline.Traffic

namespace SplitFeed

/-- The thread sleeps in a put, or has a batch to put for which there is no room. -/
def Fetcher.IsBlocked {ρ : Type} (d : Depot) (f : Fetcher ρ) : Prop :=
  f.isAsleepInPut d = true ∨ f.offers.isSome = true ∧ d.queue.hasRoom = false

namespace Traffic

variable {ρ : Type} [SplitReader ρ] {traffic last : Traffic ρ} {f : Fetcher ρ} {bell : Nat}

/-- A fetcher in a slot that can make a step, whether its reader is disturbed or not, and is
neither blocked in a put nor at its latch, nor waits for splits. -/
structure Works (traffic : Traffic ρ) (f : Fetcher ρ) : Prop where
  live : f ∈ traffic.pipeline.supervisor.live
  steps : ∀ disturbed, (step (.thread f.id disturbed) traffic).isSome = true
  unblocked : ¬ f.IsBlocked traffic.pipeline.supervisor.depot
  unlatched : f.phase ≠ .latched
  busy : ¬ f.AwaitsSplits

/-- The consumer waits for a bell that is silent, and no failure waits to be heard. -/
structure Waits (traffic : Traffic ρ) (bell : Nat) : Prop where
  dealt : traffic.dealing = []
  errands : traffic.pipeline.errands = []
  phase : traffic.pipeline.phase = .waiting bell
  silent : traffic.pipeline.supervisor.queue.hasRung bell = false
  fine : traffic.pipeline.supervisor.depot.failures = []

/-- A fetcher that stirs works, while the consumer waits. -/
theorem works_of_stirs (ha : traffic.Attended) (hw : traffic.Waits bell)
    (hf : f ∈ traffic.pipeline.supervisor.crew) (hcalm : f.phase.isPanic = false)
    (hlive : f.id ∈ traffic.pipeline.supervisor.liveIds) (hs : f.Stirs) : traffic.Works f := by
  obtain ⟨hdealt, herrands, hphase, hsilent, hfine⟩ := hw
  have hattended := ha.attended
  rw [agenda, hdealt, herrands, hphase] at hattended
  have honDuty := hattended.onDuty f hf hlive
  have hfound := Supervisor.fetcher?_of_mem_crew hattended.unique hf
  obtain ⟨hempty, hroom⟩ :=
    HandoffQueue.empty_of_silent hattended.queue List.mem_cons_self hsilent
  have hawake : f.isAsleepInPut traffic.pipeline.supervisor.depot = false := by
    have hnobody := hattended.queue.roomy (of_decide_eq_true hroom)
    simp only [Supervisor.queue] at hnobody
    simp [Fetcher.isAsleepInPut, hnobody]
  -- A thread that naps has nothing to do, or else it would have been roused.
  have hup (hparked : f.phase = .parked) : f.napping = false := by
    rw [← Bool.not_eq_true]
    intro hnapping
    have hmay :=
      ((hattended.reached f hf hlive).roused hparked hnapping).resolve_right List.not_mem_nil
    obtain ⟨hstop, ⟨hassigned, -⟩, -⟩ : f.duty.stop = none ∧
        (f.duty.assigned = [] ∧ f.duty.pending = []) ∧ f.duty.unpublished = false := by
      simpa [Duty.mayPark, honDuty.unpaused] using hmay
    have hidle := honDuty.slack (hparked ▸ rfl) hassigned
    exact hs.2 ⟨hstop, hassigned, hidle, hparked ▸ rfl⟩
  refine ⟨List.mem_filterMap.2 ⟨f.id, hlive, hfound⟩, fun disturbed => ?_, ?_, hs.1, hs.2⟩
  · have hsteps : (Supervisor.stepFetcher? disturbed f
        traffic.pipeline.supervisor.depot).isSome = true :=
      Fetcher.canStep honDuty hcalm hfine hs.1 hup hawake
    simpa [step, Supervisor.stepThread?, hfound] using hsteps
  · rintro (hasleep | ⟨-, hfull⟩)
    · simp [hawake] at hasleep
    · exact absurd hroom (by simpa [Supervisor.queue] using hfull)

/-- While the consumer waits, somebody works. -/
theorem exists_works (ha : traffic.Attended) (hw : traffic.Waits bell)
    (hcalm : ∀ f ∈ traffic.pipeline.supervisor.crew, f.phase.isPanic = false) :
    ∃ f, traffic.Works f := by
  have hknows := ha.attended.knows
  rw [hw.phase] at hknows
  obtain ⟨f, hf, hlive, hs⟩ := hknows ⟨hw.silent, hw.fine⟩
  exact ⟨f, works_of_stirs ha hw hf (hcalm f hf) hlive hs⟩

/-- A consumer without errands that takes batches makes a step, unless it waits. -/
theorem consumer_or_waits {p : Pipeline ρ} (herrands : p.errands = [])
    (htakes : p.phase.isTaking = true) :
    p.stepConsumer?.isSome = true ∨ ∃ bell, p.phase = .waiting bell ∧
      p.supervisor.queue.hasRung bell = false ∧ p.supervisor.depot.failures = [] := by
  cases hphase : p.phase with
  | waiting bell =>
      cases hrung : p.supervisor.queue.hasRung bell with
      | true =>
          exact .inl (by simp [Pipeline.stepConsumer?, herrands, hphase, Pipeline.await?, hrung])
      | false =>
          cases hfailures : p.supervisor.depot.failures with
          | nil => exact .inr ⟨bell, rfl, hrung, rfl⟩
          | cons failure later =>
              exact .inl (by
                simp [Pipeline.stepConsumer?, herrands, hphase, Pipeline.await?, hrung, hfailures])
  | polling =>
      refine .inl ?_
      simp only [Pipeline.stepConsumer?, herrands, hphase]
      split <;> rfl
  | looking bell =>
      refine .inl ?_
      simp only [Pipeline.stepConsumer?, herrands, hphase]
      repeat' split
      all_goals rfl
  | listening | consuming _ | asking | reaping _ _ | lastLook | counting _ _ =>
      exact .inl (by simp [Pipeline.stepConsumer?, herrands, hphase])
  | _ => simp [hphase, ConsumerPhase.isTaking, ConsumerPhase.isFeeding] at htakes

/-- As long as the consumer takes batches, work goes on, unless it waits. -/
theorem work_or_waits (htakes : traffic.pipeline.phase.isTaking = true) :
    (step .work traffic).isSome = true ∨ ∃ bell, traffic.Waits bell := by
  cases hdealt : traffic.dealing with
  | cons task later =>
      refine .inl ?_
      simp only [step, hdealt]
      split <;> rfl
  | nil =>
      cases herrands : traffic.pipeline.errands with
      | cons errand rest => exact .inl (by simp [step, hdealt, Pipeline.stepConsumer?, herrands])
      | nil =>
          rcases consumer_or_waits herrands htakes with hstep | ⟨bell, hphase, hsilent, hfine⟩
          · exact .inl (by simpa [step, hdealt] using hstep)
          · exact .inr ⟨bell, hdealt, herrands, hphase, hsilent, hfine⟩

/-- The consumer never waits for good.  Whatever it is set up with, however threads and consumer
take their turns, and unless a call into a reader has panicked: whenever the consumer waits for a
bell that is silent and no failure waits to be heard, some fetcher in a slot works; so as long as
the consumer takes batches, feeding or draining, it can make a step or some fetcher works. -/
theorem never_waits_for_good {plan : Plan ρ} {moves : List Run.Move}
    (h : Course.follow step moves (opened plan) = some last)
    (hcalm : ∀ f ∈ last.pipeline.supervisor.crew, f.phase.isPanic = false) :
    (∀ bell, last.Waits bell → ∃ f, last.Works f) ∧
      (last.pipeline.phase.isTaking = true →
        (step .work last).isSome = true ∨ ∃ f, last.Works f) := by
  have hwaits (bell : Nat) (hw : last.Waits bell) : ∃ f, last.Works f := by
    have htakes : last.pipeline.phase.isTaking = true := by
      rw [hw.phase]
      rfl
    exact exists_works (attended_follow h htakes) hw hcalm
  refine ⟨hwaits, fun htakes => ?_⟩
  exact (work_or_waits htakes).imp_right fun ⟨bell, hw⟩ => hwaits bell hw

/-- Whether the consumer waits for a bell that is silent, with no failure to be heard, and no thread
has panicked. -/
def calmWait (traffic : Traffic ρ) : Bool :=
  match traffic.dealing, traffic.pipeline.errands, traffic.pipeline.phase with
  | [], [], .waiting bell =>
    !traffic.pipeline.supervisor.queue.hasRung bell &&
      traffic.pipeline.supervisor.depot.failures.isEmpty &&
        traffic.pipeline.supervisor.crew.all (!·.phase.isPanic)
  | _, _, _ => false

/-- The consumer has enough and waits for the fetcher to drain, which has a batch to put before. -/
theorem sip_waits_not_for_good :
    ∃ last bell, Course.follow step (working 6 ++ fetching 20 ++ working 10) (opened sip) =
        some last ∧
      (∀ f ∈ last.pipeline.supervisor.crew, f.phase.isPanic = false) ∧ last.Waits bell ∧
        ∃ f, last.Works f := by
  have hcourse : (Course.follow step (working 6 ++ fetching 20 ++ working 10) (opened sip)).any
      calmWait = true := by
    decide +kernel
  obtain ⟨last, hrun, htest⟩ := (Option.any_eq_true _ _).1 hcourse
  unfold calmWait at htest
  split at htest
  · next bell hdealt herrands hphase =>
      simp only [Bool.and_eq_true, Bool.not_eq_true', List.isEmpty_iff, List.all_eq_true] at htest
      obtain ⟨⟨hsilent, hfine⟩, hcalm⟩ := htest
      have hwaits : last.Waits bell := ⟨hdealt, herrands, hphase, hsilent, hfine⟩
      exact ⟨last, bell, hrun, hcalm, hwaits, (never_waits_for_good hrun hcalm).1 bell hwaits⟩
  · cases htest

end Traffic

end SplitFeed
