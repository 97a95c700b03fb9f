/-
# Fetchers on duty

The fetchers in the slots of a supervisor that only its consumer asks for anything are given splits,
and told to hand on what they hold when the consumer has enough.  Such a fetcher is on duty: nothing
comes between its fetch and its put, it holds no batch back, and it leaves only after a failure or
when its latch is released.

A fetcher on duty stirs unless it lies at its latch, or waits for splits with nothing more to tell.
While a consumer waits for a bell that stays silent, who stirs goes on stirring, and is able to make
its next step.
-/
import SplitFeed.Proofs.Fetcher.Idle
import SplitFeed.Proofs.Handoff.Bells
import SplitFeed.Proofs.Supervisor.Crew

namespace SplitFeed

namespace Phase

/-- Whether a loop that nobody pauses can come to a phase while the queue is open. -/
def isPlain : Phase → Bool
  | resting | stopping => false
  | noting outcome _ => outcome = .published || outcome = .publishDeferred
  | idling outcome | ringing outcome | cycled (.ok outcome) =>
    outcome ≠ .queueClosed && outcome ≠ .paused
  | _ => true

/-- Whether the thread has found nothing to read, and has not looked again since. -/
def isSlack : Phase → Bool
  | ringing _ | cycled (.ok .idle) | parking | parked => true
  | _ => false

/-- Whether the thread winds down to wait for the drain, or waits for it. -/
def isDraining : Phase → Bool
  | finishing false | flushing | flushed | announcing | tolling | latched => true
  | _ => false

/-- Whether the thread has said that it waits for the drain. -/
def isAnnounced : Phase → Bool
  | tolling | latched => true
  | _ => false

/-- Whether the thread leaves for another reason than the drain, or has left. -/
def isDeparting : Phase → Bool
  | finishing true | closing | leaving _ | terminating _ | ended _ | gone => true
  | _ => false

/-- Whether the thread has a batch to put, or says that it turned idle. -/
def isCalling : Phase → Bool
  | publishing _ _ | ringing _ => true
  | _ => false

end Phase

namespace Fetcher

variable {ρ : Type} {f g : Fetcher ρ} {d e : Depot} {disturbed : List Bool}
  {draining draining' : Bool}

/-- A fetcher that is given splits and, once its consumer has enough, told to drain.  `reading`
and `slack` say that what it was given is not forgotten; `leftover` and `unpublished`, that it
holds no batch back; `departing`, that it leaves after a failure only. -/
structure OnDuty (draining : Bool) (d : Depot) (f : Fetcher ρ) : Prop where
  coherent : f.Coherent
  looping : f.looping = true
  plain : f.phase.isPlain = true
  unpaused : f.duty.paused = false
  reading : f.duty.fetching = true → f.duty.assigned ≠ []
  slack : f.phase.isSlack = true → f.duty.assigned = [] → f.duty.idle = true
  stop : f.duty.stop = none ∨ f.duty.stop = some .draining ∧ draining = true
  leftover : f.leftover = none
  unpublished : f.duty.unpublished = false
  latch : f.drainLatch.done = false
  winding : f.phase.isDraining = true → f.duty.stop = some .draining
  departing : f.phase.isDeparting = true → d.failures ≠ []
  awaiting : f.duty.awaitingDrain = f.phase.isAnnounced

theorem onDuty_new (id : Nat) (reader : ρ) (d : Depot) :
    ({ id, reader } : Fetcher ρ).beginLoop.OnDuty draining d where
  coherent := by
    constructor <;> simp [beginLoop, Phase.isFetch, Phase.isEmptyHanded, Phase.isNoted]
  looping := rfl
  plain := rfl
  unpaused := rfl
  reading := nofun
  slack := nofun
  stop := .inl rfl
  leftover := rfl
  unpublished := rfl
  latch := rfl
  winding := nofun
  departing := nofun
  awaiting := rfl

/-- Others may begin to drain, and report failures. -/
theorem onDuty_mono (hf : f.OnDuty draining d) (hdraining : draining = true → draining' = true)
    (hfailures : d.failures ≠ [] → e.failures ≠ []) : f.OnDuty draining' e :=
  { hf with
    stop := hf.stop.imp_right fun ⟨hsome, hdrains⟩ => ⟨hsome, hdraining hdrains⟩
    departing := fun hdeparts => hfailures (hf.departing hdeparts) }

/-- Being on duty does not depend on who is woken, or on the reader. -/
theorem onDuty_congr (hf : f.OnDuty draining d) (hc : g.Coherent) (hphase : g.phase = f.phase)
    (hduty : g.duty = f.duty) (hleft : g.leftover = f.leftover)
    (hlooping : g.looping = f.looping) (hlatch : g.drainLatch = f.drainLatch) :
    g.OnDuty draining d := by
  obtain ⟨-, hloops, hplain, hunpaused, hreading, hslack, hstop, hnone, hunpublished, hdone,
    hwinding, hdeparting, hawaiting⟩ := hf
  rw [← hphase] at hplain hslack hwinding hdeparting hawaiting
  rw [← hduty] at hunpaused hreading hslack hstop hunpublished hwinding hawaiting
  exact ⟨hc, hlooping.trans hloops, hplain, hunpaused, hreading, hslack, hstop, hleft.trans hnone,
    hunpublished, hlatch ▸ hdone, hwinding, hdeparting, hawaiting⟩

theorem onDuty_nudge [SplitReader ρ] (nudge : Nudge) (depot : Depot) (hf : f.OnDuty draining d) :
    (nudge.apply f depot).1.OnDuty draining d := by
  have hc := coherent_nudge nudge depot hf.coherent
  cases nudge <;> exact onDuty_congr hf hc rfl rfl rfl rfl rfl

theorem onDuty_timeOut (hf : f.OnDuty draining d) : f.timeOut.OnDuty draining d :=
  onDuty_congr hf (coherent_congr hf.coherent rfl rfl rfl rfl rfl fun h => h) rfl rfl rfl rfl rfl

/-- Splits are added behind those that are there, so none is forgotten. -/
theorem onDuty_addSplits (splits : List Split) (hf : f.OnDuty draining d) :
    ((Request.addSplits splits).enact f).1.OnDuty draining d := by
  have hc := coherent_enact (.addSplits splits) hf.coherent
  simp only [Request.enact] at hc ⊢
  split
  · exact hf
  · next hadded =>
      rw [if_neg hadded] at hc
      obtain ⟨-, hnew⟩ : _ ∧ Duty.newcomers f.duty.assigned splits ≠ [] := by
        simpa [not_or] using hadded
      have hsome : f.duty.assigned ++ Duty.newcomers f.duty.assigned splits ≠ [] := by
        simp [hnew]
      exact
        { hf with
          coherent := hc
          reading := fun _ => hsome
          slack := fun _ hnone => absurd hnone hsome }

theorem onDuty_stop (hf : f.OnDuty true d) :
    ((Request.stop .draining).enact f).1.OnDuty true d := by
  have hc := coherent_enact (.stop .draining) hf.coherent
  simp only [Request.enact] at hc ⊢
  split
  · exact hf
  · next hnone =>
      rw [hnone] at hc
      exact { hf with coherent := hc, stop := .inr ⟨rfl, rfl⟩, winding := fun _ => rfl }

/-- Its thread keeps a fetcher on duty, as long as nobody has woken its puts. -/
theorem onDuty_advance [SplitReader ρ] (hf : f.OnDuty draining d) (hopen : d.queue.closed = false)
    (hcalm : f.id ∉ d.queue.wokenProducers) (h : Advance disturbed f d g e) :
    g.OnDuty draining e where
  coherent := coherent_advance hf.coherent h
  looping := (advanced h).looping.trans hf.looping
  plain := by
    have hplain := hf.plain
    cases h with
    | skip _ hpaused => exact absurd hpaused (by simp [hf.unpaused])
    | shutOut _ _ hclosed | flushShut _ _ _ hclosed => exact absurd hclosed (by simp [hopen])
    | giveUp hphase | stop hphase => simp [hphase, Phase.isPlain] at hplain
    | noteLast hphase | note hphase =>
        simp only [hphase, Phase.isPlain, Bool.or_eq_true, decide_eq_true_eq] at hplain
        rcases hplain with rfl | rfl <;> rfl
    | stayIdle hphase | turnIdle hphase | ring hphase =>
        rw [hphase] at hplain
        exact hplain
    | doze | flush | flushAgain | flushDoze => exact hplain
    | _ => rfl
  unpaused := by
    have hunpaused := hf.unpaused
    cases h <;> exact hunpaused
  reading hin := by
    cases h with
    | findSplits _ hassigned => exact hassigned
    | lose | staleEnd | bookNothingLast | bookNothing | book | leave => cases hin
    | _ => exact hf.reading hin
  slack hidle hassigned := by
    have hplain := hf.plain
    cases h with
    | turnIdle => rfl
    | stayIdle _ hflag => exact hflag
    | ring hphase | nap hphase _ => exact hf.slack (hphase ▸ rfl) hassigned
    | lieDown hphase _ houtcome =>
        rcases houtcome with rfl | rfl
        · simp [hphase, Phase.isPlain] at hplain
        · exact hf.slack (hphase ▸ rfl) hassigned
    | note hphase =>
        simp only [hphase, Phase.isPlain, Bool.or_eq_true, decide_eq_true_eq] at hplain
        rcases hplain with rfl | rfl <;> cases hidle
    | doze | flush | flushAgain | flushShut | flushDoze => exact hf.slack hidle hassigned
    | _ => cases hidle
  stop := by
    have hstop := hf.stop
    cases h with
    | stop hphase => exact absurd hf.plain (by simp [hphase, Phase.isPlain])
    | _ => exact hstop
  leftover := by
    have hleft := hf.leftover
    cases h with
    | retry | drop | flush | flushShut => rfl
    | defer _ _ _ _ hwoken => exact absurd hwoken hcalm
    | _ => exact hleft
  unpublished := by
    cases h with
    | noteLast | note => simp [hf.leftover]
    | clear | leave => rfl
    | _ => exact hf.unpublished
  latch := by
    have hlatch := hf.latch
    cases h <;> exact hlatch
  winding hwinds := by
    cases h with
    | halt _ hstop =>
        rcases hf.stop with hnone | ⟨hsome, -⟩
        · simp [hnone] at hstop
        · exact hsome
    | stop hphase => exact absurd hf.plain (by simp [hphase, Phase.isPlain])
    | drain _ hstop => exact hstop
    | flushNothing hphase | clear hphase | announce hphase | toll hphase =>
        exact hf.winding (hphase ▸ rfl)
    | doze | flush | flushAgain | flushShut | flushDoze => exact hf.winding hwinds
    | _ => cases hwinds
  departing hdeparts := by
    cases h with
    | report => simp
    | drop hphase hstop =>
        cases hfailed : ‹Bool› with
        | true => exact hf.departing (by rw [hphase, hfailed]; rfl)
        | false => exact absurd (hf.winding (by rw [hphase, hfailed]; rfl)) (hstop hfailed)
    | unlatch _ hdone => simp [hf.latch] at hdone
    | close hphase | closeFail hphase | leave hphase | terminate hphase =>
        exact hf.departing (hphase ▸ rfl)
    | doze | flush | flushAgain | flushShut | flushDoze => exact hf.departing hdeparts
    | _ => cases hdeparts
  awaiting := by
    have hawaiting := hf.awaiting
    cases h with
    | announce | leave => rfl
    | unlatch _ hdone => simp [hf.latch] at hdone
    | doze | flush | flushAgain | flushShut | flushDoze => exact hawaiting
    | _ =>
        rename f.phase = _ => hphase
        rw [hphase] at hawaiting
        exact hawaiting

/-! ### Who waits for the drain -/

/-- Whoever waits for the drain does so until it is released, and is past it then. -/
theorem isDrained_advance [SplitReader ρ] (hd : Supervisor.isDrained f = true)
    (h : Advance disturbed f d g e) : Supervisor.isDrained g = true := by
  cases h with
  | announce | leave => simp [Supervisor.isDrained, Duty.settle]
  | _ => exact hd

theorem isDrained_nudge [SplitReader ρ] (nudge : Nudge) (depot : Depot) (f : Fetcher ρ) :
    Supervisor.isDrained (nudge.apply f depot).1 = Supervisor.isDrained f := by
  cases nudge <;> rfl

theorem isDrained_enact (request : Request) (f : Fetcher ρ) :
    Supervisor.isDrained (request.enact f).1 = Supervisor.isDrained f := by
  cases request with
  | addSplits splits =>
      simp only [Request.enact]
      split <;> rfl
  | stop mode =>
      simp only [Request.enact]
      split <;> rfl
  | removeSplits _ | wakeUp _ | pause | resume | releaseLatch => rfl

/-- It fetches nothing, and has no batch to put. -/
theorem emptyHanded_of_isDrained (hf : f.OnDuty draining d) (hd : Supervisor.isDrained f = true) :
    f.duty.fetching = false ∧ f.held = none := by
  have hcases : f.phase.isAnnounced = true ∨ f.phase.isSettled = true := by
    rw [← hf.awaiting]
    exact (Bool.or_eq_true _ _ ▸ hd).imp_right hf.coherent.closed
  obtain ⟨hfetch, hpanic, hheld⟩ :
      f.phase.isFetch = false ∧ f.phase.isPanic = false ∧ f.held = f.leftover := by
    unfold held
    revert hcases
    cases f.phase <;> simp [Phase.isAnnounced, Phase.isSettled, Phase.isFetch, Phase.isPanic]
  exact ⟨hf.coherent.notFetching hfetch hpanic, hheld.trans hf.leftover⟩

/-! ### Who stirs -/

/-- The fetcher has nothing to read, has said so, and nobody told it to stop: until it is given
splits there is nothing to do for it, and it stays like that (`awaitsSplits_stride`). -/
def AwaitsSplits (f : Fetcher ρ) : Prop :=
  f.duty.stop = none ∧ f.duty.assigned = [] ∧ f.duty.idle = true ∧ f.phase.isCalling = false

/-- The fetcher neither lies at its latch nor waits for splits. -/
def Stirs (f : Fetcher ρ) : Prop := f.phase ≠ .latched ∧ ¬ f.AwaitsSplits

theorem stirs_congr (hs : f.Stirs) (hphase : g.phase = f.phase) (hduty : g.duty = f.duty) :
    g.Stirs := by
  simpa only [Stirs, AwaitsSplits, hphase, hduty] using hs

theorem stirs_nudge [SplitReader ρ] (nudge : Nudge) (depot : Depot) (hs : f.Stirs) :
    (nudge.apply f depot).1.Stirs := by
  cases nudge <;> exact stirs_congr hs rfl rfl

/-- Whoever is given splits, or told to stop, is not waiting for splits. -/
theorem stirs_addSplits (splits : List Split) (hs : f.Stirs) :
    ((Request.addSplits splits).enact f).1.Stirs := by
  simp only [Request.enact]
  split
  · exact hs
  · exact ⟨hs.1, fun hwaits => Bool.noConfusion hwaits.2.2.1⟩

theorem stirs_stop (mode : StopMode) (hs : f.Stirs) : ((Request.stop mode).enact f).1.Stirs := by
  simp only [Request.enact]
  split
  · exact hs
  · exact ⟨hs.1, fun hwaits => Option.some_ne_none _ hwaits.1⟩

/-- Whoever has more to do in its slot stirs. -/
theorem stirs_of_unfinished (hf : f.OnDuty false d) (h : Supervisor.isFinished f = false) :
    f.Stirs := by
  have hstop : f.duty.stop = none := hf.stop.resolve_right fun hdrains => nomatch hdrains.2
  refine ⟨fun hphase => ?_, fun ⟨_, hassigned, hidle, _⟩ => ?_⟩
  · have hwinding := hf.winding (hphase ▸ rfl)
    exact nomatch hstop.symm.trans hwinding
  · have hfetching : f.duty.fetching = true := by
      rw [← Bool.not_eq_false]
      intro hnone
      simp [Supervisor.isFinished, isIdle, hidle, hnone, hf.unpublished] at h
    exact hf.reading hfetching hassigned

/-- Whoever was told to drain, and has not said that it waits for that, stirs. -/
theorem stirs_of_undrained (hf : f.OnDuty draining d) (hstop : f.duty.stop ≠ none)
    (h : Supervisor.isDrained f = false) : f.Stirs := by
  refine ⟨fun hphase => ?_, fun hwaits => hstop hwaits.1⟩
  have hawaiting := hf.awaiting
  simp only [Supervisor.isDrained, Bool.or_eq_false_iff] at h
  rw [h.1, hphase] at hawaiting
  cases hawaiting

theorem book_of_isEmpty {batch : SplitBatch Record} (h : batch.isEmpty = true) (duty : Duty) :
    duty.book batch.finished = { duty with fetching := false } := by
  obtain ⟨-, hnone⟩ : batch.recordCount = 0 ∧ batch.finished.toList = [] := by
    simpa [SplitBatch.isEmpty, IdSet.isEmpty] using h
  simp [Duty.book, IdSet.contains, hnone]

/-! ### Strides -/

open Supervisor (Stride)

section Strides

variable [SplitReader ρ] {handed : List Nat} {bell : Nat}

theorem onDuty_stride (hf : f.OnDuty draining d) (hopen : d.queue.closed = false)
    (hcalm : f.id ∉ d.queue.wokenProducers) (h : Stride disturbed f d g e) :
    g.OnDuty draining e := by
  cases h with
  | advance h => exact onDuty_advance hf hopen hcalm h
  | vanish hphase =>
      have hfailed := hf.departing (hphase ▸ rfl)
      have hawaiting := hf.awaiting
      rw [hphase] at hawaiting
      exact
        { hf with
          coherent := Supervisor.coherent_vanish hf.coherent hphase
          plain := rfl
          slack := nofun
          winding := nofun
          departing := fun _ => by simp [hfailed]
          awaiting := hawaiting }

theorem isDrained_stride (hd : Supervisor.isDrained f = true) (h : Stride disturbed f d g e) :
    Supervisor.isDrained g = true := by
  cases h with
  | advance h => exact isDrained_advance hd h
  | vanish => exact hd

/-- A stride tries to put one batch into the queue at most, and may ring the bell. -/
theorem queue_stride (h : Stride disturbed f d g e) :
    e.queue = d.queue ∨ (∃ batch, e.queue = (d.queue.put f.id f.id batch).2) ∨
      e.queue = d.queue.notifyAvailable := by
  cases h with
  | vanish => exact .inl rfl
  | advance h => exact queue_advance h

theorem inOrder_stride (hq : d.queue.InOrder handed) (h : Stride disturbed f d g e) :
    e.queue.InOrder handed := by
  obtain hsame | ⟨batch, hput⟩ | hrings := queue_stride h
  · rwa [hsame]
  · rw [hput]
    exact HandoffQueue.inOrder_put hq f.id f.id batch
  · rw [hrings]
    exact HandoffQueue.inOrder_notifyAvailable hq

theorem wokenProducers_stride (h : Stride disturbed f d g e) :
    e.queue.wokenProducers ⊆ d.queue.wokenProducers := by
  obtain hsame | ⟨batch, hput⟩ | hrings := queue_stride h
  · rw [hsame]
    exact List.Subset.refl _
  · rw [hput]
    exact HandoffQueue.wokenProducers_put_subset f.id f.id batch d.queue
  · rw [hrings]
    exact List.Subset.refl _

/-- A bell that was handed out and has rung does not fall silent. -/
theorem silent_before_stride (hq : d.queue.InOrder handed) (hmem : bell ∈ handed)
    (hsilent : e.queue.hasRung bell = false) (h : Stride disturbed f d g e) :
    d.queue.hasRung bell = false := by
  rw [← Bool.not_eq_true] at hsilent ⊢
  refine fun hrung => hsilent ?_
  obtain hsame | ⟨batch, hput⟩ | hrings := queue_stride h
  · rwa [hsame]
  · rw [hput]
    exact HandoffQueue.hasRung_put_of_hasRung hrung f.id f.id batch
  · rw [hrings]
    exact Belfry.hasRung_ringBell_of_sound hq.bells hmem

/-- Failures are reported behind those from before. -/
theorem failures_stride (h : Stride disturbed f d g e) : d.failures <+: e.failures := by
  cases h with
  | vanish => exact List.prefix_append _ _
  | advance h =>
      cases h with
      | report => exact List.prefix_append _ _
      | _ => exact List.prefix_rfl

/-- As long as a bell that was handed out stays silent, and no failure is reported, a fetcher that
stirs goes on stirring: if it puts a batch or has something to tell, the bell rings. -/
theorem stirs_stride (hf : f.OnDuty draining d) (hq : d.queue.InOrder handed)
    (hmem : bell ∈ handed) (hsilent : e.queue.hasRung bell = false) (hfine : e.failures = [])
    (hs : f.Stirs) (h : Stride disturbed f d g e) : g.Stirs := by
  obtain ⟨hempty, hroom⟩ :=
    HandoffQueue.empty_of_silent hq hmem (silent_before_stride hq hmem hsilent h)
  have hnone : d.failures = [] := List.prefix_nil.1 (hfine ▸ failures_stride h)
  have hrings : d.queue.notifyAvailable.hasRung bell ≠ false := by
    simp [HandoffQueue.notifyAvailable, Belfry.hasRung_ringBell_of_sound hq.bells hmem]
  cases h with
  | vanish hphase => exact absurd hnone (hf.departing (hphase ▸ rfl))
  | advance h =>
      constructor
      · cases h with
        | toll => exact absurd hsilent hrings
        | doze | flush | flushAgain | flushShut | flushDoze => exact hs.1
        | _ => exact Phase.noConfusion
      · rintro ⟨hstop, hassigned, hidle, hcalling⟩
        refine hs.2 ?_
        cases h with
        | @publish batch _ _ _ hopen =>
            have hput := Belfry.hasRung_put_of_empty hq.bells hq.room hempty f.id f.id batch hmem
            simp only [HandoffQueue.put, hopen, hroom] at hput
            exact absurd hsilent (by simpa using hput)
        | ring => exact absurd hsilent hrings
        | shutOut _ _ hclosed => exact absurd hq.isOpen (by simp [hclosed])
        | defer _ _ _ hfull | doze _ _ _ hfull => exact absurd hroom (by simp [hfull])
        | leave hphase => exact absurd hnone (hf.departing (hphase ▸ rfl))
        | stop => cases hstop
        | retry | book | turnIdle => cases hcalling
        | bookNothingLast hphase hnothing | bookNothing hphase hnothing =>
            rw [book_of_isEmpty hnothing] at hstop hassigned hidle
            exact ⟨hstop, hassigned, hidle, hphase ▸ rfl⟩
        | flush | flushAgain | flushShut | flushDoze =>
            exact ⟨hstop, hassigned, hidle, hcalling⟩
        | _ =>
            rename f.phase = _ => hphase
            exact ⟨hstop, hassigned, hidle, hphase ▸ rfl⟩

/-- A thread on duty that was not stopped by a panic or a failure has a next step, unless it lies at
its latch, naps or sleeps in a put. -/
theorem canStep (hf : f.OnDuty draining d) (hcalm : f.phase.isPanic = false)
    (hfine : d.failures = []) (hlatch : f.phase ≠ .latched)
    (hup : f.phase = .parked → f.napping = false) (hawake : f.isAsleepInPut d = false) :
    (Supervisor.stepFetcher? disturbed f d).isSome = true := by
  have hplain := hf.plain
  have hdeparting := hf.departing
  cases hphase : f.phase with
  | resting | stopping => simp [hphase, Phase.isPlain] at hplain
  | panicked _ => simp [hphase, Phase.isPanic] at hcalm
  | latched => exact absurd hphase hlatch
  | closing | leaving _ | terminating _ | ended _ | gone =>
      exact absurd hfine (hdeparting (hphase ▸ rfl))
  | handing changes =>
      cases changes <;> simp [Supervisor.stepFetcher?, step?, hphase, hf.leftover]
  | parked => simp [Supervisor.stepFetcher?, step?, hphase, hup hphase]
  | cycled _ => simp [Supervisor.stepFetcher?, step?, hphase, hf.looping]
  | publishing _ _ | flushing => simp [Supervisor.stepFetcher?, step?, hphase, hawake]
  | collecting | checking | weighing _ | booking _ | noting _ _ | parking | finishing _ =>
      simp only [Supervisor.stepFetcher?, step?, hphase]
      repeat' split
      all_goals rfl
  | _ => simp [Supervisor.stepFetcher?, step?, hphase]

end Strides

end Fetcher

end SplitFeed
