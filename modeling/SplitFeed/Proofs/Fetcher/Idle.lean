/-
# When a fetcher that says it is idle has nothing to do

A fetcher is honest if it calls itself idle only with no splits assigned, outside of a fetch, and
without a batch to be published.  Whether the list of splits is empty is looked up by the thread
some steps before it raises the idle flag, and it does not look again.  Splits that are taken on in
between go unnoticed: the flag is raised over their heads.  Such a step of the thread is hasty, and
nothing else makes a fetcher dishonest.
-/
import SplitFeed.Backend
import SplitFeed.Proofs.Fetcher.Station

namespace SplitFeed

/-- Whether the thread is about to raise the idle flag. -/
def Phase.isIdling : Phase → Bool
  | idling _ => true
  | _ => false

namespace Fetcher

variable {ρ : Type}

/-- The batch that the thread still has to publish: the one it is blocked with, or the one that
was left over. -/
def held (f : Fetcher ρ) : Option (SplitBatch Record) :=
  match f.phase with
  | .publishing batch _ => some batch
  | _ => f.leftover

/-- Batches without news are never held. -/
theorem full_advance [SplitReader ρ] {disturbed : List Bool} {f g : Fetcher ρ} {d e : Depot}
    (hfull : ∀ batch ∈ f.held, batch.isEmpty = false) (hc : f.Coherent)
    (h : Advance disturbed f d g e) : ∀ batch ∈ g.held, batch.isEmpty = false := by
  have hempty := hc.emptyHanded
  cases h <;> simp_all [held, Phase.isEmptyHanded, Phase.isFetch]

/-- A fetcher that is not closed calls itself idle only when it has no splits, is not fetching and
holds no batch. -/
def Honest (f : Fetcher ρ) : Prop :=
  f.duty.closed = false → f.isIdle = true →
    f.duty.assigned = [] ∧ f.phase.isFetch = false ∧ f.held = none

/-- Where the idle flag of a fetcher is up, the fetcher has nothing to do. -/
def Quiet (f : Fetcher ρ) : Prop :=
  f.duty.closed = false → f.duty.idle = true →
    f.duty.assigned = [] ∧ f.phase.isBusy = false ∧ f.leftover = none

theorem honest_of_quiet {f : Fetcher ρ} (hf : f.Quiet) : f.Honest := by
  intro hopen hidle
  simp only [isIdle, Bool.and_eq_true] at hidle
  obtain ⟨hassigned, hbusy, hleft⟩ := hf hopen hidle.1.1
  refine ⟨hassigned, ?_, ?_⟩
  · cases hphase : f.phase <;> simp_all [Phase.isBusy, Phase.isFetch]
  · cases hphase : f.phase <;> simp_all [Phase.isBusy, held]

/-- The thread is about to raise the idle flag, whatever is assigned by now. -/
def IsHasty (f : Fetcher ρ) : Prop :=
  (∃ outcome, f.phase = .idling outcome) ∧ f.duty.assigned ≠ []

instance (f : Fetcher ρ) : Decidable f.IsHasty :=
  decidable_of_iff (f.phase.isIdling = true ∧ f.duty.assigned ≠ []) (by
    unfold IsHasty
    cases f.phase <;> simp [Phase.isIdling])

/-- Only a hasty step ends the quiet. -/
theorem quiet_advance [SplitReader ρ] {disturbed : List Bool} {f g : Fetcher ρ} {d e : Depot}
    (hf : f.Quiet) (hc : f.Coherent) (hhasty : ¬ f.IsHasty)
    (h : Advance disturbed f d g e) : g.Quiet := by
  have hempty := hc.emptyHanded
  unfold Quiet at *
  cases h with
  | turnIdle hphase hidle =>
      intro _ _
      refine ⟨by_contra fun hne => hhasty ⟨⟨_, hphase⟩, hne⟩, rfl, hempty ?_⟩
      simp [hphase, Phase.isEmptyHanded]
  | leave hphase =>
      intro hopen
      simp [Duty.settle] at hopen
  | findSplits hphase hassigned =>
      intro hopen hidle
      exact absurd (hf hopen hidle).1 hassigned
  | retry hphase hleft =>
      intro hopen hidle
      simp [(hf hopen hidle).2.2] at hleft
  | bookNothingLast hphase _ hlast | bookNothing hphase _ hlast | book hphase _ =>
      intro hopen hidle
      have := (hf hopen hidle).2.1
      simp [hphase, Phase.isBusy, Phase.isFetch] at this
  | _ => simp_all [Phase.isBusy, Phase.isFetch]

theorem quiet_enact {f : Fetcher ρ} (request : Request) (hf : f.Quiet) :
    (request.enact f).1.Quiet := by
  cases request with
  | addSplits splits =>
      simp only [Request.enact]
      split
      · exact hf
      · intro _ hidle
        simp [Duty.assign] at hidle
  | removeSplits ids =>
      intro hopen hidle
      obtain ⟨hassigned, hbusy, hleft⟩ := hf hopen hidle
      refine ⟨?_, hbusy, hleft⟩
      simp [Request.enact, Duty.unassign, hassigned]
  | stop mode =>
      simp only [Request.enact]
      split <;> exact hf
  | wakeUp _ | pause | resume | releaseLatch => exact hf

end Fetcher

namespace Station

variable {ρ : Type} [SplitReader ρ]

/-- A move that raises the idle flag although splits are assigned. -/
def Hasty (station : Station ρ) : Move → Prop
  | .thread _ => station.fetcher.IsHasty
  | _ => False

/-- Flags that agree with the thread, and a raised idle flag only when there is nothing to do. -/
structure Settled (station : Station ρ) : Prop where
  coherent : station.fetcher.Coherent
  quiet : station.fetcher.Quiet

omit [SplitReader ρ] in
theorem settled_fresh (id : Nat) (reader : ρ) (depot : Depot) :
    (fresh id reader depot).Settled where
  coherent := Fetcher.coherent_new id reader
  quiet _ _ := ⟨rfl, rfl, rfl⟩

theorem settled_step {move : Move} {station next : Station ρ} (hs : station.Settled)
    (hhasty : ¬ station.Hasty move) (h : station.step move = some next) : next.Settled := by
  refine ⟨coherent_step hs.coherent h, ?_⟩
  have hquiet := hs.quiet
  cases move with
  | cycle | loop =>
      simp only [step, Option.ite_none_right_eq_some, Option.some.injEq] at h
      obtain ⟨-, rfl⟩ := h
      intro hopen hidle
      exact ⟨(hquiet hopen hidle).1, rfl, (hquiet hopen hidle).2.2⟩
  | thread disturbed => exact Fetcher.quiet_advance hquiet hs.coherent hhasty (step_thread h).1
  | ask request =>
      obtain rfl := Option.some.inj h
      exact Fetcher.quiet_enact request hquiet
  | nudge nudge =>
      obtain rfl := Option.some.inj h
      cases nudge <;> exact hquiet
  | timeOut | queue _ | files _ =>
      obtain rfl := Option.some.inj h
      exact hquiet

omit [SplitReader ρ] in
/-- What a hasty step leaves calls itself idle over the heads of its splits. -/
theorem not_honest_of_isHasty {f g : Fetcher ρ} (hc : f.Coherent) (hhasty : f.IsHasty)
    (hduty : g.duty = { f.duty with idle := true }) : ¬ g.Honest := by
  obtain ⟨⟨outcome, hphase⟩, hassigned⟩ := hhasty
  have hopen : f.duty.closed = false := by
    rw [← Bool.not_eq_true]
    intro hclosed
    simpa [hphase, Phase.isSettled] using hc.closed hclosed
  have hfetching : f.duty.fetching = false := by
    apply hc.notFetching <;> simp [hphase, Phase.isFetch, Phase.isPanic]
  have hunpublished : f.duty.unpublished = false := by
    rw [hc.noted (by simp [hphase, Phase.isNoted]),
      hc.emptyHanded (by simp [hphase, Phase.isEmptyHanded])]
    rfl
  intro hhonest
  simp only [Fetcher.Honest, Fetcher.isIdle, hduty, hfetching, hunpublished] at hhonest
  exact hassigned (hhonest hopen rfl).1

/-- A hasty step can be made, and what it leaves is not honest. -/
theorem exists_not_honest_of_hasty {move : Move} {station : Station ρ}
    (hc : station.fetcher.Coherent) (hhasty : station.Hasty move) :
    ∃ next, station.step move = some next ∧ ¬ next.fetcher.Honest := by
  cases move with
  | thread disturbed =>
      obtain ⟨outcome, hphase⟩ := hhasty.1
      refine ⟨_, by simp [step, Fetcher.step?, hphase]; rfl, ?_⟩
      exact not_honest_of_isHasty hc hhasty rfl
  | _ => exact hhasty.elim

/-- Without hasty steps a fetcher is honest all along. -/
theorem always_honest_of_never_hasty (id : Nat) (reader : ρ) (depot : Depot) {moves : List Move}
    (hnever : Course.Never step Hasty moves (fresh id reader depot)) :
    Course.Always step (fun station => station.fetcher.Honest) moves (fresh id reader depot) :=
  Course.always_of_never Settled settled_step (fun hs => Fetcher.honest_of_quiet hs.quiet) hnever
    (settled_fresh id reader depot)

/-- A fetcher that is honest all along takes no hasty step. -/
theorem never_hasty_of_always_honest {moves : List Move} {station : Station ρ}
    (hc : station.fetcher.Coherent)
    (halways : Course.Always step (fun station => station.fetcher.Honest) moves station) :
    Course.Never step Hasty moves station := by
  induction moves generalizing station with
  | nil => trivial
  | cons move moves ih =>
      refine ⟨fun hhasty => ?_, fun next hnext =>
        ih (coherent_step hc hnext) (halways.2 next hnext)⟩
      obtain ⟨next, hnext, hdishonest⟩ := exists_not_honest_of_hasty hc hhasty
      have hhonest := Course.first_of_always (halways.2 next hnext)
      exact hdishonest hhonest

/-- Idle means idle exactly if the thread is never hasty: whatever is asked of a fetcher, whatever
others do with the queue, and wherever in a cycle it happens. -/
theorem idle_means_idle_iff_never_hasty (id : Nat) (reader : ρ) (depot : Depot)
    (moves : List Move) :
    Course.Always step (fun station => station.fetcher.Honest) moves (fresh id reader depot) ↔
      Course.Never step Hasty moves (fresh id reader depot) :=
  ⟨never_hasty_of_always_honest (Fetcher.coherent_new id reader),
    always_honest_of_never_hasty id reader depot⟩

/-- A split taken on between the thread's look at an empty list and its raising the flag: the
fetcher says it is idle with that split on its list. -/
theorem idle_with_a_split_taken_on :
    ¬ Course.Always step (fun station => station.fetcher.Honest)
      [.cycle, .thread [], .thread [], .thread [], .thread [],
        .ask (.addSplits [.range ⟨"late", 0, 1⟩]), .thread []]
      (fresh 0 (Backend.ranges (.withLimits 1 0)) { queue := .ofCapacity 1 }) := by
  intro halways
  have hlast := (((((((halways.2 _ rfl).2 _ rfl).2 _ rfl).2 _ rfl).2 _ rfl).2 _ rfl).2 _ rfl)
  exact List.cons_ne_nil _ _ (hlast rfl rfl).1

/-! ### Where hasty steps come from -/

end Station

namespace Phase

/-- Whether the thread has found its list of splits empty and goes on to raise the idle flag. -/
def isEnding : Phase → Bool
  | publishing _ last => last
  | noting outcome last => last && outcome ≠ .publishDeferred
  | idling _ => true
  | _ => false

end Phase

namespace Fetcher

variable {ρ : Type}

/-- What the thread last saw of its list of splits is still true. -/
def Current (f : Fetcher ρ) : Prop :=
  f.phase.isEnding = true → f.duty.assigned = []

theorem current_advance [SplitReader ρ] {disturbed : List Bool} {f g : Fetcher ρ} {d e : Depot}
    (hf : f.Current) (h : Advance disturbed f d g e) : g.Current := by
  unfold Current at *
  cases h with
  | book hphase hempty => simp [Phase.isEnding, List.isEmpty_iff]
  | note hphase hlast => simp [Phase.isEnding]
  | _ => simp_all [Phase.isEnding]

end Fetcher

namespace Station

variable {ρ : Type} [SplitReader ρ]

/-- An addition that is accepted while the thread goes on to raise the idle flag. -/
def LateAddition (station : Station ρ) : Move → Prop
  | .ask (.addSplits splits) =>
    station.fetcher.phase.isEnding = true ∧ station.fetcher.duty.refuses = false ∧
      Duty.newcomers station.fetcher.duty.assigned splits ≠ []
  | _ => False

theorem current_step {move : Move} {station next : Station ρ} (hs : station.fetcher.Current)
    (hlate : ¬ station.LateAddition move) (h : station.step move = some next) :
    next.fetcher.Current := by
  cases move with
  | cycle | loop =>
      simp only [step, Option.ite_none_right_eq_some, Option.some.injEq] at h
      obtain ⟨-, rfl⟩ := h
      intro hending
      cases hending
  | thread disturbed => exact Fetcher.current_advance hs (step_thread h).1
  | ask request =>
      obtain rfl := Option.some.inj h
      cases request with
      | addSplits splits =>
          simp only [LateAddition, not_and, not_not] at hlate
          simp only [Request.enact]
          split
          · exact hs
          · next htaken =>
              intro hending
              simp only [Bool.or_eq_true, not_or, Bool.not_eq_true, List.isEmpty_iff] at htaken
              exact absurd (hlate hending htaken.1) (by simpa using htaken.2)
      | removeSplits ids =>
          intro hending
          have hassigned := hs hending
          simp only [Request.enact, Duty.unassign, hassigned, List.filter_nil]
      | stop mode =>
          simp only [Request.enact]
          split <;> exact hs
      | wakeUp _ | pause | resume | releaseLatch => exact hs
  | nudge nudge =>
      obtain rfl := Option.some.inj h
      cases nudge <;> exact hs
  | timeOut | queue _ | files _ =>
      obtain rfl := Option.some.inj h
      exact hs

/-- Additions that do not come between the look at the list and the flag cannot make a fetcher
dishonest. -/
theorem always_honest_of_never_lateAddition (id : Nat) (reader : ρ) (depot : Depot)
    {moves : List Move} (hnever : Course.Never step LateAddition moves (fresh id reader depot)) :
    Course.Always step (fun station => station.fetcher.Honest) moves (fresh id reader depot) := by
  apply always_honest_of_never_hasty
  refine Course.never_of_never (fun station => station.fetcher.Current) current_step ?_ hnever ?_
  · intro move station hcurrent hhasty
    cases move with
    | thread disturbed =>
        obtain ⟨⟨outcome, hphase⟩, hassigned⟩ := hhasty
        exact hassigned (hcurrent (by simp [hphase, Phase.isEnding]))
    | _ => exact hhasty
  · intro hending
    cases hending

end Station

end SplitFeed
