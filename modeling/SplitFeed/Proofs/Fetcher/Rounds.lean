/-
# What a loop does with its reader

A loop deals with its reader in rounds, one for each cycle: it hands over changes, fetches at most
once, and gives back at most what it has just fetched.  A round in which a call fails is the last
one.  When the loop winds down, the reader is closed, once and for all.

A round that failed is reported by the loop, and a close that failed is what the loop answers.
-/
import SplitFeed.Backend
import SplitFeed.Proofs.Fetcher.Diary

namespace SplitFeed

/-! ### Rounds -/

/-- How a round ends, once its changes were handed over. -/
inductive Ending where
  /-- Nothing was fetched. -/
  | nothing
  /-- One more change was handed over, and refused. -/
  | refused (change : SplitsChange Split) (cause : Failure) (recycled : List Nat)
  /-- The fetch failed. -/
  | lost (cause : Failure)
  | brought (batch : SplitBatch Record)
  /-- The batch of the fetch was given back. -/
  | givenBack (batch : SplitBatch Record) (result : Called Unit) (recycled : List Nat)

namespace Ending

/-- The calls that end a round. -/
def calls : Ending → List ReaderCall
  | nothing => []
  | refused change cause recycled => [.change change (.failed cause) recycled]
  | lost cause => [.fetch (.failed cause)]
  | brought batch => [.fetch (.returned batch)]
  | givenBack batch result recycled =>
    [.fetch (.returned batch), .rewind batch result recycled]

/-- What a fetcher reports of a round that ends like this. -/
def failure (id : Nat) : Ending → Option Failure
  | refused _ cause _ => some (.changesNotHanded id cause)
  | lost cause => some (.fetchFailed id cause)
  | _ => none

end Ending

/-- The dealings of one cycle with the reader: changes that were taken, with the tickets that fell
due, and what came then. -/
structure Round where
  changes : List (SplitsChange Split × List Nat) := []
  ending : Ending := .nothing

namespace Round

/-- The calls of a round. -/
def calls (round : Round) : List ReaderCall :=
  round.changes.map (fun taken => .change taken.1 (.returned ()) taken.2) ++ round.ending.calls

/-- What a fetcher reports of a round, if a call failed in it. -/
def failure (id : Nat) (round : Round) : Option Failure :=
  round.ending.failure id

end Round

/-- What a loop answers after it has closed its reader. -/
def Called.closeFailure (id : Nat) : Called Unit → Option Failure
  | failed cause => some (.readerNotClosed id cause)
  | _ => none

/-! ### Where a loop stands in its dealings -/

/-- The calls of some rounds, and of the close if it was made. -/
def dealings (rounds : List Round) (closing : Option (Called Unit)) : List ReaderCall :=
  rounds.flatMap Round.calls ++ closing.toList.map .close

namespace Phase

/-- Whether the thread has not heard yet how the round under way ends, or knows of a failure that
is not reported yet. -/
def Holds (id : Nat) (round : Round) : Phase → Prop
  | handing _ | checking | fetching => round.ending = .nothing
  | fetchLost cause => round.ending = .lost cause
  | weighing batch | rewinding batch => round.ending = .brought batch
  | cycled (.error failure) => round.failure id = some failure
  | finishing true => round.failure id ≠ none
  | closing | leaving _ | terminating _ | ended _ => True
  | _ => round.failure id = none

/-- Whether the thread has left the loop. -/
def hasLeft : Phase → Bool
  | finishing _ | flushing | flushed | announcing | tolling | latched | closing | leaving _
  | terminating _ | ended _ => true
  | _ => false

/-- What became of the close. -/
def Closes (id : Nat) (closing : Option (Called Unit)) : Phase → Prop
  | leaving failure | terminating failure | ended failure =>
    ∃ result, closing = some result ∧ failure = result.closeFailure id
  | _ => closing = none

/-- Nothing is closed before the loop was left. -/
theorem closes_of_stays {id : Nat} {phase : Phase} {closing : Option (Called Unit)}
    (h : phase.hasLeft = false) : phase.Closes id closing ↔ closing = none := by
  cases phase <;> simp_all [hasLeft, Closes]

end Phase

/-- What a thread has reported of a round. -/
def Round.reported (id : Nat) (round : Round) (phase : Phase) : List Failure :=
  if phase.hasLeft then (round.failure id).toList else []

namespace Fetcher

variable {ρ : Type} [SplitReader ρ] {disturbed : List Bool} {f g : Fetcher ρ} {d e : Depot}
  {id : Nat} {round : Round}

/-- A step without a call learns nothing new about the round. -/
theorem holds_advance (h : Advance disturbed f d g e) (hsilent : f.calls disturbed d = [])
    (hhanding : ∀ changes, g.phase ≠ .handing changes) (hholds : f.phase.Holds f.id round) :
    g.phase.Holds f.id round := by
  cases h <;>
    simp_all [Phase.Holds, calls, Round.failure, Ending.failure]

theorem closes_advance {closing : Option (Called Unit)} (h : Advance disturbed f d g e)
    (hsilent : f.calls disturbed d = []) (hcloses : f.phase.Closes id closing) :
    g.phase.Closes id closing := by
  cases h <;> simp_all [Phase.Closes, calls]

/-- A failure is reported when the loop is left because of it, and not again. -/
theorem reported_advance {failures : List Failure} (h : Advance disturbed f d g e)
    (hholds : f.phase.Holds id round)
    (hcalm : g.phase.isPanic = false)
    (hreported : d.failures = failures ++ round.reported id f.phase) :
    e.failures = failures ++ round.reported id g.phase := by
  cases h with
  | closePanic => cases hcalm
  | _ => simp_all [Phase.Holds, Round.reported, Phase.hasLeft, discard]

/-- A thread whose reader panicked makes no more steps. -/
theorem calm_of_advance (h : Advance disturbed f d g e) : f.phase.isPanic = false := by
  cases h <;> simp_all [Phase.isPanic]

/-- A thread whose loop is over makes no more steps. -/
theorem not_ended_of_advance {failure : Option Failure} (h : Advance disturbed f d g e) :
    f.phase ≠ .ended failure := by
  cases h <;> simp_all

omit [SplitReader ρ] in
theorem calm_of_mayBegin (hmay : Station.mayBegin f = true) :
    f.phase.isPanic = false ∧ f.looping = false := by
  obtain ⟨hphase | ⟨result, hphase⟩, hloop⟩ := Station.phase_of_mayBegin hmay <;>
    exact ⟨hphase ▸ rfl, hloop⟩

/-! ### How a loop ends -/

/-- The books of a fetcher whose loop is over. -/
structure Departed (f : Fetcher ρ) : Prop where
  closed : f.duty.closed = true
  notFetching : f.duty.fetching = false
  notAwaiting : f.duty.awaitingDrain = false
  published : f.duty.unpublished = false
  leftover : f.leftover = none
  terminated : f.terminated.done = true

/-- The books are settled before the sign of termination is given. -/
structure Parts (f : Fetcher ρ) : Prop where
  settled : f.phase.isSettled = true → f.duty.closed = true ∧ f.duty.awaitingDrain = false
  ended : ∀ failure, f.phase = .ended failure → f.terminated.done = true

theorem parts_advance (hf : f.Parts) (h : Advance disturbed f d g e) : g.Parts := by
  obtain ⟨hsettled, hended⟩ := hf
  cases h <;> constructor <;>
    simp_all [Phase.isSettled, Duty.settle, OneShot.done_complete]

omit [SplitReader ρ] in
theorem departed_of_ended {failure : Option Failure} (hc : f.Coherent) (hf : f.Parts)
    (hphase : f.phase = .ended failure) : f.Departed := by
  have hsettled := hf.settled (hphase ▸ rfl)
  have hleft : f.leftover = none := hc.emptyHanded (hphase ▸ rfl)
  exact
    { closed := hsettled.1
      notFetching := hc.notFetching (hphase ▸ rfl) (hphase ▸ rfl)
      notAwaiting := hsettled.2
      published := by simpa [hleft] using hc.noted (hphase ▸ rfl)
      leftover := hleft
      terminated := hf.ended failure hphase }

/-- A batch that is left over would not have to wait for a place in the queue. -/
def CanFlush (f : Fetcher ρ) (d : Depot) : Prop :=
  f.isAsleepInPut d = false ∧
    (f.leftover = none ∨ d.queue.closed = true ∨ d.queue.hasRoom = true)

/-- The thread winds down, and waits neither for the queue nor for the latch. -/
def Unhindered (f : Fetcher ρ) (d : Depot) : Prop :=
  match f.phase with
  | .finishing false =>
    f.duty.stop = some .draining → f.CanFlush d ∧ f.drainLatch.done = true
  | .flushing => f.CanFlush d ∧ f.drainLatch.done = true
  | .flushed | .announcing | .tolling | .latched => f.drainLatch.done = true
  | .finishing true | .closing | .leaving _ | .terminating _ | .ended _ => True
  | _ => False

/-- How many steps a thread that winds down has to go at most. -/
def toGo (f : Fetcher ρ) : Nat :=
  match f.phase with
  | .finishing _ => 10
  | .flushing => if f.leftover.isSome then 9 else 8
  | .flushed => 7
  | .announcing => 6
  | .tolling => 5
  | .latched => 4
  | .closing => 3
  | .leaving _ => 2
  | .terminating _ => 1
  | _ => 0

theorem unhindered_advance (hf : f.Unhindered d) (h : Advance disturbed f d g e) :
    (g.Unhindered e ∨ g.phase.isPanic = true) ∧ g.toGo < f.toGo := by
  cases h with
  | drain hphase hstop =>
      simp only [Unhindered, hphase, CanFlush, toGo, Phase.isPanic] at hf ⊢
      refine ⟨.inl (hf hstop), ?_⟩
      split <;> omega
  | _ =>
      simp_all [Unhindered, CanFlush, toGo, Phase.isPanic, isAsleepInPut, discard,
        HandoffQueue.asleepInPut_accept]

/-- A thread that nothing stands in the way of can make a step until its loop is over. -/
theorem exists_step_of_unhindered (disturbed : List Bool) (hf : f.Unhindered d)
    (hgoes : f.toGo ≠ 0) : ∃ pair, f.step? disturbed d = some pair := by
  rw [← Option.isSome_iff_exists]
  cases hphase : f.phase with
  | finishing failed =>
      simp only [step?, hphase]
      split <;> rfl
  | _ => simp_all [Unhindered, CanFlush, toGo, step?]

omit [SplitReader ρ] in
theorem exists_ended_of_toGo (hf : f.Unhindered d) (hgone : f.toGo = 0) :
    ∃ failure, f.phase = .ended failure := by
  cases hphase : f.phase with
  | ended failure => exact ⟨failure, rfl⟩
  | flushing =>
      simp only [toGo, hphase] at hgone
      split at hgone <;> cases hgone
  | _ => simp_all [Unhindered, toGo]

omit [SplitReader ρ] in
theorem toGo_le (f : Fetcher ρ) : f.toGo ≤ 10 := by
  unfold toGo
  split
  case h_2 => split <;> decide
  all_goals decide

end Fetcher

namespace Station

variable {ρ : Type} [SplitReader ρ]

/-- A loop that made some calls has dealt with its reader in rounds, and has reported the failures
of those that are over; `failures` were reported before. -/
structure Deals (failures : List Failure) (calls : List ReaderCall) (station : Station ρ)
    (rounds : List Round) (round : Round) (closing : Option (Called Unit)) : Prop where
  looping : station.fetcher.looping = true
  calls : calls = dealings (rounds ++ [round]) closing
  sound : ∀ earlier ∈ rounds, earlier.failure station.fetcher.id = none
  holds : station.fetcher.phase.Holds station.fetcher.id round
  closes : station.fetcher.phase.Closes station.fetcher.id closing
  reported : station.depot.failures =
    failures ++ round.reported station.fetcher.id station.fetcher.phase

variable {failures : List Failure} {sofar : List ReaderCall} {station next last : Station ρ}
  {rounds : List Round} {round : Round} {closing : Option (Called Unit)} {disturbed : List Bool}

/-- A step without a call leaves the loop where it stands in its dealings. -/
theorem deals_silent (hs : station.Deals failures sofar rounds round closing)
    (h : Fetcher.Advance disturbed station.fetcher station.depot next.fetcher next.depot)
    (hsilent : station.fetcher.calls disturbed station.depot = [])
    (hhanding : ∀ changes, next.fetcher.phase ≠ .handing changes)
    (hcalm : next.fetcher.phase.isPanic = false) :
    next.Deals failures sofar rounds round closing := by
  have hid := (Fetcher.advanced h).id
  exact
    { looping := (Fetcher.advanced h).looping.trans hs.looping
      calls := hs.calls
      sound := hid ▸ hs.sound
      holds := hid ▸ Fetcher.holds_advance h hsilent hhanding hs.holds
      closes := hid ▸ Fetcher.closes_advance h hsilent hs.closes
      reported := hid ▸ Fetcher.reported_advance h hs.holds hcalm hs.reported }

/-- A call before the close goes on with the round under way. -/
theorem deals_call {after : Round}
    (hs : station.Deals failures sofar rounds round closing)
    (h : Fetcher.Advance disturbed station.fetcher station.depot next.fetcher next.depot)
    (hafter : after.calls = round.calls ++ station.fetcher.calls disturbed station.depot)
    (hfailures : next.depot.failures = station.depot.failures)
    (hleft : station.fetcher.phase.hasLeft = false) (hleft' : next.fetcher.phase.hasLeft = false)
    (hholds : next.fetcher.phase.Holds next.fetcher.id after) :
    next.Deals failures (sofar ++ station.fetcher.calls disturbed station.depot) rounds after
      none := by
  have hid := (Fetcher.advanced h).id
  have hreported := hs.reported
  simp only [Round.reported, hleft] at hreported
  obtain rfl := (Phase.closes_of_stays hleft).1 hs.closes
  exact
    { looping := (Fetcher.advanced h).looping.trans hs.looping
      calls := by simp [hs.calls, dealings, hafter]
      sound := hid ▸ hs.sound
      holds := hholds
      closes := (Phase.closes_of_stays hleft').2 rfl
      reported := by simpa [hfailures, Round.reported, hleft'] using hreported }

/-- The close is the last call. -/
theorem deals_close {result : Called Unit}
    (hs : station.Deals failures sofar rounds round closing)
    (h : Fetcher.Advance disturbed station.fetcher station.depot next.fetcher next.depot)
    (hphase : station.fetcher.phase = .closing)
    (hcall : station.fetcher.calls disturbed station.depot = [.close result])
    (hnext : next.fetcher.phase = .leaving (result.closeFailure station.fetcher.id))
    (hfailures : next.depot.failures = station.depot.failures) :
    next.Deals failures (sofar ++ station.fetcher.calls disturbed station.depot) rounds round
      (some result) := by
  have hid := (Fetcher.advanced h).id
  have hreported := hs.reported
  obtain rfl : closing = none := by simpa [hphase, Phase.Closes] using hs.closes
  exact
    { looping := (Fetcher.advanced h).looping.trans hs.looping
      calls := by simp [hs.calls, dealings, hcall]
      sound := hid ▸ hs.sound
      holds := by simp [hnext, Phase.Holds]
      closes := by rw [hnext, hid]; exact ⟨result, rfl, rfl⟩
      reported := by
        simpa [hfailures, Round.reported, hnext, hphase, Phase.hasLeft, hid] using hreported }

/-- Every step of the thread goes on with the dealings of the loop. -/
theorem deals_thread (hs : station.Deals failures sofar rounds round closing)
    (h : Fetcher.Advance disturbed station.fetcher station.depot next.fetcher next.depot)
    (hcalm : next.fetcher.phase.isPanic = false) :
    ∃ rounds round closing, next.Deals failures
      (sofar ++ station.fetcher.calls disturbed station.depot) rounds round closing := by
  obtain ⟨f, d, sent⟩ := station
  obtain ⟨g, e, sent'⟩ := next
  have hstep := h
  have hholds := hs.holds
  simp only at h hcalm hholds
  cases h with
  | collect hphase hpaused =>
      obtain ⟨hloop, hcalls, hsound, -, hcloses, hreported⟩ := hs
      simp only [hphase, Phase.Holds] at hholds
      refine ⟨rounds ++ [round], {}, closing, hloop, ?_, ?_, rfl, ?_, ?_⟩
      · simp [hcalls, Fetcher.calls, hphase, dealings, Round.calls, Ending.calls]
      · intro earlier hmem
        rcases List.mem_append.1 hmem with hmem | hmem
        · exact hsound earlier hmem
        · exact List.mem_singleton.1 hmem ▸ hholds
      · simpa [hphase, Phase.Closes] using hcloses
      · simpa [hphase, Round.reported, Phase.hasLeft] using hreported
  | @hand change rest recycled reader hphase hcall =>
      simp only [hphase, Phase.Holds] at hholds
      exact ⟨rounds, { round with changes := round.changes ++ [(change, recycled)] }, none,
        deals_call hs hstep
          (by simp [Fetcher.calls, hphase, hcall, Round.calls, hholds, Ending.calls]) rfl
          (hphase ▸ rfl) rfl hholds⟩
  | @handFail change rest recycled reader cause hphase hcall =>
      simp only [hphase, Phase.Holds] at hholds
      exact ⟨rounds, { round with ending := .refused change cause recycled }, none,
        deals_call hs hstep
          (by simp [Fetcher.calls, hphase, hcall, Round.calls, hholds, Ending.calls]) rfl
          (hphase ▸ rfl) rfl rfl⟩
  | @fetch batch reader hphase hcall =>
      simp only [hphase, Phase.Holds] at hholds
      exact ⟨rounds, { round with ending := .brought batch }, none,
        deals_call hs hstep
          (by simp [Fetcher.calls, hphase, hcall, Round.calls, hholds, Ending.calls]) rfl
          (hphase ▸ rfl) rfl rfl⟩
  | @fetchFail cause reader hphase hcall =>
      simp only [hphase, Phase.Holds] at hholds
      exact ⟨rounds, { round with ending := .lost cause }, none,
        deals_call hs hstep
          (by simp [Fetcher.calls, hphase, hcall, Round.calls, hholds, Ending.calls]) rfl
          (hphase ▸ rfl) rfl rfl⟩
  | @rewind batch result recycled reader hphase hcall hresult =>
      simp only [hphase, Phase.Holds] at hholds
      exact ⟨rounds, { round with ending := .givenBack batch result recycled }, none,
        deals_call hs hstep
          (by simp [Fetcher.calls, hphase, hcall, Round.calls, hholds, Ending.calls]) rfl
          (hphase ▸ rfl) rfl rfl⟩
  | close hphase hcall =>
      exact ⟨rounds, round, some (.returned ()),
        deals_close hs hstep hphase (by simp [Fetcher.calls, hphase, hcall]) rfl rfl⟩
  | @closeFail cause reader hphase hcall =>
      exact ⟨rounds, round, some (.failed cause),
        deals_close hs hstep hphase (by simp [Fetcher.calls, hphase, hcall]) rfl rfl⟩
  | handPanic | fetchPanic | rewindPanic | closePanic => cases hcalm
  | _ =>
      have hsilent : f.calls disturbed d = [] := by simp [Fetcher.calls, *]
      rw [hsilent, List.append_nil]
      exact ⟨rounds, round, closing, deals_silent hs hstep hsilent (by simp [*]) hcalm⟩

/-- Whatever a loop has done so far, it has dealt with its reader in rounds, unless a call
panicked. -/
def DealsInRounds (failures : List Failure) (calls : List ReaderCall) (station : Station ρ) :
    Prop :=
  station.fetcher.phase.isPanic = false →
    ∃ rounds round closing, station.Deals failures calls rounds round closing

theorem dealsInRounds_step {move : Move} (hs : station.DealsInRounds failures sofar)
    (h : station.step move = some next) :
    next.DealsInRounds failures (sofar ++ station.calls move) := by
  intro hcalm
  cases turn_of_step h with
  | cycle hmay hnext | loop hmay hnext =>
      obtain ⟨hcalm', hidle⟩ := Fetcher.calm_of_mayBegin hmay
      obtain ⟨rounds, round, closing, hdeals⟩ := hs hcalm'
      exact absurd (hdeals.looping.symm.trans hidle) Bool.noConfusion
  | thread hadvance hsent =>
      obtain ⟨rounds, round, closing, hdeals⟩ := hs (Fetcher.calm_of_advance hadvance)
      exact deals_thread hdeals hadvance hcalm
  | beside hmove hsame =>
      obtain ⟨rounds, round, closing, hdeals⟩ := hs (hsame.phase ▸ hcalm)
      refine ⟨rounds, round, closing, ?_⟩
      rw [calls, byThread_of_beside hmove, List.append_nil]
      exact
        { looping := hsame.looping.trans hdeals.looping
          calls := hdeals.calls
          sound := hsame.id ▸ hdeals.sound
          holds := hsame.id ▸ hsame.phase ▸ hdeals.holds
          closes := hsame.id ▸ hsame.phase ▸ hdeals.closes
          reported := by rw [hsame.failures, hsame.id, hsame.phase]; exact hdeals.reported }

theorem parts_step {move : Move} (hs : station.fetcher.Parts) (h : station.step move = some next) :
    next.fetcher.Parts := by
  cases turn_of_step h with
  | cycle hmay hnext | loop hmay hnext => exact hnext ▸ ⟨nofun, nofun⟩
  | thread hadvance hsent => exact Fetcher.parts_advance hs hadvance
  | beside hmove hsame =>
      obtain ⟨hsettled, hended⟩ := hs
      constructor
      · rwa [hsame.phase, hsame.closed, hsame.awaitingDrain]
      · rwa [hsame.phase, hsame.terminated]

theorem id_step {move : Move} (h : station.step move = some next) :
    next.fetcher.id = station.fetcher.id := by
  cases turn_of_step h with
  | cycle hmay hnext | loop hmay hnext => exact hnext ▸ rfl
  | thread hadvance hsent => exact (Fetcher.advanced hadvance).id
  | beside hmove hsame => exact hsame.id

/-- A loop that is about to begin has not dealt with its reader yet. -/
theorem dealsInRounds_loop (h : station.step .loop = some next) :
    next.DealsInRounds station.depot.failures [] := by
  intro hcalm
  cases turn_of_step h with
  | loop hmay hnext =>
      subst hnext
      exact ⟨[], {}, none, rfl, rfl, nofun, rfl, rfl, (List.append_nil _).symm⟩
  | beside hmove hsame => cases hmove

/-- What a loop has done stays done when the loop is over. -/
theorem ended_step {failure : Option Failure} {move : Move}
    (hphase : station.fetcher.phase = .ended failure) (h : station.step move = some next) :
    next.fetcher.phase = .ended failure ∧ station.calls move = [] := by
  cases turn_of_step h with
  | cycle hmay hnext | loop hmay hnext =>
      obtain ⟨hidle | ⟨result, hidle⟩, -⟩ := phase_of_mayBegin hmay <;>
        exact absurd (hphase.symm.trans hidle) Phase.noConfusion
  | thread hadvance hsent => exact absurd hphase (Fetcher.not_ended_of_advance hadvance)
  | beside hmove hsame => exact ⟨hsame.phase.trans hphase, byThread_of_beside hmove⟩

theorem ended_follow {failure : Option Failure} {moves : List Move}
    (hphase : station.fetcher.phase = .ended failure)
    (h : Course.follow step moves station = some last) :
    last.fetcher.phase = .ended failure ∧ diary moves station = [] := by
  rw [diary_eq_gather h]
  refine Course.follow_gathers
    (fun sofar station => station.fetcher.phase = .ended failure ∧ sofar = []) ?_ h ⟨hphase, rfl⟩
  rintro move state next sofar ⟨hstate, rfl⟩ hmove
  obtain ⟨hnext, hcalls⟩ := ended_step hstate hmove
  exact ⟨hnext, hcalls⟩

/-- A thread that winds down and waits for nobody comes to the end of its loop, unless the close
panics. -/
theorem exists_end (hun : station.fetcher.Unhindered station.depot) :
    ∃ count ≤ station.fetcher.toGo, ∃ last,
      Course.follow step (threads count) station = some last ∧
        (last.fetcher.phase.isPanic = true ∨
          ∃ failure, last.fetcher.phase = .ended failure) := by
  refine Course.exists_goal (fun station : Station ρ => station.fetcher.toGo)
    (fun station => station.fetcher.Unhindered station.depot ∨
      station.fetcher.phase.isPanic = true) _ ?_ (.inl hun)
  rintro state (hun | hpanic)
  · by_cases hgone : state.fetcher.toGo = 0
    · exact .inl (.inr (Fetcher.exists_ended_of_toGo hun hgone))
    · obtain ⟨next, hmove⟩ :=
        exists_step_thread (Fetcher.exists_step_of_unhindered [] hun hgone)
      exact .inr ⟨next, hmove, Fetcher.unhindered_advance hun (step_thread hmove).1⟩
  · exact .inl (.inl hpanic)

/-- The record of a loop: what it did with its reader, and how it ended if it did. -/
structure Chronicle (id : Nat) (moves : List Move) (begun last : Station ρ) (rounds : List Round)
    (closing : Option (Called Unit)) : Prop where
  calls : diary (.loop :: moves) begun = dealings rounds closing
  /-- Only the last round can fail. -/
  sound : ∀ round ∈ rounds.dropLast, round.failure id = none
  /-- The reader was closed, and a failure of that is what the loop answers. -/
  closed : ∀ failure, last.fetcher.phase = .ended failure →
    ∃ result, closing = some result ∧ failure = result.closeFailure id
  departed : ∀ failure, last.fetcher.phase = .ended failure → last.fetcher.Departed
  reported : ∀ failure, last.fetcher.phase = .ended failure →
    last.depot.failures = begun.depot.failures ++ rounds.filterMap (Round.failure id)
  /-- The reader is not called again. -/
  silent : ∀ failure, last.fetcher.phase = .ended failure → ∀ after later,
    Course.follow step after last = some later →
      later.fetcher.phase = .ended failure ∧ diary after last = []
  /-- A loop that winds down, and waits neither for the queue nor for the latch, ends. -/
  ends : last.fetcher.Unhindered last.depot →
    ∃ count ≤ 10, ∃ ended, Course.follow step (threads count) last = some ended ∧
      (ended.fetcher.phase.isPanic = true ∨ ∃ failure, ended.fetcher.phase = .ended failure)

/-- Under every interleaving of requests with a loop over a reader that does not panic, the calls
come in rounds of changes, at most one fetch, and at most one return of what was fetched, of which
only the last can fail; at most one close comes after them.  When the loop is over, the reader was
closed once and is never called again, the books are balanced, the round that failed was reported
once, and what the loop answers is the failure of the close. -/
theorem reader_called_in_rounds {id : Nat} {reader : ρ} {depot : Depot} {before moves : List Move}
    {begun last : Station ρ}
    (hbefore : Course.follow step before (fresh id reader depot) = some begun)
    (hrun : Course.follow step (.loop :: moves) begun = some last)
    (hcalm : last.fetcher.phase.isPanic = false) :
    ∃ rounds closing, Chronicle id moves begun last rounds closing := by
  obtain ⟨started, hloop, hrest⟩ := Course.follow_cons_eq_some.1 hrun
  have hall : Course.follow step (before ++ .loop :: moves) (fresh id reader depot) =
      some last := by
    rw [Course.follow_append, hbefore]
    exact hrun
  have hid : last.fetcher.id = id :=
    Course.follow_preserves (fun station => station.fetcher.id = id)
      (fun hs hmove => (id_step hmove).trans hs) hall rfl
  have hcoherent : last.fetcher.Coherent :=
    Course.follow_preserves (fun station => station.fetcher.Coherent) coherent_step hall
      (Fetcher.coherent_new id reader)
  have hparts : last.fetcher.Parts :=
    Course.follow_preserves (fun station => station.fetcher.Parts) parts_step hall ⟨nofun, nofun⟩
  have hlast := Course.follow_gathers
    (fun sofar station => station.DealsInRounds begun.depot.failures sofar) dealsInRounds_step hrest
    (dealsInRounds_loop hloop)
  obtain ⟨rounds, round, closing, hdeals⟩ := hlast hcalm
  have hdiary : diary (.loop :: moves) begun = dealings (rounds ++ [round]) closing := by
    rw [diary_eq_gather hrun, ← hdeals.calls]
    simp [Course.gather, hloop, calls, byThread]
  have hreported := hdeals.reported
  have hsound := hdeals.sound
  rw [hid] at hreported hsound
  refine ⟨rounds ++ [round], closing, ?_⟩
  constructor
  case calls => exact hdiary
  case sound =>
    rw [List.dropLast_concat]
    exact hsound
  case closed =>
    intro failure hphase
    simpa [hphase, Phase.Closes, hid] using hdeals.closes
  case departed =>
    intro failure hphase
    exact Fetcher.departed_of_ended hcoherent hparts hphase
  case reported =>
    intro failure hphase
    rw [hphase] at hreported
    rw [hreported, List.filterMap_append, List.filterMap_eq_nil_iff.2 hsound]
    cases hfailure : round.failure id <;> simp [Round.reported, Phase.hasLeft, hfailure]
  case silent =>
    intro failure hphase after later hafter
    exact ended_follow hphase hafter
  case ends =>
    intro hun
    obtain ⟨count, hcount, hended⟩ := exists_end hun
    exact ⟨count, Nat.le_trans hcount (Fetcher.toGo_le _), hended⟩

/-- A loop that reads a range and is then given a file, which its reader cannot read. -/
def refusedLoop : List Move :=
  [.ask (.addSplits [.range ⟨"a", 0, 1⟩])] ++ threads 12 ++
    [.ask (.addSplits [.file ⟨"b", "b"⟩])] ++ threads 11

/-- The loop fails and is over, with all that the theorem asks for. -/
theorem refused_loop_recorded :
    ∃ begun last : Station Backend,
      Course.follow step [] (fresh 0 (.ranges (.withLimits 1 0)) { queue := .ofCapacity 2 }) =
          some begun ∧
        Course.follow step (.loop :: refusedLoop) begun = some last ∧
        last.fetcher.phase.isPanic = false ∧ last.depot.failures.length = 1 ∧
        (diary (.loop :: refusedLoop) begun).length = 4 ∧
        ∃ rounds closing, Chronicle 0 refusedLoop begun last rounds closing := by
  refine ⟨_, _, rfl, rfl, rfl, rfl, ?_, ?_⟩
  · decide
  · have hbefore : Course.follow step [] (fresh 0 (.ranges (.withLimits 1 0))
        { queue := .ofCapacity 2 } : Station Backend) = some _ := rfl
    exact reader_called_in_rounds hbefore rfl rfl

end Station

end SplitFeed
