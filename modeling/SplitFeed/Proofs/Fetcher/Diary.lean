/-
# The diary of a reader

A diary is a reader together with the calls that were made on it, oldest first.  It passes every
call on and decides nothing, so a fetcher over a diary does what the fetcher does over the reader
alone; what the diary says in the end is what the reader was asked for and what it answered.
-/
import SplitFeed.Proofs.Fetcher.Station

namespace SplitFeed

/-- A call into a reader, how it ended, and the tickets that fell due in it. -/
inductive ReaderCall where
  | change (change : SplitsChange Split) (result : Called Unit) (recycled : List Nat)
  | fetch (result : Called (SplitBatch Record))
  | rewind (stale : SplitBatch Record) (result : Called Unit) (recycled : List Nat)
  | close (result : Called Unit)
deriving DecidableEq

namespace ReaderCall

/-- The batch that a call brought back. -/
def brought : ReaderCall → Option (SplitBatch Record)
  | fetch (.returned batch) => some batch
  | _ => none

/-- The batch that was given back in a call. -/
def givenBack : ReaderCall → Option (SplitBatch Record)
  | rewind stale _ _ => some stale
  | _ => none

/-- The tickets that fell due in a call. -/
def recycled : ReaderCall → List Nat
  | change _ _ recycled | rewind _ _ recycled => recycled
  | _ => []

/-- Whether the call ends all reading. -/
def isClose : ReaderCall → Bool
  | close _ => true
  | _ => false

end ReaderCall

/-- A reader and the calls that were made on it. -/
structure Diary (ρ : Type) where
  reader : ρ
  calls : List ReaderCall

namespace Diary

variable {ρ : Type}

/-- Adds a call and exchanges the reader for what it is afterwards. -/
def note (call : ReaderCall) (reader : ρ) (diary : Diary ρ) : Diary ρ :=
  ⟨reader, diary.calls ++ [call]⟩

instance [SplitReader ρ] : SplitReader (Diary ρ) where
  fetch store disturbed diary :=
    let (result, reader) := SplitReader.fetch store disturbed diary.reader
    (result, diary.note (.fetch result) reader)
  change change diary :=
    let (result, recycled, reader) := SplitReader.change change diary.reader
    (result, recycled, diary.note (.change change result recycled) reader)
  wake diary := { diary with reader := SplitReader.wake diary.reader }
  rewind stale diary :=
    let (result, recycled, reader) := SplitReader.rewind stale diary.reader
    (result, recycled, diary.note (.rewind stale result recycled) reader)
  close diary :=
    let (result, reader) := SplitReader.close diary.reader
    (result, diary.note (.close result) reader)

end Diary

namespace Fetcher

variable {ρ : Type}

/-- The fetcher over its reader's diary, in which some calls stand already. -/
def noting (calls : List ReaderCall) (f : Fetcher ρ) : Fetcher (Diary ρ) where
  id := f.id
  reader := ⟨f.reader, calls⟩
  duty := f.duty
  wakeRequested := f.wakeRequested
  napping := f.napping
  drainLatch := f.drainLatch
  terminated := f.terminated
  leftover := f.leftover
  looping := f.looping
  phase := f.phase

/-- The calls that the thread's next step makes on the reader. -/
def calls [SplitReader ρ] (disturbed : List Bool) (f : Fetcher ρ) (d : Depot) : List ReaderCall :=
  match f.phase with
  | .handing (change :: _) =>
    let (result, recycled, _) := SplitReader.change change f.reader
    [.change change result recycled]
  | .fetching => [.fetch (SplitReader.fetch d.store disturbed f.reader).1]
  | .rewinding batch =>
    let (result, recycled, _) := SplitReader.rewind batch f.reader
    [.rewind batch result recycled]
  | .closing => [.close (SplitReader.close f.reader).1]
  | _ => []

section Noting

variable (sofar : List ReaderCall) (f : Fetcher ρ) (d : Depot)

@[simp]
theorem noting_duty : (f.noting sofar).duty = f.duty := rfl

@[simp]
theorem noting_wakeRequested : (f.noting sofar).wakeRequested = f.wakeRequested := rfl

@[simp]
theorem noting_napping : (f.noting sofar).napping = f.napping := rfl

@[simp]
theorem noting_drainLatch : (f.noting sofar).drainLatch = f.drainLatch := rfl

@[simp]
theorem noting_leftover : (f.noting sofar).leftover = f.leftover := rfl

@[simp]
theorem noting_looping : (f.noting sofar).looping = f.looping := rfl

@[simp]
theorem noting_phase : (f.noting sofar).phase = f.phase := rfl

@[simp]
theorem noting_isAsleepInPut : (f.noting sofar).isAsleepInPut d = f.isAsleepInPut d := rfl

/-- A fetcher and what it shares, with the diary in place of the reader. -/
def notingPair (pair : Fetcher ρ × Depot) : Fetcher (Diary ρ) × Depot :=
  (pair.1.noting sofar, pair.2)

theorem noting_publish (batch : SplitBatch Record) (last : Bool) :
    (f.noting sofar).publish batch last d = notingPair sofar (f.publish batch last d) := by
  simp only [publish, tryPut, noting]
  rcases d.queue.put f.id f.id batch with ⟨_ | (_ | _) | _, _⟩ <;> rfl

theorem noting_flush : (f.noting sofar).flush d = notingPair sofar (f.flush d) := by
  unfold flush
  rw [noting_leftover]
  cases f.leftover with
  | none => rfl
  | some batch =>
      simp only [tryPut, noting]
      rcases d.queue.put f.id f.id batch with ⟨_ | (_ | _) | _, _⟩ <;> rfl

theorem noting_afterCycle (result : Except Failure CycleOutcome) :
    (f.noting sofar).afterCycle result d = notingPair sofar (f.afterCycle result d) := by
  rcases result with _ | (_ | _ | _ | _ | _ | _ | _) <;> rfl

theorem noting_enact (request : Request) :
    (request.enact (f.noting sofar)).1 = (request.enact f).1.noting sofar := by
  cases request with
  | addSplits splits =>
      unfold Request.enact
      rw [noting_duty]
      dsimp only
      split <;> rfl
  | stop mode =>
      unfold Request.enact
      rw [noting_duty]
      dsimp only
      split <;> rfl
  | removeSplits _ | wakeUp _ | pause | resume | releaseLatch => rfl

variable [SplitReader ρ]

theorem noting_hand (change : SplitsChange Split) (rest : List (SplitsChange Split))
    (hphase : f.phase = .handing (change :: rest)) (disturbed : List Bool) :
    (f.noting sofar).hand change rest d =
      notingPair (sofar ++ f.calls disturbed d) (f.hand change rest d) := by
  simp only [hand, noting, calls, hphase, SplitReader.change]
  rcases SplitReader.change change f.reader with ⟨_ | _ | _, _, _⟩ <;> rfl

theorem noting_rewind (batch : SplitBatch Record) (hphase : f.phase = .rewinding batch)
    (disturbed : List Bool) :
    (f.noting sofar).rewind batch d =
      notingPair (sofar ++ f.calls disturbed d) (f.rewind batch d) := by
  simp only [rewind, noting, calls, hphase, SplitReader.rewind]
  rcases SplitReader.rewind batch f.reader with ⟨_ | _ | _, _, _⟩ <;> rfl

theorem noting_fetch (hphase : f.phase = .fetching) (disturbed : List Bool) :
    (f.noting sofar).fetch disturbed d =
      (f.fetch disturbed d).noting (sofar ++ f.calls disturbed d) := by
  simp only [fetch, noting, calls, hphase, SplitReader.fetch]
  rcases SplitReader.fetch d.store disturbed f.reader with ⟨_ | _ | _, _⟩ <;> rfl

theorem noting_closeReader (hphase : f.phase = .closing) (disturbed : List Bool) :
    (f.noting sofar).closeReader = f.closeReader.noting (sofar ++ f.calls disturbed d) := by
  simp only [closeReader, noting, calls, hphase, SplitReader.close]
  rcases SplitReader.close f.reader with ⟨_ | _ | _, _⟩ <;> rfl

/-- A step over the diary is a step over the reader, whose calls the diary notes. -/
theorem noting_step? (disturbed : List Bool) :
    (f.noting sofar).step? disturbed d =
      (f.step? disturbed d).map (notingPair (sofar ++ f.calls disturbed d)) := by
  unfold step?
  rw [noting_phase]
  cases hphase : f.phase with
  | handing changes =>
      cases changes with
      | nil => simp only [noting_leftover, calls, hphase, List.append_nil]; cases f.leftover <;> rfl
      | cons change rest =>
          simp only [noting_hand sofar f d change rest hphase disturbed, Option.map_some]
  | fetching => simp only [noting_fetch sofar f d hphase disturbed]; rfl
  | rewinding batch =>
      simp only [noting_rewind sofar f d batch hphase disturbed, Option.map_some]
  | closing => simp only [noting_closeReader sofar f d hphase disturbed]; rfl
  | publishing batch last =>
      simp only [calls, hphase, List.append_nil]
      rw [noting_isAsleepInPut, noting_publish]
      split <;> rfl
  | flushing =>
      simp only [calls, hphase, List.append_nil]
      rw [noting_isAsleepInPut, noting_flush]
      split <;> rfl
  | cycled result =>
      simp only [calls, hphase, List.append_nil]
      rw [noting_looping, noting_afterCycle]
      split <;> rfl
  | weighing _ =>
      simp only [calls, hphase, List.append_nil]
      rw [noting_wakeRequested]
      split <;> rfl
  | parked =>
      simp only [calls, hphase, List.append_nil]
      rw [noting_napping]
      split <;> rfl
  | latched =>
      simp only [calls, hphase, List.append_nil]
      rw [noting_drainLatch]
      split <;> rfl
  | collecting | checking | parking | finishing _ =>
      simp only [calls, hphase, List.append_nil]
      rw [noting_duty]
      split <;> rfl
  | booking _ | noting _ _ =>
      simp only [calls, hphase, List.append_nil]
      split <;> rfl
  | _ => simp only [calls, hphase, List.append_nil]; rfl

end Noting

end Fetcher

namespace Station

variable {ρ : Type} [SplitReader ρ]

/-- The station over its reader's diary, in which some calls stand already. -/
def noting (sofar : List ReaderCall) (station : Station ρ) : Station (Diary ρ) :=
  ⟨station.fetcher.noting sofar, station.depot, station.sent⟩

/-- What a move yields if only the steps of the thread yield anything. -/
def byThread {α : Type} (yield : List Bool → Fetcher ρ → Depot → List α) (station : Station ρ) :
    Move → List α
  | .thread disturbed => yield disturbed station.fetcher station.depot
  | _ => []

/-- The calls that a move makes on the reader. -/
def calls : Station ρ → Move → List ReaderCall := byThread Fetcher.calls

/-- What stands in the diary of the reader, blank at first, when some moves were made. -/
def diary (moves : List Move) (station : Station ρ) : List ReaderCall :=
  (Course.follow step moves (station.noting [])).elim [] (·.fetcher.reader.calls)

/-- The thread makes some steps that nobody disturbs. -/
def threads (count : Nat) : List Move := List.replicate count (.thread [])

/-- The diary decides nothing and misses no call. -/
theorem noting_step (move : Move) (sofar : List ReaderCall) (station : Station ρ) :
    step move (station.noting sofar) =
      (step move station).map (noting (sofar ++ station.calls move)) := by
  cases move with
  | cycle | loop =>
      have hmay : mayBegin (station.fetcher.noting sofar) = mayBegin station.fetcher := rfl
      simp only [step, noting, hmay, calls, byThread, List.append_nil]
      split <;> rfl
  | thread disturbed =>
      simp only [step, noting, Fetcher.noting_step?, calls, byThread, Option.map_map]
      rfl
  | ask request =>
      simp only [step, noting, Fetcher.noting_enact, calls, byThread, List.append_nil,
        Option.map_some]
  | nudge nudge => cases nudge <;> simp only [step, calls, byThread, List.append_nil] <;> rfl
  | timeOut | queue _ | files _ => simp only [step, calls, byThread, List.append_nil]; rfl

omit [SplitReader ρ] in
theorem byThread_of_beside {α : Type} {yield : List Bool → Fetcher ρ → Depot → List α}
    {station : Station ρ} {move : Move} (hmove : move.isBeside = true) :
    station.byThread yield move = [] := by
  cases move with
  | thread disturbed => cases hmove
  | _ => rfl

theorem diary_eq_gather {moves : List Move} {station last : Station ρ}
    (h : Course.follow step moves station = some last) :
    diary moves station = Course.gather step calls moves station := by
  rw [diary, Course.follow_records noting_step, h]
  rfl

/-- The diary of a course that is made in two parts. -/
theorem diary_append {first second : List Move} {station next last : Station ρ}
    (hfirst : Course.follow step first station = some next)
    (hsecond : Course.follow step second next = some last) :
    diary (first ++ second) station = diary first station ++ diary second next := by
  have h : Course.follow step (first ++ second) station = some last := by
    rw [Course.follow_append, hfirst]
    exact hsecond
  rw [diary_eq_gather h, diary_eq_gather hfirst, diary_eq_gather hsecond,
    Course.gather_append hfirst]

end Station

end SplitFeed
