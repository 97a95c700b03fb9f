/-
# What a fetcher reports

A call into the reader that fails is reported by the thread, as the complaint that belongs to the
call: at once when a change cannot be handed over, after a step when a fetch was lost, and when the
loop is over if the reader could not be closed.  Until then the thread carries the complaint along.

So what a thread has carried, and what its calls add to it, is what it reports and what it carries
on; see `reports_stride`.  A batch that is given back is not reported, however that ends.
-/
import SplitFeed.Proofs.Fetcher.Diary
import SplitFeed.Proofs.Supervisor.Crew

namespace SplitFeed

/-- The complaint of a fetcher about a call that failed. -/
def ReaderCall.complaint (fetcher : Nat) : ReaderCall → List Failure
  | change _ (.failed cause) _ => [.changesNotHanded fetcher cause]
  | fetch (.failed cause) => [.fetchFailed fetcher cause]
  | close (.failed cause) => [.readerNotClosed fetcher cause]
  | _ => []

namespace Fetcher

variable {ρ : Type} {f g : Fetcher ρ} {d e : Depot} {disturbed : List Bool}

/-- The complaint that the thread has still to report. -/
def carries (f : Fetcher ρ) : List Failure :=
  match f.phase with
  | .fetchLost cause => [.fetchFailed f.id cause]
  | .cycled (.error failure) => [failure]
  | .leaving failure | .terminating failure | .ended failure => failure.toList
  | _ => []

/-- The complaints about the calls of the thread's next step. -/
def complaints [SplitReader ρ] (disturbed : List Bool) (f : Fetcher ρ) (d : Depot) :
    List Failure :=
  (f.calls disturbed d).flatMap (·.complaint f.id)

theorem carries_congr (hid : g.id = f.id) (hphase : g.phase = f.phase) :
    g.carries = f.carries := by
  unfold carries
  rw [hphase, hid]

variable [SplitReader ρ]

/-- A thread calls its reader in four phases only. -/
theorem complaints_advance (h : Advance disturbed f d g e) :
    ∃ reported, e.failures = d.failures ++ reported ∧
      f.carries ++ f.complaints disturbed d = reported ++ g.carries := by
  cases h with
  | report hphase hloop => exact ⟨_, rfl, by simp [carries, complaints, calls, hphase]⟩
  | hand hphase hcall | handFail hphase hcall | handPanic hphase hcall =>
      exact ⟨[], (List.append_nil _).symm,
        by simp [carries, complaints, calls, hphase, hcall, ReaderCall.complaint]⟩
  | fetch hphase hcall | fetchFail hphase hcall | fetchPanic hphase hcall =>
      exact ⟨[], (List.append_nil _).symm,
        by simp [carries, complaints, calls, hphase, hcall, ReaderCall.complaint]⟩
  | rewind hphase hcall | rewindPanic hphase hcall =>
      exact ⟨[], (List.append_nil _).symm,
        by simp [carries, complaints, calls, hphase, hcall, ReaderCall.complaint]⟩
  | close hphase hcall | closeFail hphase hcall | closePanic hphase hcall =>
      exact ⟨[], (List.append_nil _).symm,
        by simp [carries, complaints, calls, hphase, hcall, ReaderCall.complaint]⟩
  | _ => exact ⟨[], (List.append_nil _).symm, by simp [carries, complaints, calls, *]⟩

/-- What a thread has carried, and what its calls add to it, it reports or carries on. -/
theorem reports_stride (h : Supervisor.Stride disturbed f d g e) :
    ∃ reported, e.failures = d.failures ++ reported ∧
      f.carries ++ f.complaints disturbed d = reported ++ g.carries := by
  cases h with
  | advance h => exact complaints_advance h
  | vanish hphase => exact ⟨_, rfl, by simp [carries, complaints, calls, hphase]⟩

end Fetcher

end SplitFeed
