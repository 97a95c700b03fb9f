/-
# The changes that a reader hears of

Requests note changes for the reader, in order, and the thread hands them over, in the same order,
at the beginning of a cycle.  What was noted and not handed over waits, with one exception: when the
reader does not take a change, those behind it that the thread has collected with it are forgotten.

So the reader has heard of every change, or the change waits, exactly on the courses on which no
change is forgotten.  Where the thread fetches, only changes can wait that were noted after the
thread had collected those before; all the others were handed over.
-/
import SplitFeed.Proofs.Fetcher.Account
import SplitFeed.Proofs.Fetcher.Diary

namespace SplitFeed

variable {ρ : Type}

/-- The changes that a request notes for the reader. -/
def Request.tells (f : Fetcher ρ) : Request → List (SplitsChange Split)
  | addSplits splits =>
    let added := Duty.newcomers f.duty.assigned splits
    if f.duty.refuses || added.isEmpty then [] else [.addition added]
  | removeSplits ids =>
    let removed := f.duty.named ids
    if removed.isEmpty then [] else [.removal removed]
  | wakeUp _ | pause | resume | stop _ | releaseLatch => []

/-- A request adds what it notes to the pending changes. -/
theorem Request.pending_enact (request : Request) (f : Fetcher ρ) :
    (request.enact f).1.duty.pending = f.duty.pending ++ request.tells f := by
  cases request with
  | addSplits splits =>
      simp only [enact, tells]
      split
      · exact (List.append_nil _).symm
      · rfl
  | removeSplits ids =>
      simp only [enact, tells, Duty.unassign]
      split
      · exact (List.append_nil _).symm
      · rfl
  | stop mode =>
      simp only [enact, tells, List.append_nil]
      split <;> rfl
  | wakeUp _ | pause | resume | releaseLatch => exact (List.append_nil _).symm

/-- The change that is handed over in a call. -/
def ReaderCall.told : ReaderCall → Option (SplitsChange Split)
  | change news _ _ => some news
  | _ => none

namespace Fetcher

variable [SplitReader ρ] {disturbed : List Bool} {f g : Fetcher ρ} {d e : Depot}

/-- The changes that the thread hands over in its next step. -/
def tells (disturbed : List Bool) (f : Fetcher ρ) (d : Depot) : List (SplitsChange Split) :=
  (f.calls disturbed d).filterMap ReaderCall.told

/-- The changes that the thread forgets in its next step: those behind one that the reader does not
take. -/
def forgets (f : Fetcher ρ) : List (SplitsChange Split) :=
  match f.phase with
  | .handing (change :: rest) =>
    match (SplitReader.change change f.reader).1 with
    | .returned () => []
    | _ => rest
  | _ => []

/-- A step hands changes over, forgets them or keeps them. -/
theorem unheard_advance (h : Advance disturbed f d g e) :
    f.unheard = f.tells disturbed d ++ f.forgets ++ g.unheard := by
  cases h with
  | hand hphase hcall | handFail hphase hcall | handPanic hphase hcall =>
      simp [unheard, tells, forgets, calls, hphase, hcall, ReaderCall.told]
  | _ => simp_all [unheard, tells, forgets, calls, ReaderCall.told, Duty.book, Duty.settle]

/-- After the changes were collected and until the fetch, only changes wait that were noted since
then. -/
def CaughtUp (f : Fetcher ρ) (since : List (SplitsChange Split)) : Prop :=
  match f.phase with
  | .handing _ | .checking | .fetching => f.duty.pending <:+ since
  | _ => True

theorem caughtUp_advance {since : List (SplitsChange Split)} (hf : f.CaughtUp since)
    (h : Advance disturbed f d g e) : g.CaughtUp since := by
  cases h with
  | hand hphase _ | check hphase _ | findSplits hphase _ => simpa only [CaughtUp, hphase] using hf
  | collect => exact List.nil_suffix
  | doze hphase | flush hphase | flushAgain hphase | flushShut hphase | flushDoze hphase =>
      simp only [CaughtUp, hphase]
  | _ => trivial

end Fetcher

namespace Station

variable [SplitReader ρ] {station next first last : Station ρ} {move : Move} {moves : List Move}

omit [SplitReader ρ] in
/-- The changes that a move notes for the reader. -/
def noted (station : Station ρ) : Move → List (SplitsChange Split)
  | .ask request => request.tells station.fetcher
  | _ => []

/-- The changes that a move hands over to the reader. -/
def told : Station ρ → Move → List (SplitsChange Split) := byThread Fetcher.tells

/-- The changes that are forgotten in a move. -/
def forgotten : Station ρ → Move → List (SplitsChange Split) := byThread fun _ f _ => f.forgets

/-- The reader does not take a change, and the thread has collected others behind it. -/
def Forgets (station : Station ρ) (move : Move) : Prop := station.forgotten move ≠ []

instance (station : Station ρ) (move : Move) : Decidable (station.Forgets move) :=
  inferInstanceAs (Decidable (_ ≠ _))

/-- What waits and what is noted is handed over, is forgotten or waits. -/
theorem unheard_step (h : station.step move = some next) :
    station.fetcher.unheard ++ station.noted move =
      station.told move ++ station.forgotten move ++ next.fetcher.unheard := by
  cases move with
  | thread disturbed =>
      show station.fetcher.unheard ++ [] = _
      rw [List.append_nil]
      exact Fetcher.unheard_advance (step_thread h).1
  | cycle | loop =>
      simp only [step, Option.ite_none_right_eq_some, Option.some.injEq] at h
      obtain ⟨hmay, rfl⟩ := h
      obtain ⟨hphase | ⟨result, hphase⟩, -⟩ := phase_of_mayBegin hmay <;>
        simp [Fetcher.unheard, hphase, noted, told, forgotten, byThread, Fetcher.beginCycle,
          Fetcher.beginLoop, Fetcher.enter]
  | ask request =>
      obtain rfl := Option.some.inj h
      have hphase : (request.enact station.fetcher).1.phase = station.fetcher.phase :=
        (beside_enact request station).phase
      simp [Fetcher.unheard, noted, told, forgotten, byThread, hphase, Request.pending_enact]
  | nudge nudge =>
      obtain rfl := Option.some.inj h
      cases nudge <;> simp [Fetcher.unheard, noted, told, forgotten, byThread]
  | timeOut | queue _ | files _ =>
      obtain rfl := Option.some.inj h
      simp [Fetcher.unheard, noted, told, forgotten, byThread, Fetcher.timeOut]

theorem unheard_follow (h : Course.follow step moves first = some last) :
    first.fetcher.unheard ++ Course.gather step noted moves first =
      Course.gather step (fun station move => station.told move ++ station.forgotten move) moves
        first ++ last.fetcher.unheard :=
  Course.gather_balance (fun _ => True) (fun _ _ => trivial) (fun _ => unheard_step) h trivial

/-- All that was noted is handed over or waits, in order, exactly on the courses on which nothing is
forgotten. -/
theorem told_iff_never_forgets (h : Course.follow step moves first = some last) :
    first.fetcher.unheard ++ Course.gather step noted moves first =
        Course.gather step told moves first ++ last.fetcher.unheard ↔
      Course.Never step Forgets moves first := by
  have hnever : Course.gather step forgotten moves first = [] ↔
      Course.Never step Forgets moves first := Course.gather_eq_nil_iff
  rw [unheard_follow h, List.append_cancel_right_eq, ← hnever]
  exact Course.gather_both_eq_iff

theorem caughtUp_step {since : List (SplitsChange Split)}
    (hs : station.fetcher.CaughtUp since) (h : station.step move = some next) :
    next.fetcher.CaughtUp (since ++ station.noted move) := by
  cases move with
  | thread disturbed =>
      show next.fetcher.CaughtUp (since ++ [])
      rw [List.append_nil]
      exact Fetcher.caughtUp_advance hs (step_thread h).1
  | cycle | loop =>
      simp only [step, Option.ite_none_right_eq_some, Option.some.injEq] at h
      obtain ⟨-, rfl⟩ := h
      trivial
  | ask request =>
      obtain rfl := Option.some.inj h
      have hphase : (request.enact station.fetcher).1.phase = station.fetcher.phase :=
        (beside_enact request station).phase
      simp only [Fetcher.CaughtUp, hphase, Request.pending_enact, noted] at hs ⊢
      have hlonger (h : station.fetcher.duty.pending <:+ since) :
          station.fetcher.duty.pending ++ request.tells station.fetcher <:+
            since ++ request.tells station.fetcher := by
        obtain ⟨early, rfl⟩ := h
        exact ⟨early, (List.append_assoc ..).symm⟩
      split at hs
      · exact hlonger hs
      · exact hlonger hs
      · exact hlonger hs
      · trivial
  | nudge nudge =>
      obtain rfl := Option.some.inj h
      show Fetcher.CaughtUp _ (since ++ [])
      rw [List.append_nil]
      cases nudge <;> exact hs
  | timeOut | queue _ | files _ =>
      obtain rfl := Option.some.inj h
      show Fetcher.CaughtUp _ (since ++ [])
      rw [List.append_nil]
      exact hs

/-- If nothing is forgotten, all that was noted until some moment outside of a collection is handed
over before the next fetch after it. -/
theorem told_before_fetch {mid : Station ρ} {before after : List Move}
    (hbefore : Course.follow step before first = some mid) (hmid : mid.fetcher.CaughtUp [])
    (hafter : Course.follow step after mid = some last) (hphase : last.fetcher.phase = .fetching)
    (hnever : Course.Never step Forgets (before ++ after) first) :
    first.fetcher.unheard ++ Course.gather step noted before first <+:
      Course.gather step told (before ++ after) first := by
  have hall : Course.follow step (before ++ after) first = some last := by
    rw [Course.follow_append, hbefore]
    exact hafter
  have hledger := (told_iff_never_forgets hall).2 hnever
  have hcaught : last.fetcher.CaughtUp ([] ++ Course.gather step noted after mid) :=
    Course.follow_gathers (fun since station => station.fetcher.CaughtUp since) caughtUp_step hafter
      hmid
  simp only [Fetcher.CaughtUp, hphase, List.nil_append] at hcaught
  -- what waits at last was noted after `mid`, so it can be taken off the end of the ledger
  obtain ⟨early, hearly⟩ := hcaught
  have hwaits : last.fetcher.unheard = last.fetcher.duty.pending := by
    simp [Fetcher.unheard, hphase]
  rw [Course.gather_append hbefore, ← hearly, hwaits, ← List.append_assoc, ← List.append_assoc,
    List.append_cancel_right_eq] at hledger
  exact ⟨early, hledger⟩

end Station

end SplitFeed
