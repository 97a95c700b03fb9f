/-
# Whom the completion of a signal rouses

Whatever is done on a porch and in whatever order, what is noted of a signal falls into two parts.
Up to the section that completes it every answer tells that the signal is not done, and from there
on every answer tells that it is.  A task that was told so in the first part has left its waker, and
left it once; the call that completes the signal takes the wakers out and wakes each of them.

The invariant is about one signal, the call that has completed it, and what was noted of the signal
so far: `Unrung` before that section and `Rung` after it.
-/
import SplitFeed.Proofs.Signal.Porch
import Mathlib.Data.List.Nodup

namespace SplitFeed

namespace Porch

/-! ### What can be noted before and after a completion -/

namespace Note

/-- Whether a note can stand before the one of the section that completes the signal: it tells that
the signal is not done, and nobody is woken. -/
def isEarly : Note → Bool
  | completed _ | woken _ => false
  | polled _ done | asked done | waited _ done => !done

/-- Whether a note can stand after the one of the section that completes the signal: whatever it
answers, it tells that the signal is done. -/
def isLate : Note → Bool
  | completed flipped => !flipped
  | polled _ done | asked done | waited _ done => done
  | woken _ => true

end Note

/-- A signal that is not done: every task that asked for it has left its waker, once. -/
structure Unrung (story : List Note) (signal : OneShot) (call : Option Ringing) : Prop where
  pending : signal.done = false
  nobody : call = none
  early : ∀ note ∈ story, note.isEarly = true
  once : signal.wakers.Nodup
  left : ∀ waker, waker ∈ signal.wakers ↔ .polled waker false ∈ story

/-- A story that tells of one completion. -/
def Parted (story : List Note) : Prop :=
  ∃ early late, story = early ++ .completed true :: late ∧
    (∀ note ∈ early, note.isEarly = true) ∧ ∀ note ∈ late, note.isLate = true

/-- A signal that is done: every task that had left its waker was woken once or is still to be
woken, and threads sleep only until the call that completed the signal lets them go. -/
structure Rung (story : List Note) (signal : OneShot) (call : Option Ringing) : Prop where
  done : signal.done = true
  parted : Parted story
  woken : ∀ waker, story.count (.woken waker) + (call.elim [] Ringing.wakers).count waker =
    if .polled waker false ∈ story then 1 else 0
  asleep : signal.sleepers ≠ [] → ∃ wakers, call = some ⟨false, wakers⟩

variable {story notes : List Note} {signal after : OneShot} {call later : Option Ringing}
  {own : Bool}

theorem parted_append (h : Parted story) (hlate : ∀ note ∈ notes, note.isLate = true) :
    Parted (story ++ notes) := by
  obtain ⟨early, late, rfl, hearly, hold⟩ := h
  refine ⟨early, late ++ notes, by simp, hearly, fun note hnote => ?_⟩
  exact (List.mem_append.1 hnote).elim (hold note) (hlate note)

/-- An answer that tells that the signal is done wakes nobody and leaves no waker. -/
theorem rung_answer (note : Note) (h : Rung story signal call) (hlate : note.isLate = true)
    (hquiet : ∀ waker, note ≠ .woken waker) : Rung (story ++ [note]) signal call where
  done := h.done
  parted := parted_append h.parted (by simpa using hlate)
  woken waker := by
    have hnot : note ≠ .polled waker false := by
      rintro rfl
      cases hlate
    simpa [List.count_append, List.count_singleton, hquiet waker, Ne.symm hnot] using h.woken waker
  asleep := h.asleep

/-- Once a signal is done, all that befalls it keeps to that. -/
theorem rung_befalls (h : Rung story signal call)
    (hb : Befalls own signal call notes after later) : Rung (story ++ notes) after later := by
  have hdone := h.done
  cases hb with
  | flip hpending | leave hpending _ | leaveAgain hpending _ | doze hpending =>
      rw [hpending] at hdone
      cases hdone
  | late _ | ready _ | pass _ => exact rung_answer _ h rfl (by simp)
  | ask => exact rung_answer _ h hdone (by simp)
  | rouse =>
      rw [List.append_nil]
      exact ⟨hdone, h.parted, h.woken, fun hne => (hne rfl).elim⟩
  | @wake _ waker wakers =>
      refine ⟨hdone, parted_append h.parted (by simp [Note.isLate]), fun other => ?_,
        by simpa using h.asleep⟩
      have hwoken := h.woken other
      have hcount : (story ++ [Note.woken waker]).count (.woken other) =
          story.count (.woken other) + if waker == other then 1 else 0 := by
        simp [List.count_append, List.count_singleton]
      have hleft : Note.polled other false ∈ story ++ [.woken waker] ↔
          .polled other false ∈ story := by simp
      rw [Option.elim_some, List.count_cons] at hwoken
      rw [hcount, if_congr hleft rfl rfl, ← hwoken, Option.elim_some, Nat.add_assoc,
        Nat.add_comm (wakers.count other)]
  | finish =>
      rw [List.append_nil]
      exact ⟨hdone, h.parted, h.woken, by simpa using h.asleep⟩
  | stir thread =>
      rw [List.append_nil]
      exact ⟨hdone, h.parted, h.woken, fun hne => h.asleep fun hnil => hne (by rw [hnil]; rfl)⟩
  | giveUp thread =>
      obtain ⟨-, hparted, hwoken, -⟩ :=
        rung_answer (.waited thread signal.done) h hdone (by simp)
      exact ⟨hdone, hparted, hwoken, fun hne => h.asleep fun hnil => hne (by rw [hnil]; rfl)⟩

/-- An answer that tells that the signal is not done leaves no waker, unless it is to a task that
asks. -/
theorem unrung_answer (note : Note) (h : Unrung story signal call) (hearly : note.isEarly = true)
    (hnobody : ∀ waker, note ≠ .polled waker false) : Unrung (story ++ [note]) signal call where
  pending := h.pending
  nobody := h.nobody
  early other hother :=
    (List.mem_append.1 hother).elim (h.early other) fun hnew => List.mem_singleton.1 hnew ▸ hearly
  once := h.once
  left waker := by simpa [Ne.symm (hnobody waker)] using h.left waker

/-- The section that completes a signal leaves nobody out: all that have left a waker are to be
woken. -/
theorem rung_of_unrung (h : Unrung story signal call) :
    Rung (story ++ [.completed true]) { signal with done := true, wakers := [] }
      (some ⟨false, signal.wakers⟩) where
  done := rfl
  parted := ⟨story, [], rfl, h.early, List.forall_mem_nil _⟩
  woken waker := by
    have hnone : story.count (.woken waker) = 0 := List.count_eq_zero.2 fun hmem => by
      cases h.early _ hmem
    simp [List.count_append, hnone, h.once.count, h.left waker]
  asleep _ := ⟨_, rfl⟩

/-- A pending signal stays so until its section comes. -/
theorem unrung_befalls (h : Unrung story signal call)
    (hb : Befalls own signal call notes after later) :
    Unrung (story ++ notes) after later ∨ Rung (story ++ notes) after later := by
  have hpending := h.pending
  cases hb with
  | flip _ => exact .inr (rung_of_unrung h)
  | late hdone | ready hdone | pass hdone =>
      rw [hpending] at hdone
      cases hdone
  | rouse | wake | finish => cases h.nobody
  | @leave _ _ waker _ hnew =>
      refine .inl ⟨hpending, h.nobody, ?_, ?_, fun other => ?_⟩
      · simpa [or_imp, forall_and, Note.isEarly] using h.early
      · rw [List.nodup_append]
        refine ⟨h.once, List.nodup_singleton _, ?_⟩
        rintro other hother _ hsame rfl
        exact hnew (List.mem_singleton.1 hsame ▸ hother)
      · simp [h.left other]
  | @leaveAgain _ _ waker _ hthere =>
      refine .inl ⟨hpending, h.nobody, ?_, h.once, fun other => ?_⟩
      · simpa [or_imp, forall_and, Note.isEarly] using h.early
      · rw [List.mem_append, ← h.left other]
        refine ⟨.inl, fun hor => hor.elim id fun hsame => ?_⟩
        simp only [List.mem_singleton, Note.polled.injEq, and_true] at hsame
        exact hsame ▸ hthere
  | ask => exact .inl (unrung_answer _ h (by simp [Note.isEarly, hpending]) (by simp))
  | doze _ | stir _ =>
      rw [List.append_nil]
      exact .inl ⟨hpending, h.nobody, h.early, h.once, h.left⟩
  | giveUp thread =>
      obtain ⟨-, -, hearly, -, hleft⟩ := unrung_answer (.waited thread signal.done) h
        (by simp [Note.isEarly, hpending]) (by simp)
      exact .inl ⟨hpending, h.nobody, hearly, h.once, hleft⟩

/-! ### Moves -/

variable {porch next last : Porch} {move : Move} {moves : List Move} {number : Nat}
  {said : List (Nat × Note)}

theorem exists_said (h : step move porch = some next) :
    ∃ said, act move porch = some (said, next) := by
  obtain ⟨⟨said, _⟩, hact, rfl⟩ := Option.map_eq_some_iff.1 h
  exact ⟨said, hact⟩

theorem hung_step (hung : porch.Hung) (h : step move porch = some next) : next.Hung := by
  obtain ⟨said, hact⟩ := exists_said h
  exact hung_of_acts hung (acts_of_act hung hact)

/-- What is said of a signal is noted under its number. -/
theorem noted_of_map {other : Nat} (h : act move porch = some (notes.map (other, ·), next)) :
    noted number porch move = if other = number then notes else [] := by
  rw [noted, h, Option.elim_some, List.filter_map]
  by_cases hsame : other = number <;> simp [hsame, Function.comp_def]

/-- What was noted of a signal fits how it is; of one that was not made yet, nothing was noted. -/
def Told (number : Nat) (story : List Note) (porch : Porch) : Prop :=
  match porch.board.signals[number]? with
  | none => story = []
  | some signal =>
    Unrung story signal (porch.calls number) ∨ Rung story signal (porch.calls number)

theorem told_congr (hsignals : next.board.signals[number]? = porch.board.signals[number]?)
    (hcalls : next.calls number = porch.calls number) (h : Told number story porch) :
    Told number story next := by
  rwa [Told, hsignals, hcalls]

/-- A signal that is pending from the start has no story. -/
theorem unrung_fresh : Unrung [] OneShot.fresh none where
  pending := rfl
  nobody := rfl
  early := List.forall_mem_nil _
  once := .nil
  left _ := iff_of_false List.not_mem_nil List.not_mem_nil

/-- A signal that is done from the start was completed by whoever made it. -/
theorem rung_completed : Rung [.completed true] OneShot.completed none where
  done := rfl
  parted := ⟨[], [], rfl, List.forall_mem_nil _, List.forall_mem_nil _⟩
  woken waker := by simp
  asleep hne := (hne rfl).elim

theorem told_step (hung : porch.Hung) (ht : Told number story porch)
    (h : step move porch = some next) : Told number (story ++ noted number porch move) next := by
  obtain ⟨said, hact⟩ := exists_said h
  cases acts_of_act hung hact with
  | share hmove hboard hcalls hhandles hwaiting hsaid =>
      subst hsaid
      rw [noted, hact]
      simpa using told_congr (by rw [hboard]) (by rw [hcalls]) ht
  | hang done hmove hboard hcalls hhandles hwaiting hsaid =>
      subst hsaid
      have hsignals : next.board.signals[number]? = if number = porch.board.signals.size then
          some (if done then .completed else .fresh) else porch.board.signals[number]? := by
        rw [hboard]
        exact Array.getElem?_push
      rw [noted_of_map hact]
      by_cases hsame : number = porch.board.signals.size
      · have hnothing : story = [] := by
          rwa [Told, Array.getElem?_eq_none (Nat.le_of_eq hsame.symm)] at ht
        rw [if_pos hsame.symm, Told, hsignals, if_pos hsame, hcalls, hnothing,
          calls_of_not_hung hung (Nat.le_of_eq hsame.symm)]
        cases done
        · exact .inl unrung_fresh
        · exact .inr rung_completed
      · rw [if_neg (Ne.symm hsame), List.append_nil]
        exact told_congr (by rw [hsignals, if_neg hsame]) (by rw [hcalls]) ht
  | @befall other own signal after call notes hmove hsignal hbefalls hboard hcalls hhandles
      hwaiting hsaid =>
      subst hsaid
      rw [noted_of_map hact]
      by_cases hsame : other = number
      · subst hsame
        simp only [Told, hsignal] at ht
        rw [if_pos rfl, Told, hboard.here, hcalls, Function.update_self]
        exact ht.elim (unrung_befalls · hbefalls) fun hrung => .inr (rung_befalls hrung hbefalls)
      · rw [if_neg hsame, List.append_nil]
        refine told_congr (hboard.elsewhere number (Ne.symm hsame)) ?_ ht
        rw [hcalls, Function.update_of_ne (Ne.symm hsame)]

/-! ### Once a signal is done -/

/-- How many steps the call that has completed a signal has yet to make. -/
def due (number : Nat) (porch : Porch) : Nat := (porch.calls number).elim 0 Ringing.steps

/-- A signal that is done stays done, and the call that has completed it gets nearer to its end by
its own doing, and by that alone. -/
theorem befalls_done (hdone : signal.done = true)
    (hb : Befalls own signal call notes after later) :
    after.done = true ∧ later.elim 0 Ringing.steps + own.toNat = call.elim 0 Ringing.steps := by
  cases hb with
  | flip hpending | leave hpending _ | doze hpending =>
      rw [hpending] at hdone
      cases hdone
  | rouse | wake | finish => exact ⟨hdone, by simp [Ringing.steps, Nat.add_comm]⟩
  | _ => exact ⟨hdone, rfl⟩

theorem done_step (hung : porch.Hung) (hdone : porch.board.isDone number = true)
    (h : step move porch = some next) : next.board.isDone number = true ∧
      next.due number + (if move = .ring number then 1 else 0) = porch.due number := by
  obtain ⟨said, hact⟩ := exists_said h
  cases acts_of_act hung hact with
  | share hmove hboard hcalls =>
      rw [if_neg (hmove number), due, hcalls, hboard]
      exact ⟨hdone, rfl⟩
  | hang done hmove hboard hcalls =>
      have hold : number ≠ porch.board.signals.size :=
        Nat.ne_of_lt (SignalBoard.lt_size_of_isDone hdone)
      rw [if_neg (hmove ▸ nofun), due, hcalls, hboard, SignalBoard.isDone_hang, if_neg hold]
      exact ⟨hdone, rfl⟩
  | @befall other own signal after call notes hmove hsignal hbefalls hboard hcalls =>
      by_cases hsame : other = number
      · subst hsame
        rw [SignalBoard.isDone_of_some hsignal] at hdone
        obtain ⟨hafter, hdue⟩ := befalls_done hdone hbefalls
        rw [SignalBoard.isDone_of_some hboard.here, due, hcalls, Function.update_self]
        refine ⟨hafter, ?_⟩
        rw [due, ← hdue]
        cases own <;> simp [hmove]
      · have hother : move ≠ .ring number := fun hring => hsame ((hmove number).1 hring).1.symm
        rw [if_neg hother, SignalBoard.isDone, hboard.elsewhere number (Ne.symm hsame), due, hcalls,
          Function.update_of_ne (Ne.symm hsame)]
        exact ⟨hdone, rfl⟩

/-- Whatever is done after a completion, the call that made it comes to its end when it has made its
steps, and it makes no more. -/
theorem done_follow (hung : porch.Hung) (hdone : porch.board.isDone number = true)
    (h : Course.follow step moves porch = some last) :
    last.board.isDone number = true ∧
      last.due number + moves.count (.ring number) = porch.due number := by
  induction moves generalizing porch with
  | nil =>
      obtain rfl := Option.some.inj h
      exact ⟨hdone, rfl⟩
  | cons move moves ih =>
      obtain ⟨next, hmove, hrest⟩ := Course.follow_cons_eq_some.1 h
      obtain ⟨hnext, hstep⟩ := done_step hung hdone hmove
      obtain ⟨hlast, hlater⟩ := ih (hung_step hung hmove) hnext hrest
      refine ⟨hlast, ?_⟩
      rw [List.count_cons, ← hstep, ← hlater]
      simp [Nat.add_assoc]

/-- That call can always go on. -/
theorem exists_step_ring (h : porch.due number ≠ 0) :
    ∃ next, step (.ring number) porch = some next := by
  cases hcall : porch.calls number with
  | none => simp [due, hcall] at h
  | some call => exact ⟨_, by simp [step, act, hcall]; rfl⟩

/-- A thread that is awake and waits for a signal that is done passes. -/
theorem passes_of_done {wait : Waiting} (hwait : wait ∈ porch.waiting)
    (hdone : porch.board.isDone wait.signal = true)
    (hawake : porch.board.sleepers wait.signal = []) :
    ∃ next, act (.retry wait) porch = some ([(wait.signal, .waited wait.thread true)], next) ∧
      next.waiting = porch.waiting.erase wait := by
  obtain ⟨signal, hsignal⟩ := exists_signal (SignalBoard.lt_size_of_isDone hdone)
  rw [SignalBoard.isDone_of_some hsignal] at hdone
  have hpasses : (porch.board.wait wait.signal wait.thread).1 = true := by
    rw [(SignalBoard.wait_of_some wait.thread hsignal).1, OneShot.wait, if_pos hdone]
  rcases hlook : porch.board.wait wait.signal wait.thread with ⟨passed, board⟩
  rw [hlook] at hpasses
  obtain rfl : passed = true := hpasses
  refine ⟨{ porch with board, waiting := porch.waiting.erase wait }, ?_, rfl⟩
  simp [act, look, isAsleep, hawake, hwait, hlook]

/-! ### Whatever is done on a porch -/

/-- What was noted of a signal, and what is to come of it. -/
structure Kept (number : Nat) (story : List Note) (porch : Porch) : Prop where
  /-- Until the signal is done, every answer says so, no call has completed it and nobody
  is woken. -/
  pending : porch.board.isDone number = false → ∀ note ∈ story, note.isEarly = true
  /-- One call has completed a signal that is done.  All answers before that say that it is not
  done; all answers afterwards, those of further completions among them, say that it is. -/
  parted : porch.board.isDone number = true → Parted story
  /-- Every task that was told that the signal is not done is woken once when it is, or is still to
  be woken; no other task is. -/
  woken : ∀ waker,
    story.count (.woken waker) + ((porch.calls number).elim [] Ringing.wakers).count waker =
      if porch.board.isDone number = true ∧ .polled waker false ∈ story then 1 else 0
  /-- A signal that is done stays done, and the call that has completed it comes to its end by the
  steps that it has yet to make. -/
  lasting : porch.board.isDone number = true → ∀ {moves last},
    Course.follow step moves porch = some last →
      last.board.isDone number = true ∧
        last.due number + moves.count (.ring number) = porch.due number
  /-- Nothing keeps that call from going on. -/
  goesOn : porch.due number ≠ 0 → ∃ next, step (.ring number) porch = some next
  /-- Once that call has let the sleeping threads go, no thread sleeps, and those that wait pass. -/
  awake : porch.board.isDone number = true →
    (∀ wakers, porch.calls number ≠ some ⟨false, wakers⟩) →
      porch.board.sleepers number = [] ∧ ∀ wait ∈ porch.waiting, wait.signal = number →
        ∃ next, act (.retry wait) porch = some ([(number, .waited wait.thread true)], next) ∧
          next.waiting = porch.waiting.erase wait

/-- A signal is pending, with early notes only and no call to ring it, or it is done. -/
theorem early_or_rung (hung : porch.Hung) (ht : Told number story porch) :
    (porch.board.isDone number = false ∧ (∀ note ∈ story, note.isEarly = true) ∧
        porch.calls number = none) ∨
      ∃ signal, porch.board.signals[number]? = some signal ∧
        Rung story signal (porch.calls number) := by
  cases hsignal : porch.board.signals[number]? with
  | none =>
      have hnothing : story = [] := by rwa [Told, hsignal] at ht
      exact .inl ⟨by rw [SignalBoard.isDone, hsignal], hnothing ▸ List.forall_mem_nil _,
        calls_of_not_hung hung (Array.getElem?_eq_none_iff.1 hsignal)⟩
  | some signal =>
      simp only [Told, hsignal] at ht
      rcases ht with hunrung | hrung
      · exact .inl ⟨SignalBoard.isDone_of_some hsignal ▸ hunrung.pending, hunrung.early,
          hunrung.nobody⟩
      · exact .inr ⟨signal, rfl, hrung⟩

/-- The invariant says of a signal all that is to be said. -/
theorem kept_of_told (hung : porch.Hung) (ht : Told number story porch) :
    Kept number story porch := by
  rcases early_or_rung hung ht with ⟨hpending, hearly, hnobody⟩ | ⟨signal, hsignal, hrung⟩
  · have hnot : porch.board.isDone number ≠ true := Bool.eq_false_iff.1 hpending
    have hnone (waker : Nat) : story.count (.woken waker) = 0 :=
      List.count_eq_zero.2 fun hmem => by cases hearly _ hmem
    exact
      { pending := fun _ => hearly
        parted := fun hdone => absurd hdone hnot
        woken := fun waker => by simp [hnone, hnobody, hnot]
        lasting := fun hdone => absurd hdone hnot
        goesOn := exists_step_ring
        awake := fun hdone => absurd hdone hnot }
  · have hdone : porch.board.isDone number = true :=
      (SignalBoard.isDone_of_some hsignal).trans hrung.done
    have hnobody (hroused : ∀ wakers, porch.calls number ≠ some ⟨false, wakers⟩) :
        porch.board.sleepers number = [] :=
      (SignalBoard.sleepers_of_some hsignal).trans
        (by_contra fun hne => (hrung.asleep hne).elim hroused)
    exact
      { pending := fun hpending => absurd hdone (Bool.eq_false_iff.1 hpending)
        parted := fun _ => hrung.parted
        woken := fun waker => by simpa [hdone] using hrung.woken waker
        lasting := fun _ {_ _} h => done_follow hung hdone h
        goesOn := exists_step_ring
        awake := fun _ hroused => ⟨hnobody hroused, fun wait hwait hsame => by
          subst hsame
          exact passes_of_done hwait hdone (hnobody hroused)⟩ }

/-- Whatever is done with signals and in whatever order, each of them is completed once, by one
call, and that call rouses everybody who waits for it, and wakes every task once that asked in vain.
-/
theorem rouses_everybody_once (number : Nat) (h : Course.follow step moves {} = some porch) :
    Kept number (Course.gather step (noted number) moves {}) porch := by
  have hfirst : ({} : Porch).Hung ∧ Told number [] {} := ⟨⟨nofun, nofun, nofun⟩, rfl⟩
  obtain ⟨hung, ht⟩ := Course.follow_gathers
    (fun story porch => Hung porch ∧ Told number story porch)
    (fun ⟨hung, ht⟩ hmove => ⟨hung_step hung hmove, told_step hung ht hmove⟩) h hfirst
  exact kept_of_told hung ht

/-- Two signals, one of them done from the start.  Two tasks ask for the other one, one of them
through both of its handles, and two threads wait for it, when it is completed through a clone; a
third task asks before the others are woken, and somebody completes it again. -/
def visit : List Move :=
  [.hang false, .clone 0, .hang true, .poll 0 7, .poll 1 7, .poll 1 8, .wait 0 5 false,
    .wait 1 6 true, .complete 1, .poll 0 9, .ring 0, .retry ⟨5, 0, false⟩, .ring 0, .complete 0,
    .ring 0, .ring 0, .ask 1, .complete 2]

/-- The two tasks were woken once each, and the third one was not; one thread has still to look. -/
theorem visit_rouses_everybody :
    ∃ last, Course.follow step visit {} = some last ∧ last.due 0 = 0 ∧
      last.board.isDone 0 = true ∧ last.waiting = [⟨6, 0, true⟩] ∧
      (Course.gather step (noted 0) visit {}).filter (fun note =>
        note = .woken 7 ∨ note = .woken 8 ∨ note = .woken 9) = [.woken 7, .woken 8] ∧
      Kept 0 (Course.gather step (noted 0) visit {}) last := by
  refine ⟨_, rfl, ?_, ?_, ?_, ?_, rouses_everybody_once 0 rfl⟩
  · decide
  · decide
  · decide
  · decide

end Porch

end SplitFeed
