/-
# Signals that many parties share

A porch is a board of signals with the handles to them that are about, any number to each signal,
and with what is under way there: threads that wait for a signal, and completions.  `complete` is
not done at one stroke.  Its section under the signal's lock settles what it answers, marks the
signal as done and takes the wakers out; then, without the lock, the call lets the sleeping threads
go and wakes the tasks one by one.  Anybody may do anything in between, also whoever is being woken.

What the calls answer, and which tasks they wake, is noted under the number of the signal.  Wakers
that wake the same task count as one.  `Befalls` lists what can happen to one signal, and
`acts_of_act` says that every move does one of these things to one signal, hangs up another one, or
makes another handle.
-/
import SplitFeed.Proofs.Course
import SplitFeed.Proofs.Signal.Board
import Mathlib.Logic.Function.Basic
import Mathlib.Tactic.MkIffOfInductiveProp

namespace SplitFeed

/-- What is left of a call that has marked a signal as done: whether it has let the sleeping threads
go, and the tasks that it has yet to wake. -/
structure Ringing where
  roused : Bool
  wakers : List Nat
deriving DecidableEq

/-- How many steps such a call has yet to make. -/
def Ringing.steps (call : Ringing) : Nat := (if call.roused then 0 else 1) + call.wakers.length + 1

/-- A thread that waits for a signal, for a limited time or not. -/
structure Waiting where
  thread : Nat
  signal : Nat
  timed : Bool
deriving DecidableEq

/-- A board of signals, the number of the signal that each handle stands for, the calls that
complete signals and those that wait for signals. -/
structure Porch where
  board : SignalBoard := {}
  handles : List Nat := []
  calls : Nat → Option Ringing := fun _ => none
  waiting : List Waiting := []

namespace Porch

/-- What a call on a signal answers or does. -/
inductive Note where
  /-- A call of `complete`, and whether it was the one that completed the signal. -/
  | completed (flipped : Bool)
  | polled (waker : Nat) (ready : Bool)
  | asked (done : Bool)
  /-- A wait has ended, and whether the signal was done then. -/
  | waited (thread : Nat) (done : Bool)
  | woken (waker : Nat)
deriving DecidableEq

/-- What can happen on a porch next. -/
inductive Move where
  /-- A signal is made, done from the start or not, with a handle to it. -/
  | hang (done : Bool)
  | clone (handle : Nat)
  /-- The section of a call that completes a signal. -/
  | complete (handle : Nat)
  /-- The call that has completed a signal goes on. -/
  | ring (signal : Nat)
  | poll (handle waker : Nat)
  | ask (handle : Nat)
  /-- A thread that does not wait yet begins to. -/
  | wait (handle thread : Nat) (timed : Bool)
  /-- A thread that is awake looks again at what it waits for. -/
  | retry (wait : Waiting)
  /-- A thread awakes without anybody having let it go. -/
  | stir (wait : Waiting)
  | timeOut (wait : Waiting)
deriving DecidableEq

/-- Whether a thread sleeps until a signal is done. -/
def isAsleep (wait : Waiting) (porch : Porch) : Bool :=
  wait.thread ∈ porch.board.sleepers wait.signal

/-- A thread looks at what it waits for. -/
def look (wait : Waiting) (porch : Porch) : List (Nat × Note) × Porch :=
  match porch.board.wait wait.signal wait.thread with
  | (true, board) => ([(wait.signal, .waited wait.thread true)], { porch with board })
  | (false, board) => ([], { porch with board, waiting := porch.waiting ++ [wait] })

/-- The call that has completed a signal lets the sleeping threads go, then wakes one task after the
other, and then returns. -/
def goOn (number : Nat) (porch : Porch) : Ringing → List (Nat × Note) × Porch
  | ⟨false, wakers⟩ =>
    ([], { porch with
      board := porch.board.rouse number
      calls := Function.update porch.calls number (some ⟨true, wakers⟩) })
  | ⟨true, waker :: wakers⟩ =>
    ([(number, .woken waker)],
      { porch with calls := Function.update porch.calls number (some ⟨true, wakers⟩) })
  | ⟨true, []⟩ => ([], { porch with calls := Function.update porch.calls number none })

/-- What a move answers or does, and the porch after it, if it can be made. -/
def act (move : Move) (porch : Porch) : Option (List (Nat × Note) × Porch) :=
  match move with
  | .hang done =>
    let (number, board) := porch.board.hang (if done then .completed else .fresh)
    some (if done then [(number, .completed true)] else [],
      { porch with board, handles := porch.handles ++ [number] })
  | .clone handle =>
    porch.handles[handle]?.map fun number =>
      ([], { porch with handles := porch.handles ++ [number] })
  | .complete handle =>
    porch.handles[handle]?.map fun number =>
      let (completion, board) := porch.board.flip number
      ([(number, .completed completion.flipped)],
        { porch with
          board
          calls := if completion.flipped then
              Function.update porch.calls number (some ⟨false, completion.woken⟩)
            else porch.calls })
  | .ring number => (porch.calls number).map (porch.goOn number)
  | .poll handle waker =>
    porch.handles[handle]?.map fun number =>
      let (ready, board) := porch.board.poll number waker
      ([(number, .polled waker ready)], { porch with board })
  | .ask handle =>
    porch.handles[handle]?.map fun number =>
      ([(number, .asked (porch.board.isDone number))], porch)
  | .wait handle thread timed =>
    if thread ∈ porch.waiting.map Waiting.thread then none
    else porch.handles[handle]?.map fun number => porch.look ⟨thread, number, timed⟩
  | .retry wait =>
    if wait ∈ porch.waiting ∧ porch.isAsleep wait = false then
      some ({ porch with waiting := porch.waiting.erase wait }.look wait)
    else none
  | .stir wait =>
    if wait ∈ porch.waiting then
      some ([], { porch with board := porch.board.letGo wait.signal wait.thread })
    else none
  | .timeOut wait =>
    if wait ∈ porch.waiting ∧ wait.timed = true then
      some ([(wait.signal, .waited wait.thread (porch.board.isDone wait.signal))],
        { porch with
          board := porch.board.letGo wait.signal wait.thread
          waiting := porch.waiting.erase wait })
    else none

/-- The porch after a move, if the move can be made. -/
def step (move : Move) (porch : Porch) : Option Porch := (act move porch).map Prod.snd

/-- What a move notes of a signal. -/
def noted (number : Nat) (porch : Porch) (move : Move) : List Note :=
  (act move porch).elim [] fun done =>
    (done.1.filter fun note => note.1 = number).map Prod.snd

/-! ### What can happen to a signal -/

/-- What can happen to a signal and to the call that has completed it, with what is noted then.  The
first argument tells whether it is that call's own doing. -/
inductive Befalls : Bool → OneShot → Option Ringing → List Note → OneShot → Option Ringing → Prop
  | flip {signal call} (hpending : signal.done = false) :
      Befalls false signal call [.completed true] { signal with done := true, wakers := [] }
        (some ⟨false, signal.wakers⟩)
  | late {signal call} (hdone : signal.done = true) :
      Befalls false signal call [.completed false] signal call
  | rouse {signal wakers} :
      Befalls true signal (some ⟨false, wakers⟩) [] { signal with sleepers := [] }
        (some ⟨true, wakers⟩)
  | wake {signal waker wakers} :
      Befalls true signal (some ⟨true, waker :: wakers⟩) [.woken waker] signal (some ⟨true, wakers⟩)
  | finish {signal} : Befalls true signal (some ⟨true, []⟩) [] signal none
  | leave {signal call waker} (hpending : signal.done = false) (hnew : waker ∉ signal.wakers) :
      Befalls false signal call [.polled waker false]
        { signal with wakers := signal.wakers ++ [waker] } call
  | leaveAgain {signal call waker} (hpending : signal.done = false)
      (hthere : waker ∈ signal.wakers) :
      Befalls false signal call [.polled waker false] signal call
  | ready {signal call waker} (hdone : signal.done = true) :
      Befalls false signal call [.polled waker true] signal call
  | ask {signal call} : Befalls false signal call [.asked signal.done] signal call
  | pass {signal call thread} (hdone : signal.done = true) :
      Befalls false signal call [.waited thread true] signal call
  | doze {signal call thread} (hpending : signal.done = false) :
      Befalls false signal call [] { signal with sleepers := signal.sleepers ++ [thread] } call
  | stir {signal call} (thread : Nat) :
      Befalls false signal call [] { signal with sleepers := signal.sleepers.erase thread } call
  | giveUp {signal call} (thread : Nat) :
      Befalls false signal call [.waited thread signal.done]
        { signal with sleepers := signal.sleepers.erase thread } call

/-- What a move does, and what it says: it makes another handle, it hangs up another signal, or
something befalls one of the signals. -/
inductive Acts (move : Move) (porch next : Porch) (said : List (Nat × Note)) : Prop
  | share (hmove : ∀ number, move ≠ .ring number) (hboard : next.board = porch.board)
      (hcalls : next.calls = porch.calls) (hhandles : next.handles ⊆ porch.handles)
      (hwaiting : next.waiting = porch.waiting) (hsaid : said = [])
  | hang (done : Bool) (hmove : move = .hang done)
      (hboard : next.board = (porch.board.hang (if done then .completed else .fresh)).2)
      (hcalls : next.calls = porch.calls)
      (hhandles : next.handles = porch.handles ++ [porch.board.signals.size])
      (hwaiting : next.waiting = porch.waiting)
      (hsaid : said =
        (if done then [.completed true] else []).map (porch.board.signals.size, ·))
  | befall {number own signal after call notes}
      (hmove : ∀ other, move = .ring other ↔ other = number ∧ own = true)
      (hsignal : porch.board.signals[number]? = some signal)
      (hbefalls : Befalls own signal (porch.calls number) notes after call)
      (hboard : SignalBoard.Replaces number after porch.board next.board)
      (hcalls : next.calls = Function.update porch.calls number call)
      (hhandles : next.handles = porch.handles)
      (hwaiting : ∀ wait ∈ next.waiting, wait ∈ porch.waiting ∨ wait.signal = number)
      (hsaid : said = notes.map (number, ·))

/-- Whatever is about on a porch belongs to a signal that hangs there. -/
@[mk_iff]
structure Hung (porch : Porch) : Prop where
  handles : ∀ number ∈ porch.handles, number < porch.board.signals.size
  calls : ∀ {number call}, porch.calls number = some call → number < porch.board.signals.size
  waiting : ∀ wait ∈ porch.waiting, wait.signal < porch.board.signals.size

variable {porch next : Porch} {move : Move} {said : List (Nat × Note)} {signal after : OneShot}
  {number : Nat} {notes : List Note}

theorem exists_signal (h : number < porch.board.signals.size) :
    ∃ signal, porch.board.signals[number]? = some signal :=
  ⟨_, Array.getElem?_eq_getElem h⟩

/-- Nobody rings a signal that was not made yet. -/
theorem calls_of_not_hung (hung : porch.Hung) (h : porch.board.signals.size ≤ number) :
    porch.calls number = none :=
  Option.eq_none_iff_forall_ne_some.2 fun _ hcall => Nat.not_lt.2 h (hung.calls hcall)

/-- What befalls a signal by anybody but the call that has completed it leaves that call alone, if
there is one. -/
theorem acts_befall (hmove : ∀ other, move ≠ .ring other)
    (hsignal : porch.board.signals[number]? = some signal)
    (hbefalls : Befalls false signal (porch.calls number) notes after (porch.calls number))
    (hboard : SignalBoard.Replaces number after porch.board next.board)
    (hcalls : next.calls = porch.calls) (hhandles : next.handles = porch.handles)
    (hwaiting : ∀ wait ∈ next.waiting, wait ∈ porch.waiting ∨ wait.signal = number)
    (hsaid : said = notes.map (number, ·)) : Acts move porch next said :=
  .befall (fun other => iff_of_false (hmove other) fun hown => Bool.false_ne_true hown.2)
    hsignal hbefalls hboard (hcalls.trans (Function.update_eq_self ..).symm) hhandles hwaiting
    hsaid

/-- The section of a completion completes a pending signal and leaves another one alone. -/
theorem acts_complete (hmove : ∀ other, move ≠ .ring other)
    (hsignal : porch.board.signals[number]? = some signal)
    {completion : OneShot.Completion} {board : SignalBoard}
    (hflip : porch.board.flip number = (completion, board)) :
    Acts move porch { porch with
        board
        calls := if completion.flipped then
            Function.update porch.calls number (some ⟨false, completion.woken⟩)
          else porch.calls }
      [(number, .completed completion.flipped)] := by
  obtain ⟨hanswer, hboard⟩ := SignalBoard.flip_of_some hsignal
  rw [hflip] at hanswer hboard
  cases hdone : signal.done with
  | true =>
      have hcomplete : signal.complete = (⟨false, []⟩, signal) := by simp [OneShot.complete, hdone]
      rw [hcomplete] at hanswer hboard
      subst hanswer
      exact acts_befall hmove hsignal (.late hdone) hboard rfl rfl (fun _ => .inl) rfl
  | false =>
      have hcomplete : signal.complete = (⟨true, signal.wakers⟩, { done := true }) := by
        simp [OneShot.complete, hdone]
      rw [hcomplete] at hanswer hboard
      subst hanswer
      exact .befall (fun other => iff_of_false (hmove other) fun hown => Bool.false_ne_true hown.2)
        hsignal (.flip hdone) hboard rfl rfl (fun _ => .inl) rfl

/-- A task that asks leaves its waker with a pending signal, unless it is there. -/
theorem acts_poll (waker : Nat) (hmove : ∀ other, move ≠ .ring other)
    (hsignal : porch.board.signals[number]? = some signal)
    {ready : Bool} {board : SignalBoard} (hpoll : porch.board.poll number waker = (ready, board)) :
    Acts move porch { porch with board } [(number, .polled waker ready)] := by
  obtain ⟨hanswer, hboard⟩ := SignalBoard.poll_of_some waker hsignal
  rw [hpoll] at hanswer hboard
  cases hdone : signal.done with
  | true =>
      have hpolled : signal.poll waker = (true, signal) := by simp [OneShot.poll, hdone]
      rw [hpolled] at hanswer hboard
      subst hanswer
      exact acts_befall hmove hsignal (.ready hdone) hboard rfl rfl (fun _ => .inl) rfl
  | false =>
      by_cases hthere : waker ∈ signal.wakers
      · have hpolled : signal.poll waker = (false, signal) := by simp [OneShot.poll, hdone, hthere]
        rw [hpolled] at hanswer hboard
        subst hanswer
        exact acts_befall hmove hsignal (.leaveAgain hdone hthere) hboard rfl rfl (fun _ => .inl)
          rfl
      · have hpolled : signal.poll waker =
            (false, { signal with wakers := signal.wakers ++ [waker] }) := by
          simp [OneShot.poll, hdone, hthere]
        rw [hpolled] at hanswer hboard
        subst hanswer
        exact acts_befall hmove hsignal (.leave hdone hthere) hboard rfl rfl (fun _ => .inl) rfl

/-- A thread that looks at a signal passes if it is done, and falls asleep if not. -/
theorem acts_look (wait : Waiting) {waiting : List Waiting} (hmove : ∀ other, move ≠ .ring other)
    (hwaiting : waiting ⊆ porch.waiting)
    (hsignal : porch.board.signals[wait.signal]? = some signal) :
    Acts move porch ({ porch with waiting }.look wait).2 ({ porch with waiting }.look wait).1 := by
  obtain ⟨hanswer, hboard⟩ := SignalBoard.wait_of_some wait.thread hsignal
  rcases hlook : porch.board.wait wait.signal wait.thread with ⟨passed, board⟩
  rw [hlook] at hanswer hboard
  simp only [look, hlook]
  cases hdone : signal.done with
  | true =>
      have hwait : signal.wait wait.thread = (true, signal) := by simp [OneShot.wait, hdone]
      rw [hwait] at hanswer hboard
      subst hanswer
      exact acts_befall hmove hsignal (.pass hdone) hboard rfl rfl
        (fun _ hmem => .inl (hwaiting hmem)) rfl
  | false =>
      have hwait : signal.wait wait.thread =
          (false, { signal with sleepers := signal.sleepers ++ [wait.thread] }) := by
        simp [OneShot.wait, hdone]
      rw [hwait] at hanswer hboard
      subst hanswer
      refine acts_befall hmove hsignal (.doze hdone) hboard rfl rfl (fun other hmem => ?_) rfl
      exact (List.mem_append.1 hmem).imp (hwaiting ·) fun hnew =>
        congrArg Waiting.signal (List.mem_singleton.1 hnew)

/-- What the call that has completed a signal does is its own doing. -/
theorem acts_ring {call : Ringing} {later : Option Ringing}
    (hsignal : porch.board.signals[number]? = some signal) (hcall : porch.calls number = some call)
    (hbefalls : Befalls true signal (some call) notes after later)
    (hboard : SignalBoard.Replaces number after porch.board next.board)
    (hcalls : next.calls = Function.update porch.calls number later)
    (hhandles : next.handles = porch.handles) (hwaiting : next.waiting = porch.waiting)
    (hsaid : said = notes.map (number, ·)) : Acts (.ring number) porch next said :=
  .befall (fun other => by simp [eq_comm]) hsignal (hcall ▸ hbefalls) hboard hcalls hhandles
    (fun _ hmem => .inl (hwaiting ▸ hmem)) hsaid

/-- The call that has completed a signal lets the sleeping threads go, wakes a task, or ends. -/
theorem acts_goOn {call : Ringing} (hsignal : porch.board.signals[number]? = some signal)
    (hcall : porch.calls number = some call) :
    Acts (.ring number) porch (porch.goOn number call).2 (porch.goOn number call).1 := by
  have hself := SignalBoard.replaces_self hsignal
  rcases call with ⟨_ | _, wakers⟩
  · exact acts_ring hsignal hcall .rouse (SignalBoard.replaces_rouse hsignal) rfl rfl rfl rfl
  · cases wakers with
    | nil => exact acts_ring hsignal hcall .finish hself rfl rfl rfl rfl
    | cons waker wakers => exact acts_ring hsignal hcall .wake hself rfl rfl rfl rfl

/-- Every move does one of the things on the list. -/
theorem acts_of_act (hung : porch.Hung) (h : act move porch = some (said, next)) :
    Acts move porch next said := by
  have hhandle {handle number : Nat} (h : porch.handles[handle]? = some number) :
      ∃ signal, porch.board.signals[number]? = some signal :=
    exists_signal (hung.handles number (List.mem_of_getElem? h))
  have hwaits {wait : Waiting} (h : wait ∈ porch.waiting) :
      ∃ signal, porch.board.signals[wait.signal]? = some signal :=
    exists_signal (hung.waiting wait h)
  cases move with
  | hang done =>
      obtain ⟨rfl, rfl⟩ : _ ∧ _ := by simpa [act] using h
      exact .hang done rfl rfl rfl rfl rfl (by cases done <;> rfl)
  | clone handle =>
      obtain ⟨number, hnumber, hnext⟩ := Option.map_eq_some_iff.1 h
      obtain ⟨rfl, rfl⟩ := Prod.mk.inj hnext
      have hmem := List.mem_of_getElem? hnumber
      exact .share (fun _ => nofun) rfl rfl (by simpa using hmem) rfl rfl
  | complete handle =>
      obtain ⟨number, hnumber, hnext⟩ := Option.map_eq_some_iff.1 h
      obtain ⟨rfl, rfl⟩ := Prod.mk.inj hnext
      obtain ⟨signal, hsignal⟩ := hhandle hnumber
      have hmove (other : Nat) : Move.complete handle ≠ .ring other := nofun
      exact acts_complete hmove hsignal rfl
  | ring number =>
      obtain ⟨call, hcall, hnext⟩ := Option.map_eq_some_iff.1 h
      obtain ⟨signal, hsignal⟩ := exists_signal (hung.calls hcall)
      simpa [hnext] using acts_goOn hsignal hcall
  | poll handle waker =>
      obtain ⟨number, hnumber, hnext⟩ := Option.map_eq_some_iff.1 h
      obtain ⟨rfl, rfl⟩ := Prod.mk.inj hnext
      obtain ⟨signal, hsignal⟩ := hhandle hnumber
      have hmove (other : Nat) : Move.poll handle waker ≠ .ring other := nofun
      exact acts_poll waker hmove hsignal rfl
  | ask handle =>
      obtain ⟨number, hnumber, hnext⟩ := Option.map_eq_some_iff.1 h
      obtain ⟨rfl, rfl⟩ := Prod.mk.inj hnext
      obtain ⟨signal, hsignal⟩ := hhandle hnumber
      rw [SignalBoard.isDone_of_some hsignal]
      exact acts_befall (fun _ => nofun) hsignal .ask (SignalBoard.replaces_self hsignal) rfl rfl
        (fun _ => .inl) rfl
  | wait handle thread timed =>
      obtain ⟨-, hsome⟩ := Option.ite_none_left_eq_some.1 h
      obtain ⟨number, hnumber, hnext⟩ := Option.map_eq_some_iff.1 hsome
      obtain ⟨signal, hsignal⟩ := hhandle hnumber
      have hmove (other : Nat) : Move.wait handle thread timed ≠ .ring other := nofun
      simpa [hnext] using acts_look ⟨thread, number, timed⟩ hmove (List.Subset.refl _) hsignal
  | retry wait =>
      obtain ⟨⟨hwait, -⟩, hsome⟩ := Option.ite_none_right_eq_some.1 h
      obtain ⟨signal, hsignal⟩ := hwaits hwait
      have hmove (other : Nat) : Move.retry wait ≠ .ring other := nofun
      have hfewer : porch.waiting.erase wait ⊆ porch.waiting := List.erase_subset
      simpa [Option.some.inj hsome] using acts_look wait hmove hfewer hsignal
  | stir wait =>
      obtain ⟨hwait, hsome⟩ := Option.ite_none_right_eq_some.1 h
      obtain ⟨rfl, rfl⟩ := Prod.mk.inj (Option.some.inj hsome)
      obtain ⟨signal, hsignal⟩ := hwaits hwait
      exact acts_befall (fun _ => nofun) hsignal (.stir wait.thread)
        (SignalBoard.replaces_letGo _ hsignal) rfl rfl (fun _ => .inl) rfl
  | timeOut wait =>
      obtain ⟨⟨hwait, -⟩, hsome⟩ := Option.ite_none_right_eq_some.1 h
      obtain ⟨rfl, rfl⟩ := Prod.mk.inj (Option.some.inj hsome)
      obtain ⟨signal, hsignal⟩ := hwaits hwait
      rw [SignalBoard.isDone_of_some hsignal]
      exact acts_befall (fun _ => nofun) hsignal (.giveUp wait.thread)
        (SignalBoard.replaces_letGo _ hsignal) rfl rfl
        (fun _ hmem => .inl (List.mem_of_mem_erase hmem)) rfl

/-- Whatever comes up on a porch belongs to a signal that hangs there. -/
theorem hung_of_acts (hung : porch.Hung) (h : Acts move porch next said) : next.Hung := by
  cases h with
  | share hmove hboard hcalls hhandles hwaiting =>
      rw [hung_iff, hboard, hcalls, hwaiting]
      exact ⟨fun number hmem => hung.handles number (hhandles hmem), hung.calls, hung.waiting⟩
  | hang done hmove hboard hcalls hhandles hwaiting =>
      have hsize : next.board.signals.size = porch.board.signals.size + 1 := by
        rw [hboard]
        exact Array.size_push ..
      rw [hung_iff, hsize, hcalls, hhandles, hwaiting]
      refine ⟨fun number hmem => ?_, fun hcall => Nat.lt_succ_of_lt (hung.calls hcall),
        fun wait hwait => Nat.lt_succ_of_lt (hung.waiting wait hwait)⟩
      rcases List.mem_append.1 hmem with hold | hnew
      · exact Nat.lt_succ_of_lt (hung.handles number hold)
      · exact List.mem_singleton.1 hnew ▸ Nat.lt_succ_self _
  | @befall number own signal after call notes hmove hsignal hbefalls hboard hcalls hhandles
      hwaiting =>
      obtain ⟨hnumber, -⟩ := Array.getElem?_eq_some_iff.1 hsignal
      rw [hung_iff, hboard.size, hcalls, hhandles]
      refine ⟨hung.handles, fun {other _} hcall => ?_, fun wait hwait => ?_⟩
      · by_cases hsame : other = number
        · exact hsame ▸ hnumber
        · rw [Function.update_of_ne hsame] at hcall
          exact hung.calls hcall
      · exact (hwaiting wait hwait).elim (hung.waiting wait) fun hsame => hsame ▸ hnumber

end Porch

end SplitFeed
