/-
# Threads that go on until they sleep

A settling lets the threads at a dock go on until a turn ends no call.  It does nothing that the
threads could not do by themselves: it is a course of retries, and what it answers is how the calls
ended on that course.  And it is not cut short.  Each turn but the last ends a call, so there are
turns enough for all calls under way; after the last one, nobody can go on.
-/
import SplitFeed.Proofs.Handoff.WakeUps

namespace SplitFeed.Dock

variable {α : Type} {queue after : HandoffQueue α} {dock next : Dock α} {thread : Nat}
  {call : DockCall α} {before calls rest : List (Nat × DockCall α)} {result : DockResult α}
  {turns : Nat}

/-- The thread whose call ended, and how. -/
def Note.answer? : Note α → Option (Nat × DockResult α)
  | ended thread _ result => some (thread, result)
  | producerWoken _ | consumerWoken => none

/-! ### One turn -/

theorem turn_of_asleep (h : isAsleep thread queue = true) :
    turn queue ((thread, call) :: rest) =
      ((turn queue rest).1, { (turn queue rest).2 with
        underWay := (thread, call) :: (turn queue rest).2.underWay }) := by
  simp [turn, h]

theorem turn_of_ends (hawake : isAsleep thread queue = false)
    (h : attempt thread call queue = (some result, after)) :
    turn queue ((thread, call) :: rest) =
      ((thread, result) :: (turn after rest).1, (turn after rest).2) := by
  simp [turn, hawake, h]

theorem turn_of_sleeps (hawake : isAsleep thread queue = false)
    (h : attempt thread call queue = (none, after)) :
    turn queue ((thread, call) :: rest) =
      ((turn after rest).1, { (turn after rest).2 with
        underWay := (thread, call) :: (turn after rest).2.underWay }) := by
  simp [turn, hawake, h]

/-- A call is answered, or still under way. -/
theorem turn_perm (queue : HandoffQueue α) (calls : List (Nat × DockCall α)) :
    ((turn queue calls).1.map Prod.fst ++ (turn queue calls).2.underWay.map Prod.fst).Perm
      (calls.map Prod.fst) := by
  induction calls generalizing queue with
  | nil => exact .nil
  | cons entry rest ih =>
      obtain ⟨thread, call⟩ := entry
      cases hasleep : isAsleep thread queue with
      | true =>
          rw [turn_of_asleep hasleep]
          exact List.perm_middle.trans ((ih queue).cons thread)
      | false =>
          rcases hattempt : attempt thread call queue with ⟨result, after⟩
          cases result with
          | some result =>
              rw [turn_of_ends hasleep hattempt]
              exact (ih after).cons thread
          | none =>
              rw [turn_of_sleeps hasleep hattempt]
              exact List.perm_middle.trans ((ih after).cons thread)

/-- A call that does not end puts its thread to sleep, and rouses nobody. -/
theorem asleep_of_attempt (h : attempt thread call queue = (none, after)) :
    isAsleep thread after = true ∧
      ∀ other, isAsleep other queue = true → isAsleep other after = true := by
  cases call with
  | put producer element =>
      unfold attempt at h
      obtain ⟨-, hput⟩ | ⟨-, -, hput⟩ | ⟨-, -, hput⟩ | ⟨-, -, hput⟩ :=
        queue.put_cases thread producer element <;> simp only [hput] at h <;> cases h
      simp only [isAsleep, Bool.or_eq_true, decide_eq_true_eq]
      exact ⟨.inl List.mem_concat_self,
        fun other hasleep => hasleep.imp_left (List.mem_append_left _)⟩
  | take =>
      unfold attempt at h
      obtain ⟨head, rest, -, htake⟩ | ⟨-, htake⟩ | ⟨-, htake⟩ | ⟨-, -, -, htake⟩ :=
        queue.take_cases thread <;> simp only [htake] at h <;> cases h
      simp only [isAsleep, Bool.or_eq_true, decide_eq_true_eq]
      exact ⟨.inr List.mem_concat_self,
        fun other hasleep => hasleep.imp_right (List.mem_append_left _)⟩

/-- After a turn that ended no call, all who have one under way are asleep: whoever slept was not
roused, and whoever tried fell asleep. -/
theorem asleep_of_turn (h : (turn queue calls).1 = []) :
    (∀ thread, isAsleep thread queue = true → isAsleep thread (turn queue calls).2.queue = true) ∧
      ∀ entry ∈ (turn queue calls).2.underWay,
        isAsleep entry.1 (turn queue calls).2.queue = true := by
  induction calls generalizing queue with
  | nil => exact ⟨fun _ hasleep => hasleep, fun _ hmem => (List.not_mem_nil hmem).elim⟩
  | cons entry rest ih =>
      obtain ⟨thread, call⟩ := entry
      cases hasleep : isAsleep thread queue with
      | true =>
          rw [turn_of_asleep hasleep] at h ⊢
          obtain ⟨hsleepers, hcalls⟩ := ih h
          exact ⟨hsleepers, List.forall_mem_cons.2 ⟨hsleepers thread hasleep, hcalls⟩⟩
      | false =>
          rcases hattempt : attempt thread call queue with ⟨result, after⟩
          cases result with
          | some result =>
              rw [turn_of_ends hasleep hattempt] at h
              cases h
          | none =>
              rw [turn_of_sleeps hasleep hattempt] at h ⊢
              obtain ⟨hsleepers, hcalls⟩ := ih h
              obtain ⟨hfalls, hstay⟩ := asleep_of_attempt hattempt
              exact ⟨fun other hother => hsleepers other (hstay other hother),
                List.forall_mem_cons.2 ⟨hsleepers thread hfalls, hcalls⟩⟩

/-- Without one thread's call, the calls of the others are left. -/
theorem filter_others (honce : ((before ++ (thread, call) :: rest).map Prod.fst).Nodup) :
    (before ++ (thread, call) :: rest).filter (·.1 != thread) = before ++ rest := by
  rw [List.map_append, List.map_cons, List.nodup_middle, ← List.map_append,
    List.nodup_cons] at honce
  have hothers : ∀ entry ∈ before ++ rest, (entry.1 != thread) = true := fun entry hmem => by
    have hthread : entry.1 ∈ (before ++ rest).map Prod.fst := List.mem_map_of_mem hmem
    simpa using fun hsame : entry.1 = thread => honce.1 (hsame ▸ hthread)
  rw [List.filter_append, List.filter_cons_of_neg (by simp), ← List.filter_append]
  exact List.filter_eq_self.2 hothers

/-- A thread that is awake can go on with its call, and what is noted is how that ended. -/
theorem retry_of_awake (dock : Dock α) (honce : (dock.underWay.map Prod.fst).Nodup)
    (hcall : (thread, call) ∈ dock.underWay) (hawake : isAsleep thread dock.queue = false) :
    step (.retry thread) dock = some (dock.retry thread call) ∧
      notes dock (.retry thread) = ending thread call dock.queue := by
  have hfound := find?_underWay honce hcall
  simp [step, notes, hfound, hawake]

/-- A turn is a course of retries: the threads that are awake when it comes to them go on with their
calls.  The calls that come before those of the turn stay under way. -/
theorem follow_turn (queue : HandoffQueue α) (before calls : List (Nat × DockCall α))
    (honce : ((before ++ calls).map Prod.fst).Nodup) :
    ∃ retries : List Nat,
      Course.follow step (retries.map .retry) ⟨queue, before ++ calls⟩ =
          some ⟨(turn queue calls).2.queue, before ++ (turn queue calls).2.underWay⟩ ∧
        (Course.gather step notes (retries.map .retry) ⟨queue, before ++ calls⟩).filterMap
          Note.answer? = (turn queue calls).1 := by
  induction calls generalizing before queue with
  | nil => exact ⟨[], rfl, rfl⟩
  | cons entry rest ih =>
      obtain ⟨thread, call⟩ := entry
      have hsplit : before ++ (thread, call) :: rest = (before ++ [(thread, call)]) ++ rest := by
        rw [List.append_assoc, List.singleton_append]
      cases hasleep : isAsleep thread queue with
      | true =>
          obtain ⟨retries, hfollow, hanswers⟩ :=
            ih queue (before ++ [(thread, call)]) (hsplit ▸ honce)
          refine ⟨retries, ?_, ?_⟩
          · rw [turn_of_asleep hasleep, hsplit, hfollow, List.append_assoc, List.singleton_append]
          · rw [turn_of_asleep hasleep, hsplit, hanswers]
      | false =>
          obtain ⟨hstep, hnotes⟩ :=
            retry_of_awake ⟨queue, before ++ (thread, call) :: rest⟩ honce
              (List.mem_append_right before List.mem_cons_self) hasleep
          rcases hattempt : attempt thread call queue with ⟨result, after⟩
          cases result with
          | some result =>
              have hends : retry thread call ⟨queue, before ++ (thread, call) :: rest⟩ =
                  ⟨after, before ++ rest⟩ := by
                simp only [retry, hattempt, filter_others honce]
              have hrest : ((before ++ rest).map Prod.fst).Nodup := by
                rw [← filter_others honce]
                exact honce.sublist (List.filter_sublist.map Prod.fst)
              obtain ⟨retries, hfollow, hanswers⟩ := ih after before hrest
              refine ⟨thread :: retries, ?_, ?_⟩
              · rw [List.map_cons, Course.follow_cons, hstep, hends, turn_of_ends hasleep hattempt]
                exact hfollow
              · rw [List.map_cons, Course.gather, hstep, hnotes, hends,
                  turn_of_ends hasleep hattempt, ending, hattempt, List.filterMap_append]
                exact congrArg ((thread, result) :: ·) hanswers
          | none =>
              have hsleeps : retry thread call ⟨queue, before ++ (thread, call) :: rest⟩ =
                  ⟨after, (before ++ [(thread, call)]) ++ rest⟩ := by
                simp only [retry, hattempt, hsplit]
              obtain ⟨retries, hfollow, hanswers⟩ :=
                ih after (before ++ [(thread, call)]) (hsplit ▸ honce)
              refine ⟨thread :: retries, ?_, ?_⟩
              · rw [List.map_cons, Course.follow_cons, hstep, hsleeps,
                  turn_of_sleeps hasleep hattempt]
                simpa using hfollow
              · rw [List.map_cons, Course.gather, hstep, hnotes, hsleeps,
                  turn_of_sleeps hasleep hattempt, ending, hattempt, List.filterMap_append]
                exact hanswers

/-! ### Turn after turn -/

theorem settleWithin_of_ends_none (h : (turn dock.queue dock.underWay).1 = []) :
    settleWithin (turns + 1) dock = ([], (turn dock.queue dock.underWay).2) := by
  rcases hturn : turn dock.queue dock.underWay with ⟨ended, next⟩
  rw [hturn] at h
  obtain rfl := h
  simp [settleWithin, hturn]

theorem settleWithin_of_ends (h : (turn dock.queue dock.underWay).1 ≠ []) :
    settleWithin (turns + 1) dock =
      ((turn dock.queue dock.underWay).1 ++
          (settleWithin turns (turn dock.queue dock.underWay).2).1,
        (settleWithin turns (turn dock.queue dock.underWay).2).2) := by
  rcases hturn : turn dock.queue dock.underWay with ⟨ended, next⟩
  rw [hturn] at h
  cases ended with
  | nil => exact absurd rfl h
  | cons answer answers => simp [settleWithin, hturn]

/-- A dock is settled if all who have a call under way are asleep. -/
theorem isSettled_of_asleep
    (h : ∀ entry ∈ dock.underWay, isAsleep entry.1 dock.queue = true) : dock.IsSettled := by
  intro thread
  simp only [step]
  split
  · next other call hfound =>
      obtain rfl : other = thread := by simpa using List.find?_some hfound
      rw [if_pos (h _ (List.mem_of_find?_eq_some hfound))]
  · rfl

/-- There are turns enough if they are more than the calls under way. -/
theorem isSettled_settleWithin (h : dock.underWay.length < turns) :
    (settleWithin turns dock).2.IsSettled := by
  induction turns generalizing dock with
  | zero => exact absurd h (Nat.not_lt_zero _)
  | succ turns ih =>
      by_cases hended : (turn dock.queue dock.underWay).1 = []
      · rw [settleWithin_of_ends_none hended]
        exact isSettled_of_asleep (asleep_of_turn hended).2
      · rw [settleWithin_of_ends hended]
        refine ih ?_
        have hlength := (turn_perm dock.queue dock.underWay).length_eq
        rw [List.length_append, List.length_map, List.length_map, List.length_map] at hlength
        have hpos := List.length_pos_of_ne_nil hended
        omega

/-- Several turns are a course of retries as well, and each call is answered or still under way. -/
theorem follow_settleWithin (turns : Nat) (h : Watchful dock) :
    (∃ retries : List Nat,
      Course.follow step (retries.map .retry) dock = some (settleWithin turns dock).2 ∧
        (Course.gather step notes (retries.map .retry) dock).filterMap Note.answer? =
          (settleWithin turns dock).1) ∧
    ((settleWithin turns dock).1.map Prod.fst ++
      (settleWithin turns dock).2.underWay.map Prod.fst).Perm (dock.underWay.map Prod.fst) := by
  induction turns generalizing dock with
  | zero => exact ⟨⟨[], rfl, rfl⟩, .refl _⟩
  | succ turns ih =>
      obtain ⟨retries, hfollow, hanswers⟩ : ∃ retries : List Nat,
          Course.follow step (retries.map .retry) dock = some (turn dock.queue dock.underWay).2 ∧
            (Course.gather step notes (retries.map .retry) dock).filterMap Note.answer? =
              (turn dock.queue dock.underWay).1 :=
        follow_turn dock.queue [] dock.underWay h.once
      have hperm := turn_perm dock.queue dock.underWay
      by_cases hended : (turn dock.queue dock.underWay).1 = []
      · rw [settleWithin_of_ends_none hended]
        rw [hended] at hanswers hperm
        exact ⟨⟨retries, hfollow, hanswers⟩, hperm⟩
      · rw [settleWithin_of_ends hended]
        obtain ⟨⟨later, hlater, hafter⟩, hleft⟩ :=
          ih (Course.follow_preserves Watchful watchful_step hfollow h)
        refine ⟨⟨retries ++ later, ?_, ?_⟩, ?_⟩
        · rw [List.map_append, Course.follow_append, hfollow]
          exact hlater
        · rw [List.map_append, Course.gather_append hfollow, List.filterMap_append, hanswers,
            hafter]
        · rw [List.map_append, List.append_assoc]
          exact (hleft.append_left _).trans hperm

/-- Whatever threads have done at a dock, a settling lets them go on with their calls, each as often
as it can, until nobody can.  It answers how the calls ended, each of them once; the others stay
under way, and for a reason: a producer is asleep because the queue is full and open and nobody has
woken it, a consumer because the queue is empty and open and nobody has woken it. -/
theorem settle_ends_settled (capacity : Nat) (moves : List (Move α))
    (h : Course.follow step moves (opened capacity) = some dock) :
    dock.settle.2.IsSettled ∧
    (∃ retries : List Nat,
      Course.follow step (retries.map .retry) dock = some dock.settle.2 ∧
        (Course.gather step notes (retries.map .retry) dock).filterMap Note.answer? =
          dock.settle.1) ∧
    (dock.settle.1.map Prod.fst ++ dock.settle.2.underWay.map Prod.fst).Perm
      (dock.underWay.map Prod.fst) ∧
    (∀ thread producer element, (thread, .put producer element) ∈ dock.settle.2.underWay →
      dock.settle.2.queue.items.length = dock.settle.2.queue.capacity ∧
        dock.settle.2.queue.closed = false ∧ producer ∉ dock.settle.2.queue.wokenProducers) ∧
    ∀ thread, (thread, .take) ∈ dock.settle.2.underWay →
      dock.settle.2.queue.items = [] ∧ dock.settle.2.queue.closed = false ∧
        dock.settle.2.queue.consumerWoken = false := by
  have hw : Watchful dock := Course.follow_preserves Watchful watchful_step h
    (watchful_opened capacity)
  obtain ⟨⟨retries, hfollow, hanswers⟩, hperm⟩ :=
    follow_settleWithin (dock.underWay.length + 1) hw
  have hsettled : dock.settle.2.IsSettled := isSettled_settleWithin (Nat.lt_succ_self _)
  have hafter : Watchful dock.settle.2 := Course.follow_preserves Watchful watchful_step hfollow hw
  exact ⟨hsettled, ⟨retries, hfollow, hanswers⟩, hperm,
    fun _ _ _ hcall => full_of_asleep hafter hcall (asleep_of_isSettled hsettled hcall),
    fun _ hcall => empty_of_isSettled hafter hsettled hcall⟩

end SplitFeed.Dock
