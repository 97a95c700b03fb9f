/-
# A supervisor in use

A workshop is a supervisor with its fetch threads, an owner, and everybody else who holds on to the
queue or to the controls of a fetcher.  The owner adds splits, retires fetchers, hears of failures,
closes the supervisor or lets it go.  Such a call is cut into tasks, and threads and others may come
between any two of them; the last thing that a call does which closes is to close the queue.

Others ask and nudge fetchers whenever they like.  What the owner asks of all fetchers in slots, as
to wake up, to let go of splits, to pause or to drain, is asked of one after the other, as anybody
might.  A nap whose time is up is one that was ended by a nudge.

Carrying out the tasks of a call without a gap is what the supervisor's own functions do.
-/
import SplitFeed.Proofs.Fetcher.Dismissal
import SplitFeed.Proofs.Handoff.Conservation
import SplitFeed.Proofs.Supervisor.Calls
import SplitFeed.Proofs.Supervisor.Staff

namespace SplitFeed

/-- A supervisor and the call under way.  `tasks` are left to do, `closing` tells that the queue is
to be closed after them, and `answer` is what the last call has come to so far. -/
structure Workshop (ρ : Type) where
  supervisor : Supervisor ρ
  tasks : List Task := []
  closing : Bool := false
  answer : Except Failure Unit := .ok ()

namespace Workshop

open Supervisor (Staffed Stride Performs Through)

variable {ρ : Type}

/-- The workshop of a supervisor that was just made. -/
def opened (capacity threads : Nat) (store : FileStore) (factory : Nat → Except Failure ρ) :
    Workshop ρ :=
  { supervisor := .create capacity threads store factory }

/-- What can happen in a workshop next. -/
inductive Move where
  /-- A fetcher's thread makes a step. -/
  | thread (fetcher : Nat) (disturbed : List Bool)
  /-- Somebody asks or nudges a fetcher. -/
  | errand (errand : Errand)
  /-- Somebody uses the queue. -/
  | queue (move : HandoffQueue.Move (SplitBatch Record))
  /-- The files change. -/
  | files (store : FileStore)
  /-- The owner hears of the oldest failure, if there is one. -/
  | hear
  /-- The owner begins to add splits. -/
  | addSplits (splits : List Split)
  /-- The owner begins to retire fetchers. -/
  | reap
  /-- The owner begins to close the supervisor. -/
  | close
  /-- The owner begins to let the supervisor go. -/
  | abandon
  /-- The owner goes on with the call. -/
  | work

/-- Whether the owner begins a call that is cut into tasks. -/
def Move.isCall : Move → Bool
  | addSplits _ | reap | close | abandon => true
  | _ => false

/-- The owner goes on with a call. -/
def working (count : Nat) : List Move := List.replicate count .work

/-- The thread of the first fetcher makes some steps. -/
def threads (count : Nat) : List Move := List.replicate count (.thread 0 [])

/-- Whether a call is under way. -/
def isBusy (shop : Workshop ρ) : Bool := !shop.tasks.isEmpty || shop.closing

/-- The tasks of adding splits. -/
def dealing (splits : List Split) (supervisor : Supervisor ρ) : List Task :=
  let slotCount := supervisor.slots.length
  (List.range slotCount).map fun slot =>
    .give slot (Supervisor.dealt slotCount supervisor.nextSlot slot splits)

/-- The tasks of retiring fetchers. -/
def reaping (supervisor : Supervisor ρ) : List Task :=
  (List.range supervisor.slots.length).map .sweep

/-- The tasks of saying farewell to everybody on the books. -/
def parting (supervisor : Supervisor ρ) : List Task :=
  supervisor.onBooks.flatMap fun id =>
    Supervisor.farewell.map fun request => .errand (.ask id request)

/-- The supervisor whose next deal goes on where the deal of some splits ends. -/
def dealtPast (splits : List Split) (supervisor : Supervisor ρ) : Supervisor ρ :=
  { supervisor with
    nextSlot := (supervisor.nextSlot + splits.length) % supervisor.slots.length }

/-- The supervisor with nobody on its books. -/
def cleared (supervisor : Supervisor ρ) : Supervisor ρ :=
  { supervisor with slots := supervisor.slots.map fun _ => none, retired := [] }

/-- What the owner does next in a call.  A task that fails ends the call. -/
def work [SplitReader ρ] (shop : Workshop ρ) : Option (Workshop ρ) :=
  match shop.tasks with
  | task :: later =>
    match shop.supervisor.perform task with
    | (.ok more, supervisor) => some { shop with supervisor, tasks := more ++ later }
    | (.error failure, supervisor) =>
      some { shop with supervisor, tasks := [], answer := .error failure }
  | [] =>
    if shop.closing then
      some { shop with
        supervisor := shop.supervisor.withQueue shop.supervisor.queue.close
        closing := false }
    else none

/-- The workshop after a move, if the move can be made.  A call begins when the one before is
over. -/
def step [SplitReader ρ] (move : Move) (shop : Workshop ρ) : Option (Workshop ρ) :=
  let supervisor := shop.supervisor
  match move with
  | .thread fetcher disturbed =>
    (supervisor.stepThread? fetcher disturbed).map fun supervisor => { shop with supervisor }
  | .errand errand => some { shop with supervisor := (supervisor.run errand).2 }
  | .queue move =>
    some { shop with supervisor := supervisor.withQueue (move.apply supervisor.queue) }
  | .files store =>
    some { shop with supervisor := { supervisor with depot := { supervisor.depot with store } } }
  | .hear => some { shop with supervisor := supervisor.takeFailure.2 }
  | .addSplits splits =>
    if shop.isBusy then none
    else some { shop with
      supervisor := dealtPast splits supervisor
      tasks := dealing splits supervisor
      answer := .ok () }
  | .reap =>
    if shop.isBusy then none else some { shop with tasks := reaping supervisor, answer := .ok () }
  | .close =>
    if shop.isBusy then none
    else some { shop with
      supervisor := cleared supervisor
      tasks := parting supervisor
      closing := true
      answer := .ok () }
  | .abandon =>
    if shop.isBusy then none
    else some { shop with tasks := parting supervisor, closing := true, answer := .ok () }
  | .work => shop.work

variable {shop next last : Workshop ρ} {move : Move} {moves : List Move} {f g : Fetcher ρ}

/-- A farewell goes to somebody on the books. -/
theorem errand_of_mem_parting {s : Supervisor ρ} {task : Task} (h : task ∈ parting s) :
    ∃ id ∈ s.onBooks, ∃ request, task = .errand (.ask id request) := by
  obtain ⟨id, hid, htask⟩ := List.mem_flatMap.1 h
  obtain ⟨request, -, rfl⟩ := List.mem_map.1 htask
  exact ⟨id, hid, request, rfl⟩

theorem not_busy (hfree : shop.isBusy = false) : shop.tasks = [] ∧ shop.closing = false := by
  simpa [isBusy] using hfree

variable [SplitReader ρ]

/-! ### Calls without a gap -/

/-- An owner whom nobody disturbs carries out the tasks of a call. -/
theorem follow_tasks {tasks : List Task} {result : Except Failure Unit × Supervisor ρ}
    (shop : Workshop ρ) (h : Through tasks shop.supervisor result) (htasks : shop.tasks = tasks)
    (hanswer : shop.answer = .ok ()) :
    ∃ count, Course.follow step (List.replicate count .work) shop =
      some { shop with supervisor := result.2, tasks := [], answer := result.1 } := by
  subst htasks
  obtain ⟨count, hcount⟩ := Supervisor.follow_through step .work
    (fun supervisor tasks => { shop with supervisor, tasks, answer := .ok () })
    (fun result => { shop with supervisor := result.2, tasks := [], answer := result.1 })
    (fun _ => rfl)
    (fun hperform => by simp only [step, work, hperform])
    (fun hperform => by simp only [step, work, hperform]) h
  refine ⟨count, ?_⟩
  rw [← hcount, ← hanswer]

/-- A call that has not failed comes to an end, if nobody comes between any more. -/
theorem exists_done (shop : Workshop ρ) (hanswer : shop.answer = .ok ()) :
    ∃ count ended, Course.follow step (working count) shop = some ended ∧
      ended.isBusy = false := by
  obtain ⟨result, h⟩ := Supervisor.exists_through shop.tasks shop.supervisor
  obtain ⟨count, hcount⟩ := follow_tasks shop h rfl hanswer
  cases hclosing : shop.closing with
  | false => exact ⟨count, _, hcount, by simp [isBusy, hclosing]⟩
  | true =>
      let emptied : Workshop ρ :=
        { shop with supervisor := result.2, tasks := [], answer := result.1 }
      let ended : Workshop ρ :=
        { emptied with
          supervisor := emptied.supervisor.withQueue emptied.supervisor.queue.close
          closing := false }
      have hshut : emptied.step .work = some ended := by
        simp [step, work, emptied, ended, hclosing]
      refine ⟨count + 1, ended, ?_, rfl⟩
      rw [working, List.replicate_add, Course.follow_append, hcount]
      exact Course.follow_cons_eq_some.2 ⟨ended, hshut, rfl⟩

/-- Splits that are added while nobody comes between are added by the supervisor's function. -/
theorem follow_addSplits (splits : List Split) (hfree : shop.isBusy = false) :
    ∃ count, Course.follow step (.addSplits splits :: List.replicate count .work) shop =
      some { shop with
        supervisor := (shop.supervisor.addSplits splits).2
        tasks := []
        answer := (shop.supervisor.addSplits splits).1 } := by
  let called : Workshop ρ := { shop with
    supervisor := dealtPast splits shop.supervisor
    tasks := dealing splits shop.supervisor
    answer := .ok () }
  have hstep : shop.step (.addSplits splits) = some called := by simp [step, hfree, called]
  obtain ⟨count, hcount⟩ := follow_tasks called (Supervisor.through_giveAll _ _ _) rfl rfl
  refine ⟨count, ?_⟩
  rw [Course.follow_cons, hstep]
  exact hcount

/-- So it is with retiring fetchers. -/
theorem follow_reap (hfree : shop.isBusy = false) :
    ∃ count, Course.follow step (.reap :: List.replicate count .work) shop =
      some { shop with supervisor := shop.supervisor.reap.2, tasks := [], answer := .ok () } := by
  let called : Workshop ρ :=
    { shop with tasks := reaping shop.supervisor, answer := .ok () }
  have hstep : shop.step .reap = some called := by simp [step, hfree, called]
  obtain ⟨count, hcount⟩ := follow_tasks called (Supervisor.through_reap _) rfl rfl
  refine ⟨count, ?_⟩
  rw [Course.follow_cons, hstep]
  exact hcount

/-- A call that closes ends with the queue. -/
theorem follow_parting (called : Workshop ρ) (htasks : called.tasks = parting shop.supervisor)
    (hclosing : called.closing = true) (hanswer : called.answer = .ok ()) :
    let dismissed := shop.supervisor.onBooks.foldl (fun supervisor id => supervisor.dismiss id)
      called.supervisor
    ∃ count, Course.follow step (List.replicate count .work) called =
      some { supervisor := dismissed.withQueue dismissed.queue.close } := by
  intro dismissed
  obtain ⟨count, hcount⟩ := follow_tasks called
    (Supervisor.through_farewells shop.supervisor.onBooks called.supervisor) htasks hanswer
  refine ⟨count + 1, ?_⟩
  rw [List.replicate_add, Course.follow_append, hcount]
  simp [step, work, hclosing, dismissed]

/-- With closing, up to where the threads are waited for. -/
theorem follow_close (hfree : shop.isBusy = false) :
    ∃ count, Course.follow step (.close :: List.replicate count .work) shop =
      some { supervisor := shop.supervisor.beginClose.2 } := by
  let called : Workshop ρ := { shop with
    supervisor := cleared shop.supervisor
    tasks := parting shop.supervisor
    closing := true
    answer := .ok () }
  have hstep : shop.step .close = some called := by simp [step, hfree, called]
  obtain ⟨count, hcount⟩ := follow_parting called rfl rfl rfl
  refine ⟨count, ?_⟩
  rw [Course.follow_cons, hstep]
  exact hcount

/-- And with letting the supervisor go. -/
theorem follow_abandon (hfree : shop.isBusy = false) :
    ∃ count, Course.follow step (.abandon :: List.replicate count .work) shop =
      some { supervisor := shop.supervisor.abandon } := by
  let called : Workshop ρ := { shop with
    tasks := parting shop.supervisor
    closing := true
    answer := .ok () }
  have hstep : shop.step .abandon = some called := by simp [step, hfree, called]
  obtain ⟨count, hcount⟩ := follow_parting called rfl rfl rfl
  refine ⟨count, ?_⟩
  rw [Course.follow_cons, hstep]
  exact hcount

/-! ### What a move does -/

/-- The moves, with what each of them makes of the workshop. -/
inductive Goes (shop : Workshop ρ) : Move → Workshop ρ → Prop
  | thread {f g e disturbed} (hf : f ∈ shop.supervisor.crew)
      (h : Stride disturbed f shop.supervisor.depot g e) :
      Goes shop (.thread f.id disturbed)
        { shop with supervisor := { shop.supervisor with depot := e }.replace g }
  | errand {errand more after} (h : Performs shop.supervisor (.errand errand) (.ok more) after) :
      Goes shop (.errand errand) { shop with supervisor := after }
  | queue {use} :
      Goes shop (.queue use) { shop with
        supervisor := shop.supervisor.withQueue (use.apply shop.supervisor.queue) }
  /-- The files change, or a failure is heard of. -/
  | beside {other depot} (hmove : (∃ store, other = .files store) ∨ other = .hear)
      (hqueue : depot.queue = shop.supervisor.queue) :
      Goes shop other { shop with supervisor := { shop.supervisor with depot } }
  | addSplits {splits} (hfree : shop.isBusy = false) :
      Goes shop (.addSplits splits) { shop with
        supervisor := dealtPast splits shop.supervisor
        tasks := dealing splits shop.supervisor
        answer := .ok () }
  | reap (hfree : shop.isBusy = false) :
      Goes shop .reap { shop with tasks := reaping shop.supervisor, answer := .ok () }
  | close (hfree : shop.isBusy = false) :
      Goes shop .close { shop with
        supervisor := cleared shop.supervisor
        tasks := parting shop.supervisor
        closing := true
        answer := .ok () }
  | abandon (hfree : shop.isBusy = false) :
      Goes shop .abandon { shop with
        tasks := parting shop.supervisor
        closing := true
        answer := .ok () }
  | task {task later more after} (htasks : shop.tasks = task :: later)
      (h : Performs shop.supervisor task (.ok more) after) :
      Goes shop .work { shop with supervisor := after, tasks := more ++ later }
  | fail {task later failure after} (htasks : shop.tasks = task :: later)
      (h : Performs shop.supervisor task (.error failure) after) :
      Goes shop .work { shop with supervisor := after, tasks := [], answer := .error failure }
  | shut (htasks : shop.tasks = []) (hclosing : shop.closing = true) :
      Goes shop .work { shop with
        supervisor := shop.supervisor.withQueue shop.supervisor.queue.close
        closing := false }

theorem goes_of_work (h : shop.step .work = some next) : Goes shop .work next := by
  simp only [step, work] at h
  split at h
  · next task later htasks =>
      have hperforms := Supervisor.performs task shop.supervisor
      split at h
      · next more after hresult =>
          obtain rfl := Option.some.inj h
          rw [hresult] at hperforms
          exact .task htasks hperforms
      · next failure after hresult =>
          obtain rfl := Option.some.inj h
          rw [hresult] at hperforms
          exact .fail htasks hperforms
  · next htasks =>
      simp only [Option.ite_none_right_eq_some, Option.some.injEq] at h
      obtain ⟨hclosing, rfl⟩ := h
      exact .shut htasks hclosing

theorem goes_of_step (h : shop.step move = some next) : Goes shop move next := by
  cases move with
  | thread id disturbed =>
      simp only [step, Option.map_eq_some_iff] at h
      obtain ⟨after, hstep, rfl⟩ := h
      obtain ⟨f, hf, rfl, g, e, hstride, rfl⟩ := Supervisor.stride_of_stepThread? hstep
      exact .thread hf hstride
  | errand errand =>
      obtain rfl := Option.some.inj h
      exact .errand (Supervisor.performs_errand errand shop.supervisor)
  | queue move =>
      obtain rfl := Option.some.inj h
      exact .queue
  | files store =>
      obtain rfl := Option.some.inj h
      exact .beside (.inl ⟨store, rfl⟩) rfl
  | hear =>
      obtain rfl := Option.some.inj h
      simp only [Supervisor.takeFailure]
      split <;> exact .beside (.inr rfl) rfl
  | work => exact goes_of_work h
  | addSplits | reap | close | abandon =>
      simp only [step, Option.ite_none_left_eq_some, Option.some.injEq, Bool.not_eq_true] at h
      obtain ⟨hfree, rfl⟩ := h
      first
        | exact .addSplits hfree
        | exact .reap hfree
        | exact .close hfree
        | exact .abandon hfree

/-! ### What becomes of a fetcher -/

/-- What a move makes of a fetcher: its thread makes a step, or somebody asks or nudges it, or
nothing happens to it. -/
inductive Becomes (shop : Workshop ρ) (move : Move) (f g : Fetcher ρ) : Prop
  | stride {disturbed e} (hmove : move = .thread f.id disturbed)
      (h : Stride disturbed f shop.supervisor.depot g e)
  | frees (hmove : ∀ disturbed, move ≠ .thread f.id disturbed) (h : f.Frees g)

theorem id_of_becomes (h : Becomes shop move f g) : g.id = f.id := by
  cases h with
  | stride _ h => exact (Supervisor.advanced_of_stride h).id
  | frees _ h => exact h.id

/-- A task changes a fetcher by asking or nudging it. -/
theorem frees_performs {s after : Supervisor ρ} {task : Task} {result : Except Failure (List Task)}
    (hs : s.Staffed) (h : Performs s task result after) (hf : f ∈ s.crew) :
    ∃ g ∈ after.crew, f.Frees g := by
  have hreplaced {asked changed : Fetcher ρ} (hasked : asked ∈ s.crew)
      (hfrees : asked.Frees changed) (depot : Depot) :
      ∃ g ∈ ({ s with depot }.replace changed).crew, f.Frees g := by
    by_cases hid : f.id = asked.id
    · obtain rfl := Supervisor.eq_of_id_eq hs.unique hf hasked hid
      exact ⟨changed, Supervisor.mem_replace_self (s := { s with depot }) hf hfrees.id, hfrees⟩
    · refine ⟨f, Supervisor.mem_replace_other (s := { s with depot }) hf ?_, {}⟩
      rwa [hfrees.id]
  cases h with
  | @ask asked request hasked => exact hreplaced hasked (Fetcher.frees_enact request asked) s.depot
  | @nudge asked nudge hasked => exact hreplaced hasked (Fetcher.frees_nudge nudge asked s.depot) _
  | man => exact ⟨f, List.mem_append_left _ hf, {}⟩
  | missing | skip | give | fail | spare | sweep => exact ⟨f, hf, {}⟩

/-- Every fetcher is still there after a move. -/
theorem exists_becomes (hs : shop.supervisor.Staffed) (h : Goes shop move next)
    (hf : f ∈ shop.supervisor.crew) : ∃ g ∈ next.supervisor.crew, Becomes shop move f g := by
  have hfreed {after : Supervisor ρ} (hmove : ∀ disturbed, move ≠ .thread f.id disturbed)
      (hfrees : ∃ g ∈ after.crew, f.Frees g) : ∃ g ∈ after.crew, Becomes shop move f g :=
    hfrees.imp fun _ ⟨hg, hfrees⟩ => ⟨hg, .frees hmove hfrees⟩
  cases h with
  | @thread stepped g e disturbed hstepped hstride =>
      have hid := (Supervisor.advanced_of_stride hstride).id
      by_cases hsame : f.id = stepped.id
      · obtain rfl := Supervisor.eq_of_id_eq hs.unique hf hstepped hsame
        exact ⟨g, Supervisor.mem_replace_self (s := { shop.supervisor with depot := e }) hf hid,
          .stride rfl hstride⟩
      · refine ⟨f, Supervisor.mem_replace_other (s := { shop.supervisor with depot := e }) hf
          (hid ▸ hsame), .frees (fun _ hmove => hsame ?_) {}⟩
        exact (Move.thread.inj hmove).1.symm
  | errand h | task _ h | fail _ h => exact hfreed nofun (frees_performs hs h hf)
  | beside hmove =>
      obtain ⟨_, rfl⟩ | rfl := hmove <;> exact hfreed nofun ⟨f, hf, {}⟩
  | queue | addSplits | reap | close | abandon | shut => exact hfreed nofun ⟨f, hf, {}⟩

/-- Whoever is there after a task was there before, or was just started. -/
theorem crew_performs {s after : Supervisor ρ} {task : Task} {result : Except Failure (List Task)}
    (h : Performs s task result after) (hg : g ∈ after.crew) :
    (∃ f ∈ s.crew, f.Frees g) ∨ (∃ slot splits, task = .give slot splits) ∧
      ∃ reader, g = ({ id := s.nextId, reader } : Fetcher ρ).beginLoop := by
  cases h with
  | @ask asked request hasked =>
      rcases Supervisor.mem_crew_replace hg with rfl | ⟨hold, -⟩
      · exact .inl ⟨asked, hasked, Fetcher.frees_enact request asked⟩
      · exact .inl ⟨g, hold, {}⟩
  | @nudge asked nudge hasked =>
      rcases Supervisor.mem_crew_replace hg with rfl | ⟨hold, -⟩
      · exact .inl ⟨asked, hasked, Fetcher.frees_nudge nudge asked s.depot⟩
      · exact .inl ⟨g, hold, {}⟩
  | @man slot splits reader =>
      rcases List.mem_append.1 hg with hold | hnew
      · exact .inl ⟨g, hold, {}⟩
      · exact .inr ⟨⟨slot, splits, rfl⟩, reader, List.mem_singleton.1 hnew⟩
  | missing | skip | give | fail | spare | sweep => exact .inl ⟨g, hg, {}⟩

/-- What holds of every new fetcher, and is kept by its thread, by requests and by nudges, holds of
all fetchers. -/
theorem forall_crew_asked {holds : Fetcher ρ → Prop}
    (hnew : ∀ id reader, holds ({ id, reader } : Fetcher ρ).beginLoop)
    (hstride : ∀ {f g disturbed d e}, holds f → Stride disturbed f d g e → holds g)
    (hask : ∀ {f : Fetcher ρ} (request : Request), holds f → holds (request.enact f).1)
    (hnudge : ∀ {f : Fetcher ρ} (nudge : Nudge) d, holds f → holds (nudge.apply f d).1)
    (hall : ∀ f ∈ shop.supervisor.crew, holds f) (h : Goes shop move next) :
    ∀ f ∈ next.supervisor.crew, holds f := by
  have hperforms {task : Task} {result : Except Failure (List Task)} {after : Supervisor ρ}
      (h : Performs shop.supervisor task result after) : ∀ f ∈ after.crew, holds f := by
    cases h with
    | missing | skip | give | fail | spare | sweep => exact hall
    | @ask f request hf => exact Supervisor.forall_crew_replace hall (hask request (hall f hf))
    | @nudge f nudge hf =>
        exact Supervisor.forall_crew_replace (s := { shop.supervisor with depot := _ }) hall
          (hnudge nudge _ (hall f hf))
    | man => exact List.forall_mem_append.2 ⟨hall, List.forall_mem_singleton.2 (hnew _ _)⟩
  cases h with
  | @thread f g e _ hf h =>
      exact Supervisor.forall_crew_replace (s := { shop.supervisor with depot := e }) hall
        (hstride (hall f hf) h)
  | errand h | task _ h | fail _ h => exact hperforms h
  | queue | beside | addSplits | reap | close | abandon | shut => exact hall

/-- What holds of every new fetcher, and is kept by its thread and by those who ask and nudge it,
holds of all fetchers. -/
theorem forall_crew_goes {holds : Fetcher ρ → Prop}
    (hnew : ∀ id reader, holds ({ id, reader } : Fetcher ρ).beginLoop)
    (hstride : ∀ {f g disturbed d e}, holds f → Stride disturbed f d g e → holds g)
    (hfrees : ∀ {f g : Fetcher ρ}, holds f → f.Frees g → holds g)
    (hall : ∀ f ∈ shop.supervisor.crew, holds f) (h : Goes shop move next) :
    ∀ f ∈ next.supervisor.crew, holds f :=
  forall_crew_asked hnew hstride (fun request hf => hfrees hf (Fetcher.frees_enact request _))
    (fun nudge d hf => hfrees hf (Fetcher.frees_nudge nudge _ d)) hall h

/-! ### Staff and tasks -/

/-- The supervisor is staffed, threads run cycle after cycle, and tasks fit the slots. -/
structure Orderly (shop : Workshop ρ) : Prop where
  staffed : shop.supervisor.Staffed
  runs : ∀ f ∈ shop.supervisor.crew, f.Runs
  fits : ∀ task ∈ shop.tasks, task.Fits shop.supervisor.slots.length

omit [SplitReader ρ] in
theorem orderly_opened (capacity threads : Nat) (store : FileStore)
    (factory : Nat → Except Failure ρ) : (opened capacity threads store factory).Orderly where
  staffed := Supervisor.staffed_create capacity threads store factory
  runs := List.forall_mem_nil _
  fits := List.forall_mem_nil _

theorem orderly_goes (ho : shop.Orderly) (h : Goes shop move next) : next.Orderly := by
  have hruns : ∀ f ∈ next.supervisor.crew, f.Runs :=
    forall_crew_goes Fetcher.runs_new Fetcher.runs_stride Fetcher.runs_of_frees ho.runs h
  obtain ⟨hs, -, hfits⟩ := ho
  cases h with
  | @thread f g e _ hf h =>
      exact ⟨Supervisor.staffed_replace hs hf (Supervisor.advanced_of_stride h).looping e, hruns,
        hfits⟩
  | errand h =>
      refine ⟨Supervisor.staffed_performs hs h, hruns, ?_⟩
      exact (Supervisor.slots_performs h).1 ▸ hfits
  | queue | beside | shut => exact ⟨Supervisor.staffed_congr hs rfl (Nat.le_refl _), hruns, hfits⟩
  | addSplits =>
      refine ⟨Supervisor.staffed_congr hs rfl (Nat.le_refl _), hruns, fun task htask => ?_⟩
      obtain ⟨slot, hslot, rfl⟩ := List.mem_map.1 htask
      exact List.mem_range.1 hslot
  | reap =>
      refine ⟨hs, hruns, fun task htask => ?_⟩
      obtain ⟨slot, -, rfl⟩ := List.mem_map.1 htask
      trivial
  | close | abandon =>
      refine ⟨Supervisor.staffed_congr hs rfl (Nat.le_refl _), hruns, fun task htask => ?_⟩
      obtain ⟨id, -, request, rfl⟩ := errand_of_mem_parting htask
      trivial
  | @task task later more after htasks h =>
      obtain ⟨hlength, hmore⟩ := Supervisor.slots_performs h
      refine ⟨Supervisor.staffed_performs hs h, hruns, fun other hother => ?_⟩
      rcases List.mem_append.1 hother with hnew | hold
      · exact hmore more rfl other hnew
      · exact hlength ▸ hfits other (htasks ▸ List.mem_cons_of_mem task hold)
  | fail _ h => exact ⟨Supervisor.staffed_performs hs h, hruns, List.forall_mem_nil _⟩

theorem orderly_step (ho : shop.Orderly) (h : shop.step move = some next) : next.Orderly :=
  orderly_goes ho (goes_of_step h)

/-! ### The queue -/

/-- A move makes one use of the queue at most. -/
theorem queue_goes (h : Goes shop move next) :
    next.supervisor.queue = shop.supervisor.queue ∨
      ∃ use : HandoffQueue.Move (SplitBatch Record),
        next.supervisor.queue = use.apply shop.supervisor.queue := by
  have hperforms {task : Task} {result : Except Failure (List Task)} {after : Supervisor ρ}
      (h : Performs shop.supervisor task result after) :
      after.queue = shop.supervisor.queue ∨ ∃ use : HandoffQueue.Move (SplitBatch Record),
        after.queue = use.apply shop.supervisor.queue := by
    cases h with
    | @nudge f nudge hf =>
        cases nudge with
        | wakePut => exact .inr ⟨.wakeProducer f.id, rfl⟩
        | rouse | requestWake | wakeReader => exact .inl rfl
    | missing | ask | skip | give | man | fail | spare | sweep => exact .inl rfl
  cases h with
  | @thread f g e _ hf h =>
      obtain hsame | ⟨batch, hput⟩ | hrings := Fetcher.queue_stride h
      · exact .inl hsame
      · exact .inr ⟨.put f.id f.id batch, hput⟩
      · exact .inr ⟨.notifyAvailable, hrings⟩
  | errand h | task _ h | fail _ h => exact hperforms h
  | @queue use => exact .inr ⟨use, rfl⟩
  | beside _ hqueue => exact .inl hqueue
  | addSplits | reap | close | abandon => exact .inl rfl
  | shut => exact .inr ⟨.close, rfl⟩

/-- A closed queue stays closed. -/
theorem closed_goes (hclosed : shop.supervisor.queue.closed = true) (h : Goes shop move next) :
    next.supervisor.queue.closed = true := by
  obtain hsame | ⟨use, huse⟩ := queue_goes h
  · rwa [hsame]
  · rw [huse]
    exact HandoffQueue.closed_apply hclosed

/-- The batch that a move puts into the queue. -/
def brought (shop : Workshop ρ) : Move → List (SplitBatch Record)
  | .thread fetcher _ =>
    (shop.supervisor.fetcher? fetcher).elim [] fun f => (f.handsOver shop.supervisor.depot).toList
  | .queue (.put _ _ batch) =>
    if shop.supervisor.queue.closed || !shop.supervisor.queue.hasRoom then [] else [batch]
  | _ => []

/-- The batch that a move takes out of the queue. -/
def taken (shop : Workshop ρ) : Move → List (SplitBatch Record)
  | .queue (.take thread) => (shop.supervisor.queue.take thread).1.element?.toList
  | .queue .poll => shop.supervisor.queue.poll.1.toList
  | _ => []

omit [SplitReader ρ] in
/-- Nothing is put into a closed queue. -/
theorem brought_of_closed (hclosed : shop.supervisor.queue.closed = true) (move : Move) :
    shop.brought move = [] := by
  unfold brought
  split
  · next id _ =>
      have hshut : shop.supervisor.depot.queue.closed = true := hclosed
      cases shop.supervisor.fetcher? id <;> simp [Fetcher.handsOver, hshut]
  · simp [hclosed]
  · rfl

theorem items_performs {s after : Supervisor ρ} {task : Task} {result : Except Failure (List Task)}
    (h : Performs s task result after) : after.queue.items = s.queue.items := by
  cases h with
  | @nudge f nudge hf => cases nudge <;> rfl
  | missing | ask | skip | give | man | fail | spare | sweep => rfl

omit [SplitReader ρ] in
/-- So it is with one use of the queue. -/
theorem balanced_use (shop : Workshop ρ) (use : HandoffQueue.Move (SplitBatch Record)) :
    shop.supervisor.queue.items ++ shop.brought (.queue use) =
      shop.taken (.queue use) ++ (use.apply shop.supervisor.queue).items := by
  have hhead (items : List (SplitBatch Record)) : items.head?.toList ++ items.tail = items := by
    cases items <;> rfl
  cases use with
  | put thread producer batch =>
      simp only [brought, taken, HandoffQueue.Move.apply, List.nil_append]
      obtain ⟨hclosed, h⟩ | ⟨hopen, hroom, h⟩ | ⟨hopen, hfull, h⟩ | ⟨hopen, hfull, h⟩ :=
        shop.supervisor.queue.put_cases thread producer batch <;> rw [h]
      · simp [hclosed]
      · simp [hopen, HandoffQueue.hasRoom, hroom]
      · simp [HandoffQueue.hasRoom, hfull]
      · simp [HandoffQueue.hasRoom, hfull]
  | take thread =>
      simp [brought, taken, HandoffQueue.Move.apply, HandoffQueue.take_head?,
        HandoffQueue.take_tail, hhead]
  | poll =>
      simp [brought, taken, HandoffQueue.Move.apply, HandoffQueue.poll_head?,
        HandoffQueue.poll_tail, hhead]
  | availability =>
      simp [brought, taken, HandoffQueue.Move.apply,
        shop.supervisor.queue.availability_same.1]
  | notifyAvailable | close | wakeProducer _ | wakeConsumer =>
      exact List.append_nil _

/-- What was in the queue, and what a move puts into it, is what the move takes out and what is in
the queue then. -/
theorem balanced_step (h : shop.step move = some next) :
    shop.supervisor.queue.items ++ shop.brought move =
      shop.taken move ++ next.supervisor.queue.items := by
  have hgoes := goes_of_step h
  cases move with
  | thread id disturbed =>
      simp only [step, Option.map_eq_some_iff] at h
      obtain ⟨after, hstep, rfl⟩ := h
      obtain ⟨f, hfound, g, e, hstride, rfl⟩ := Supervisor.found_of_stepThread? hstep
      simp only [brought, taken, hfound, Option.elim_some, List.nil_append]
      exact (Supervisor.advanced_of_stride hstride).items.symm
  | queue use =>
      obtain rfl := Option.some.inj h
      exact balanced_use shop use
  | errand =>
      cases hgoes with
      | errand hperforms => simpa [brought, taken] using (items_performs hperforms).symm
      | beside hmove => obtain ⟨_, h⟩ | h := hmove <;> cases h
  | work =>
      cases hgoes with
      | task _ hperforms | fail _ hperforms =>
          simpa [brought, taken] using (items_performs hperforms).symm
      | shut => exact List.append_nil _
      | beside hmove => obtain ⟨_, h⟩ | h := hmove <;> cases h
  | files | hear | addSplits | reap | close | abandon =>
      cases hgoes with
      | beside _ hqueue => exact (List.append_nil _).trans (congrArg _ hqueue.symm)
      | _ => exact List.append_nil _

theorem balanced_follow (h : Course.follow step moves shop = some last) :
    shop.supervisor.queue.items ++ Course.gather step brought moves shop =
      Course.gather step taken moves shop ++ last.supervisor.queue.items := by
  let held (shop : Workshop ρ) : List (SplitBatch Record) := shop.supervisor.queue.items
  have hbalanced {move : Move} {state after : Workshop ρ} (_ : True)
      (h : state.step move = some after) :
      held state ++ state.brought move = state.taken move ++ held after := balanced_step h
  exact Course.gather_balance (fun _ => True) (fun _ _ => trivial) hbalanced h trivial

/-- What is in a closed queue leaves it by being taken only. -/
theorem drained_follow (hclosed : shop.supervisor.queue.closed = true)
    (h : Course.follow step moves shop = some last) :
    shop.supervisor.queue.items =
      Course.gather step taken moves shop ++ last.supervisor.queue.items := by
  let held (shop : Workshop ρ) : List (SplitBatch Record) := shop.supervisor.queue.items
  have hbalanced {move : Move} {state after : Workshop ρ}
      (hclosed : state.supervisor.queue.closed = true) (h : state.step move = some after) :
      held state ++ [] = state.taken move ++ held after := by
    rw [← brought_of_closed hclosed move]
    exact balanced_step h
  have hall := Course.gather_balance (fun shop : Workshop ρ => shop.supervisor.queue.closed = true)
    (fun hclosed h => closed_goes hclosed (goes_of_step h)) hbalanced h hclosed
  rwa [Course.gather_nothing, List.append_nil] at hall

end Workshop

end SplitFeed
