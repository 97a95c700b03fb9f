/-
# A supervisor among threads and a consumer

A floor is a supervisor with its fetch threads, somebody who polls the queue, and a caller.  The
caller adds splits, wakes everybody up and reaps, one call after the other.  Calls are cut into
tasks, and threads and polls may come between any two of them.

`polled` remembers the batches that were polled, oldest first, and `added` the splits that were
added.  Carrying out the tasks of a call without a gap is what the supervisor's own functions do.
-/
import SplitFeed.Proofs.Course
import SplitFeed.Proofs.Supervisor.Balance
import SplitFeed.Proofs.Supervisor.Calm
import Mathlib.Data.List.Perm.Basic

namespace SplitFeed

/-- A supervisor, what is left to do of the call under way, and what was polled and added so
far. -/
structure Floor where
  supervisor : Supervisor Backend
  tasks : List Task := []
  polled : List (SplitBatch Record) := []
  added : List Split := []

namespace Floor

/-- The floor of a supervisor that was just made. -/
def opened (capacity threads : Nat) (store : FileStore) (readers : Nat → Backend) : Floor :=
  { supervisor := .create capacity threads store fun built => .ok (readers built) }

/-- What can happen on a floor next. -/
inductive Move where
  /-- A fetcher's thread makes a step. -/
  | thread (fetcher : Nat) (disturbed : List Bool)
  /-- A nap is over. -/
  | timeOut (fetcher : Nat)
  /-- The consumer polls the queue. -/
  | poll
  /-- The caller goes on with its call. -/
  | work
  /-- The caller begins to add splits. -/
  | addSplits (splits : List Split)
  /-- The caller begins to wake up all fetchers in slots. -/
  | wakeAll (force : Bool)
  /-- The caller begins to retire fetchers. -/
  | reap

/-- The tasks of adding splits. -/
def dealing (splits : List Split) (supervisor : Supervisor Backend) : List Task :=
  let slotCount := supervisor.slots.length
  (List.range slotCount).map fun slot =>
    .give slot (Supervisor.dealt slotCount supervisor.nextSlot slot splits)

/-- The supervisor whose next deal goes on where the deal of some splits ends. -/
def dealtPast (splits : List Split) (supervisor : Supervisor Backend) : Supervisor Backend :=
  { supervisor with
    nextSlot := (supervisor.nextSlot + splits.length) % supervisor.slots.length }

/-- The tasks of waking up all fetchers in slots. -/
def waking (force : Bool) (supervisor : Supervisor Backend) : List Task :=
  supervisor.liveIds.map fun id => .errand (.ask id (.wakeUp force))

/-- The tasks of retiring fetchers. -/
def reaping (supervisor : Supervisor Backend) : List Task :=
  (List.range supervisor.slots.length).map .sweep

/-- The floor after a move, if the move can be made.  A call begins when the one before is over. -/
def step (move : Move) (floor : Floor) : Option Floor :=
  let supervisor := floor.supervisor
  match move with
  | .thread fetcher disturbed =>
    (supervisor.stepThread? fetcher disturbed).map fun supervisor => { floor with supervisor }
  | .timeOut fetcher =>
    (supervisor.fetcher? fetcher).map fun fetcher =>
      { floor with supervisor := supervisor.replace fetcher.timeOut }
  | .poll =>
    let (batch, queue) := supervisor.queue.poll
    some { floor with
      supervisor := supervisor.withQueue queue
      polled := floor.polled ++ batch.toList }
  | .work =>
    match floor.tasks with
    | [] => none
    | task :: later =>
      match supervisor.perform task with
      | (.ok more, supervisor) => some { floor with supervisor, tasks := more ++ later }
      | (.error _, supervisor) => some { floor with supervisor, tasks := [] }
  | .addSplits splits =>
    if floor.tasks.isEmpty then
      some { floor with
        supervisor := dealtPast splits supervisor
        tasks := dealing splits supervisor
        added := floor.added ++ splits }
    else none
  | .wakeAll force =>
    if floor.tasks.isEmpty then some { floor with tasks := waking force supervisor } else none
  | .reap =>
    if floor.tasks.isEmpty then some { floor with tasks := reaping supervisor } else none

/-! ### Dealing -/

/-- One place among many holds a thing that has one place. -/
theorem flatMap_one_place {β : Type} {place count : Nat} (item : β) (h : place < count) :
    ((List.range count).flatMap fun slot => if place = slot then [item] else []) = [item] := by
  induction count with
  | zero => exact absurd h (Nat.not_lt_zero _)
  | succ count ih =>
      rw [List.range_succ, List.flatMap_append, List.flatMap_singleton]
      by_cases hlast : place = count
      · have hnone : ((List.range count).flatMap fun slot =>
            if place = slot then [item] else []) = [] := by
          refine List.flatMap_eq_nil_iff.2 fun slot hslot => if_neg ?_
          have := List.mem_range.1 hslot
          omega
        rw [hnone, if_pos hlast, List.nil_append]
      · rw [ih (by omega), if_neg hlast, List.append_nil]

/-- Things sorted into as many places as there may be are all there. -/
theorem flatMap_sorted_perm {α β : Type} (place : α → Nat) (value : α → β) {count : Nat}
    (items : List α) (h : ∀ item ∈ items, place item < count) :
    ((List.range count).flatMap fun slot =>
      (items.filter (place · == slot)).map value).Perm (items.map value) := by
  induction items with
  | nil => simp
  | cons item items ih =>
      have hone := flatMap_one_place (value item) (h item List.mem_cons_self)
      have hsplit (slot : Nat) : ((item :: items).filter (place · == slot)).map value =
          (if place item = slot then [value item] else []) ++
            (items.filter (place · == slot)).map value := by
        by_cases hhere : place item = slot <;> simp [hhere]
      simp only [hsplit]
      refine (List.flatMap_append_perm _ _ _).symm.trans ?_
      rw [hone, List.map_cons, List.singleton_append]
      exact (ih fun other hother => h other (List.mem_cons_of_mem _ hother)).cons _

/-- What falls to a slot are some of the splits, in order. -/
theorem dealt_sublist (slotCount start slot : Nat) (splits : List Split) :
    (Supervisor.dealt slotCount start slot splits).Sublist splits := by
  have hsub := (List.filter_sublist (p := fun (entry : Split × Nat) =>
    (start + entry.2) % slotCount == slot) (l := splits.zipIdx)).map Prod.fst
  rwa [List.zipIdx_map_fst] at hsub

/-- Every split falls to some slot. -/
theorem dealt_perm {slotCount : Nat} (hslots : 0 < slotCount) (start : Nat) (splits : List Split) :
    ((List.range slotCount).flatMap fun slot =>
      Supervisor.dealt slotCount start slot splits).Perm splits := by
  have hperm := flatMap_sorted_perm
    (fun (entry : Split × Nat) => (start + entry.2) % slotCount) Prod.fst splits.zipIdx
    fun _ _ => Nat.mod_lt _ hslots
  rwa [List.zipIdx_map_fst] at hperm

theorem dealing_perm {supervisor : Supervisor Backend} (hslots : 0 < supervisor.slots.length)
    (splits : List Split) : ((dealing splits supervisor).flatMap Task.splits).Perm splits := by
  rw [dealing, List.flatMap_map]
  exact dealt_perm hslots supervisor.nextSlot splits

/-- Other calls give no splits away. -/
theorem waiting_waking (force : Bool) (supervisor : Supervisor Backend) :
    (waking force supervisor).flatMap Task.splits = [] := by
  simp [waking, Task.splits]

theorem waiting_reaping (supervisor : Supervisor Backend) :
    (reaping supervisor).flatMap Task.splits = [] := by
  simp [reaping, Task.splits]

/-! ### What every move keeps -/

variable {store : FileStore} {sort : ReaderSort} {id : String} {floor next : Floor} {move : Move}
  {lost : List (Option Record)}

/-- The splits that were added can be told apart, suit the readers and can be read. -/
structure Proper (store : FileStore) (sort : ReaderSort) (added : List Split) : Prop where
  once : (added.map Split.id).Nodup
  fit : ∀ split ∈ added, split.sort = sort ∧ split.IsReadable store

theorem proper_of_append {added more : List Split} (h : Proper store sort (added ++ more)) :
    Proper store sort added :=
  ⟨h.once.sublist ((List.sublist_append_left added more).map Split.id),
    fun split hmem => h.fit split (List.mem_append_left _ hmem)⟩

/-- Nothing goes wrong on a floor, and the caller gives away only splits that were added. -/
structure Orderly (store : FileStore) (sort : ReaderSort) (floor : Floor) : Prop where
  sound : floor.supervisor.Sound store sort
  files : floor.supervisor.depot.store = store
  slots : 0 < floor.supervisor.slots.length
  agenda : floor.supervisor.Agenda store sort floor.tasks
  asked : ∀ task ∈ floor.tasks, task.splits.Sublist floor.added

/-- The books of a floor on one split. -/
def Balanced (store : FileStore) (id : String) (lost : List (Option Record)) (floor : Floor) :
    Prop :=
  floor.supervisor.Balanced store id floor.polled (floor.tasks.flatMap Task.splits) floor.added lost

/-- A thread forsakes its splits. -/
def Forsakes (floor : Floor) : Move → Prop
  | .thread fetcher _ => ∃ f ∈ floor.supervisor.crew, f.id = fetcher ∧ f.Forsakes
  | _ => False

/-- A thread raises the idle flag over the heads of splits. -/
def Hasty (floor : Floor) : Move → Prop
  | .thread fetcher _ => ∃ f ∈ floor.supervisor.crew, f.id = fetcher ∧ f.IsHasty
  | _ => False

instance (floor : Floor) (move : Move) : Decidable (floor.Hasty move) :=
  match move with
  | .thread id _ =>
    inferInstanceAs (Decidable (∃ f ∈ floor.supervisor.crew, f.id = id ∧ f.IsHasty))
  | .timeOut _ | .poll | .work | .addSplits _ | .wakeAll _ | .reap => isFalse not_false

theorem steady_of_orderly (ho : floor.Orderly store sort) : floor.supervisor.Steady store :=
  fun f _ disturbed => by rw [ho.files]

/-- The end of a nap is a nudge that nobody asked for. -/
theorem timeOut_eq_nudge {fetcher : Nat} (h : floor.step (.timeOut fetcher) = some next) :
    next = { floor with supervisor := (floor.supervisor.run (.nudge fetcher .rouse)).2 } := by
  simp only [step, Option.map_eq_some_iff] at h
  obtain ⟨f, hfound, rfl⟩ := h
  simp only [Supervisor.run, hfound]
  rfl

/-- A poll shortens the queue by what it takes. -/
theorem eq_of_poll (h : floor.step .poll = some next) :
    next = { floor with
      supervisor := floor.supervisor.withQueue floor.supervisor.queue.poll.2
      polled := floor.polled ++ floor.supervisor.queue.poll.1.toList } :=
  (Option.some.inj h).symm

/-- What was added stays added. -/
theorem added_step (h : floor.step move = some next) :
    ∃ more, next.added = floor.added ++ more := by
  cases move with
  | thread | timeOut =>
      simp only [step, Option.map_eq_some_iff] at h
      obtain ⟨_, -, rfl⟩ := h
      exact ⟨[], (List.append_nil _).symm⟩
  | poll =>
      obtain rfl := eq_of_poll h
      exact ⟨[], (List.append_nil _).symm⟩
  | work =>
      simp only [step] at h
      split at h
      · cases h
      · split at h <;> obtain rfl := Option.some.inj h <;> exact ⟨[], (List.append_nil _).symm⟩
  | addSplits splits =>
      simp only [step, Option.ite_none_right_eq_some, Option.some.injEq] at h
      obtain ⟨-, rfl⟩ := h
      exact ⟨splits, rfl⟩
  | wakeAll | reap =>
      simp only [step, Option.ite_none_right_eq_some, Option.some.injEq] at h
      obtain ⟨-, rfl⟩ := h
      exact ⟨[], (List.append_nil _).symm⟩

/-- A poll takes the oldest batch, if there is one. -/
theorem poll_cases (queue : HandoffQueue (SplitBatch Record)) :
    (queue.poll.1 = none ∧ queue.poll.2 = queue) ∨
      ∃ batch, queue.poll.1 = some batch ∧ queue.items = batch :: queue.poll.2.items ∧
        queue.poll.2.closed = queue.closed := by
  cases hitems : queue.items with
  | nil => simp [HandoffQueue.poll_nil hitems]
  | cons batch rest => exact .inr ⟨batch, by simp [HandoffQueue.poll_cons hitems]⟩

/-- The tasks of a call are fair whoever is in the slots. -/
theorem timeless_calls (supervisor : Supervisor Backend) :
    (∀ splits, (∀ split ∈ splits, split.sort = sort ∧ split.IsReadable store) →
      ∀ task ∈ dealing splits supervisor,
        task.IsTimeless store sort supervisor.slots.length) ∧
      (∀ force, ∀ task ∈ waking force supervisor,
        task.IsTimeless store sort supervisor.slots.length) ∧
      ∀ task ∈ reaping supervisor, task.IsTimeless store sort supervisor.slots.length := by
  refine ⟨fun splits hfit task htask => ?_, fun force task htask => ?_, fun task htask => ?_⟩
  · obtain ⟨slot, hslot, rfl⟩ := List.mem_map.1 htask
    exact ⟨List.mem_range.1 hslot, fun split hmem =>
      hfit split ((dealt_sublist _ _ _ _).subset hmem)⟩
  · obtain ⟨id, -, rfl⟩ := List.mem_map.1 htask
    exact ⟨trivial, by simp, by simp⟩
  · obtain ⟨slot, -, rfl⟩ := List.mem_map.1 htask
    trivial

/-- On a sound floor every task of a call succeeds. -/
theorem work_cases (hs : floor.supervisor.Sound store sort)
    (hagenda : floor.supervisor.Agenda store sort floor.tasks)
    (h : floor.step .work = some next) :
    ∃ task later, floor.tasks = task :: later ∧ ∃ more,
      (floor.supervisor.perform task).1 = .ok more ∧
        next = { floor with
          supervisor := (floor.supervisor.perform task).2
          tasks := more ++ later } := by
  simp only [step] at h
  split at h
  · cases h
  · next task later htasks =>
      rw [htasks] at hagenda
      obtain ⟨more, hmore, -⟩ := Supervisor.sound_perform hs hagenda.1
      refine ⟨task, later, htasks, more, hmore, ?_⟩
      split at h
      · next more' after hperform =>
          rw [hperform] at hmore ⊢
          obtain rfl := Except.ok.inj hmore
          exact (Option.some.inj h).symm
      · next failure after hperform =>
          rw [hperform] at hmore
          cases hmore

theorem orderly_step (ho : floor.Orderly store sort) (hproper : Proper store sort next.added)
    (h : floor.step move = some next) : next.Orderly store sort := by
  obtain ⟨hsound, hfiles, hslots, hagenda, hasked⟩ := ho
  cases move with
  | thread fetcher disturbed =>
      simp only [step, Option.map_eq_some_iff] at h
      obtain ⟨after, hstep, rfl⟩ := h
      obtain ⟨hsame, hstore⟩ := Supervisor.frame_of_stepThread? hstep
      refine ⟨Supervisor.sound_thread hsound (fun f _ _ => by rw [hfiles]) hstep,
        hstore.trans hfiles, hsame ▸ hslots, Supervisor.agenda_congr hsame hagenda, hasked⟩
  | timeOut fetcher =>
      obtain rfl := timeOut_eq_nudge h
      have hfair : (Errand.nudge fetcher .rouse).IsFair store sort floor.supervisor := trivial
      obtain ⟨hafter, hsame, -⟩ := Supervisor.sound_run hsound hfair
      exact ⟨hafter, (Supervisor.store_run _ _).trans hfiles, hsame ▸ hslots,
        Supervisor.agenda_congr hsame hagenda, hasked⟩
  | poll =>
      obtain rfl := eq_of_poll h
      refine ⟨Supervisor.sound_congr hsound rfl rfl rfl rfl ?_, hfiles, hslots,
        Supervisor.agenda_congr rfl hagenda, hasked⟩
      rcases poll_cases floor.supervisor.queue with ⟨-, hqueue⟩ | ⟨_, -, -, hclosed⟩
      · exact (congrArg HandoffQueue.closed hqueue).trans hsound.isOpen
      · exact hclosed.trans hsound.isOpen
  | work =>
      obtain ⟨task, later, htasks, more, hmore, rfl⟩ := work_cases hsound hagenda h
      rw [htasks] at hagenda hasked
      obtain ⟨more', hmore', hafter, hlength, hagenda', hgives⟩ :=
        Supervisor.sound_perform hsound hagenda.1
      obtain rfl := Except.ok.inj (hmore.symm.trans hmore')
      refine ⟨hafter, (Supervisor.store_perform _ _).trans hfiles, hlength ▸ hslots,
        Supervisor.agenda_append hagenda' (hlength ▸ hagenda.2), ?_⟩
      intro other hother
      rcases List.mem_append.1 hother with hnew | hold
      · exact (hgives other hnew).trans (hasked task List.mem_cons_self)
      · exact hasked other (List.mem_cons_of_mem _ hold)
  | addSplits splits =>
      simp only [step, Option.ite_none_right_eq_some, Option.some.injEq] at h
      obtain ⟨-, rfl⟩ := h
      refine ⟨Supervisor.sound_congr hsound rfl rfl rfl rfl hsound.isOpen, hfiles, hslots,
        Supervisor.agenda_of_timeless ((timeless_calls floor.supervisor).1 splits fun split hmem =>
          hproper.fit split (List.mem_append_right _ hmem)), fun task htask => ?_⟩
      obtain ⟨slot, -, rfl⟩ := List.mem_map.1 htask
      exact (dealt_sublist _ _ _ _).trans (List.sublist_append_right _ _)
  | wakeAll force =>
      simp only [step, Option.ite_none_right_eq_some, Option.some.injEq] at h
      obtain ⟨-, rfl⟩ := h
      refine ⟨hsound, hfiles, hslots,
        Supervisor.agenda_of_timeless ((timeless_calls floor.supervisor).2.1 force), ?_⟩
      intro task htask
      obtain ⟨id, -, rfl⟩ := List.mem_map.1 htask
      exact List.nil_sublist _
  | reap =>
      simp only [step, Option.ite_none_right_eq_some, Option.some.injEq] at h
      obtain ⟨-, rfl⟩ := h
      refine ⟨hsound, hfiles, hslots,
        Supervisor.agenda_of_timeless (timeless_calls floor.supervisor).2.2, ?_⟩
      intro task htask
      obtain ⟨slot, -, rfl⟩ := List.mem_map.1 htask
      exact List.nil_sublist _

/-- The books stay balanced.  A move that forsakes splits loses something of one of them, and
other moves lose nothing. -/
theorem balanced_step (ho : floor.Orderly store sort) (hproper : Proper store sort next.added)
    (h : floor.step move = some next) :
    ∃ loss : String → List (Option Record),
      (∀ id lost, floor.Balanced store id lost → next.Balanced store id (loss id ++ lost)) ∧
        ((∀ id, ∃ lost, floor.Balanced store id lost) →
          ((∃ id, loss id ≠ []) ↔ floor.Forsakes move)) := by
  have hsteady := steady_of_orderly ho
  obtain ⟨hsound, hfiles, hslots, hagenda, hasked⟩ := ho
  have hnothing (hkept : ∀ id lost, floor.Balanced store id lost → next.Balanced store id lost)
      (hmove : ¬ floor.Forsakes move) :
      ∃ loss : String → List (Option Record),
        (∀ id lost, floor.Balanced store id lost → next.Balanced store id (loss id ++ lost)) ∧
          ((∀ id, ∃ lost, floor.Balanced store id lost) →
            ((∃ id, loss id ≠ []) ↔ floor.Forsakes move)) :=
    ⟨fun _ => [], hkept, fun _ => by simp [hmove]⟩
  cases move with
  | thread fetcher disturbed =>
      simp only [step, Option.map_eq_some_iff] at h
      obtain ⟨after, hstep, rfl⟩ := h
      obtain ⟨f, hf, g, hid, ⟨e, hstride⟩, hbalanced⟩ :=
        Supervisor.balanced_thread hsound.faithful hsound.isOpen hsteady hstep
      refine ⟨fun id => Supervisor.strideLoss store id f g,
        fun id lost hb => hbalanced id _ _ _ lost hb, fun hbooks => ?_⟩
      have hreliable := Supervisor.reliable_stride (hsound.reliable f hf) hsound.isOpen
        (hsteady f hf disturbed) hstride
      have ha (id : String) : f.Accountable store id := by
        obtain ⟨lost, hb⟩ := hbooks id
        exact hb.accountable f hf
      rw [Supervisor.exists_strideLoss_iff (hsound.reliable f hf) hreliable ha hstride]
      constructor
      · exact fun hforsakes => ⟨f, hf, hid, hforsakes⟩
      · rintro ⟨other, hother, hsame, hforsakes⟩
        rwa [Supervisor.eq_of_id_eq hsound.unique hf hother (hid.trans hsame.symm)]
  | timeOut fetcher =>
      obtain rfl := timeOut_eq_nudge h
      have hfair : (Errand.nudge fetcher .rouse).IsFair store sort floor.supervisor := trivial
      exact hnothing (fun id lost hb => Supervisor.balanced_run hb trivial)
        not_false
  | poll =>
      obtain rfl := eq_of_poll h
      refine hnothing (fun id lost hb => ?_) not_false
      unfold Balanced at hb ⊢
      rcases poll_cases floor.supervisor.queue with ⟨hnone, hqueue⟩ | ⟨batch, hsome, hitems, -⟩
      · rw [hnone, Option.toList_none, List.append_nil]
        exact Supervisor.balanced_congr hb rfl (congrArg HandoffQueue.items hqueue)
      · rw [hsome]
        exact Supervisor.balanced_poll hb rfl hitems rfl
  | work =>
      obtain ⟨task, later, htasks, more, hmore, rfl⟩ := work_cases hsound hagenda h
      rw [htasks] at hagenda hasked
      refine hnothing (fun id lost hb => ?_) not_false
      unfold Balanced at hb ⊢
      rw [htasks, List.flatMap_cons] at hb
      rw [List.flatMap_append]
      exact Supervisor.balanced_perform hsound hagenda.1 hproper.once
        (hasked task List.mem_cons_self) hmore hb
  | addSplits splits =>
      simp only [step, Option.ite_none_right_eq_some, Option.some.injEq, List.isEmpty_iff] at h
      obtain ⟨hnone, rfl⟩ := h
      refine hnothing (fun id lost hb => ?_) not_false
      unfold Balanced at hb ⊢
      rw [hnone] at hb
      have honce : (splits.map Split.id).Nodup :=
        hproper.once.sublist ((List.sublist_append_right _ _).map Split.id)
      have hasked := Supervisor.balanced_ask splits hb
      exact Supervisor.balanced_waiting (Supervisor.balanced_congr hasked rfl rfl)
        (Split.due_perm honce (dealing_perm hslots splits).symm)
  | wakeAll force | reap =>
      simp only [step, Option.ite_none_right_eq_some, Option.some.injEq, List.isEmpty_iff] at h
      obtain ⟨hnone, rfl⟩ := h
      refine hnothing (fun id lost hb => ?_) not_false
      unfold Balanced at hb ⊢
      rw [hnone] at hb
      refine Supervisor.balanced_waiting hb ?_
      simp [waiting_waking, waiting_reaping]

/-- Without haste a calm floor stays calm. -/
theorem calm_step (ho : floor.Orderly store sort) (hc : floor.supervisor.Calm)
    (hhasty : ¬ floor.Hasty move) (h : floor.step move = some next) : next.supervisor.Calm := by
  cases move with
  | thread fetcher disturbed =>
      simp only [step, Option.map_eq_some_iff] at h
      obtain ⟨after, hstep, rfl⟩ := h
      exact Supervisor.calm_thread ho.sound hc
        (fun f hf hid hraises => hhasty ⟨f, hf, hid, hraises⟩) hstep
  | timeOut fetcher =>
      obtain rfl := timeOut_eq_nudge h
      have hfair : (Errand.nudge fetcher .rouse).IsFair store sort floor.supervisor := trivial
      exact Supervisor.calm_run hc hfair
  | poll =>
      obtain rfl := eq_of_poll h
      exact Supervisor.calm_congr hc rfl rfl
  | work =>
      obtain ⟨task, later, htasks, more, -, rfl⟩ := work_cases ho.sound ho.agenda h
      have hagenda := ho.agenda
      rw [htasks] at hagenda
      exact Supervisor.calm_perform ho.sound hc hagenda.1
  | addSplits | wakeAll | reap =>
      simp only [step, Option.ite_none_right_eq_some, Option.some.injEq] at h
      obtain ⟨-, rfl⟩ := h
      exact Supervisor.calm_congr hc rfl rfl

end Floor

end SplitFeed
