/-
# Supervisors that serve a job

A job is what a supervisor is asked for as a whole: some splits of one sort, the files as they were
when the splits were given away, and which of the files are safe, nobody writing to them.  A
supervisor that heeds a job is sound, keeps to the safe files, and has only splits of the job to
give away.  Threads and tasks keep it at that, whatever is written to other files meanwhile.

Books on a job are kept under headings, such as the ids of splits.  They are orderly if threads and
tasks keep them right, and nothing is lost but what a thread has in stock that forsakes its splits.
Once no task is left and the queue is empty, what was not taken from it is lost or still in stock.
A supervisor that heeds a job and has the books on it right serves the job.
-/
import SplitFeed.Proofs.Course
import SplitFeed.Proofs.Fetcher.Tidy
import SplitFeed.Proofs.Supervisor.Sound

namespace SplitFeed

/-- Splits of one sort, the files they are read from, and the numbers of those that are safe. -/
structure Job where
  files : FileStore
  sort : ReaderSort
  safe : Nat → Prop
  splits : List Split

/-- The splits can be read, and keep to safe files. -/
structure Job.IsFeasible (job : Job) : Prop where
  fit : ∀ split ∈ job.splits, split.sort = job.sort ∧ split.IsReadable job.files
  safe : ∀ split ∈ job.splits, split.IsSafe job.safe job.files

/-- The splits can be told apart and read, and keep to safe files. -/
structure Job.IsProper (job : Job) : Prop where
  once : (job.splits.map Split.id).Nodup
  fit : ∀ split ∈ job.splits, split.sort = job.sort ∧ split.IsReadable job.files
  safe : ∀ split ∈ job.splits, split.IsSafe job.safe job.files

theorem Job.IsProper.feasible {job : Job} (hjob : job.IsProper) : job.IsFeasible :=
  ⟨hjob.fit, hjob.safe⟩

/-- The ids of splits whose end mark may come without records. -/
def Job.bare (job : Job) (id : String) : Prop :=
  ∃ split ∈ job.splits, split.id = id ∧ split.MayEndBare

theorem Job.IsFeasible.tame {job : Job} (hjob : job.IsFeasible) :
    ∀ split ∈ job.splits, split.IsTame job.safe job.bare job.files :=
  fun split hmem => ⟨hjob.safe split hmem, fun hbare => ⟨split, hmem, rfl, hbare⟩⟩

namespace Supervisor

/-- A supervisor with a job to do, what is left of giving the splits away, and what was taken from
the queue. -/
structure Heeds (job : Job) (tasks : List Task) (taken : List (SplitBatch Record))
    (s : Supervisor Backend) : Prop where
  sound : s.Sound job.files job.sort
  agrees : job.files.Agrees job.safe s.depot.store
  tidy : ∀ f ∈ s.crew, f.Tidy job.safe job.bare job.files
  neat : ∀ batch ∈ taken ++ s.queue.items, batch.IsNeat job.bare
  agenda : s.Agenda job.files job.sort tasks
  asked : ∀ task ∈ tasks, task.splits.Sublist job.splits

variable {job : Job} {s next : Supervisor Backend} {f g : Fetcher Backend} {d e : Depot}
  {tasks later : List Task} {taken : List (SplitBatch Record)} {disturbed : List Bool} {id : Nat}

/-- What is written to files that are not safe makes no difference. -/
theorem steady_of_heeds (hs : s.Heeds job tasks taken) : s.Steady job.files :=
  fun f hf disturbed => (Backend.fetch_agrees hs.agrees (hs.tidy f hf).reader disturbed).1

/-- A supervisor goes on heeding its job whatever becomes of failures and tickets, of those in the
queue's wait sets, and of files that are not safe. -/
theorem heeds_congr (hs : s.Heeds job tasks taken) (hcrew : next.crew = s.crew)
    (hslots : next.slots = s.slots) (hnextId : next.nextId = s.nextId)
    (hfactory : next.factory = s.factory) (hitems : next.queue.items = s.queue.items)
    (hclosed : next.queue.closed = s.queue.closed)
    (hagrees : job.files.Agrees job.safe next.depot.store) : next.Heeds job tasks taken where
  sound := sound_congr hs.sound hcrew hslots hnextId hfactory (hclosed.trans hs.sound.isOpen)
  agrees := hagrees
  tidy := hcrew ▸ hs.tidy
  neat := hitems ▸ hs.neat
  agenda := agenda_congr hslots hs.agenda
  asked := hs.asked

/-! ### Threads -/

theorem tidy_stride {sort : ReaderSort} {safe : Nat → Prop} {bare : String → Prop}
    {store : FileStore} {split : String} (hf : f.Faithful store sort split)
    (ht : f.Tidy safe bare store) (hagrees : store.Agrees safe d.store)
    (h : Stride disturbed f d g e) : g.Tidy safe bare store := by
  cases h with
  | advance h => exact Fetcher.tidy_advance hf ht hagrees h
  | vanish hphase =>
      refine ⟨ht.reader, ht.neat, by simp [Fetcher.fetched], ?_, ?_⟩
      · simpa only [Fetcher.held, hphase] using ht.held
      · simpa only [Fetcher.unheard, hphase] using ht.unheard

theorem heeds_thread (hs : s.Heeds job tasks taken) (h : s.stepThread? id disturbed = some next) :
    next.Heeds job tasks taken := by
  have hsound := sound_thread hs.sound (steady_of_heeds hs) h
  obtain ⟨f, hf, -, g, e, hstride, rfl⟩ := stride_of_stepThread? h
  have hadvanced := advanced_of_stride hstride
  refine ⟨hsound, hadvanced.store ▸ hs.agrees, ?_, fun batch hmem => ?_,
    agenda_congr rfl hs.agenda, hs.asked⟩
  · exact forall_crew_replace hs.tidy
      (tidy_stride (hs.sound.faithful f hf "") (hs.tidy f hf) hs.agrees hstride)
  · have hitems : e.queue.items = s.queue.items ++ (f.handsOver s.depot).toList := hadvanced.items
    change batch ∈ taken ++ e.queue.items at hmem
    rw [hitems, ← List.append_assoc] at hmem
    rcases List.mem_append.1 hmem with hold | hnew
    · exact hs.neat batch hold
    · exact Fetcher.neat_handsOver (hs.tidy f hf) batch (Option.mem_toList.1 hnew)

/-! ### Tasks -/

/-- An errand keeps the crew tidy if it takes no splits away and those that it gives are safe. -/
theorem tidy_run {safe : Nat → Prop} {bare : String → Prop} {store : FileStore} {errand : Errand}
    (htidy : ∀ f ∈ s.crew, f.Tidy safe bare store)
    (hleaves : ∀ number ids, errand ≠ .ask number (.removeSplits ids))
    (hsafe : ∀ split ∈ (Task.errand errand).splits, split.IsTame safe bare store) :
    (∀ f ∈ (s.run errand).2.crew, f.Tidy safe bare store) ∧
      (s.run errand).2.queue.items = s.queue.items := by
  cases errand with
  | nudge id nudge =>
      cases hfound : s.fetcher? id with
      | none => simpa [run, hfound] using htidy
      | some f =>
          obtain ⟨hf, -⟩ := mem_crew_of_fetcher? hfound
          have hitems : (nudge.apply f s.depot).2.queue.items = s.queue.items := by
            cases nudge <;> simp [Nudge.apply, queue]
          simp only [run, hfound]
          exact ⟨forall_crew_replace htidy (Fetcher.tidy_nudge nudge s.depot (htidy f hf)), hitems⟩
  | ask id request =>
      cases hfound : s.fetcher? id with
      | none => simpa [run, hfound] using htidy
      | some f =>
          obtain ⟨hf, -⟩ := mem_crew_of_fetcher? hfound
          simp only [run, hfound]
          refine ⟨forall_crew_replace htidy (Fetcher.tidy_enact (htidy f hf) ?_ ?_), rfl⟩
          · rintro ids rfl
            exact hleaves id ids rfl
          · rintro splits rfl
            exact hsafe

/-- A fair errand takes no splits away. -/
theorem not_removes_of_fair {errand : Errand} (h : errand.IsFair job.files job.sort s)
    (number : Nat) (ids : List String) : errand ≠ .ask number (.removeSplits ids) := by
  rintro rfl
  exact h.1

theorem tidy_perform {task : Task} (hs : s.Heeds job tasks taken)
    (hfair : task.IsFair job.files job.sort s)
    (hsafe : ∀ split ∈ task.splits, split.IsTame job.safe job.bare job.files) :
    (∀ f ∈ (s.perform task).2.crew, f.Tidy job.safe job.bare job.files) ∧
      (s.perform task).2.queue.items = s.queue.items := by
  cases task with
  | errand errand => exact tidy_run hs.tidy (not_removes_of_fair hfair) hsafe
  | give slot splits =>
      rcases perform_give_cases hs.sound hfair.1 splits with
        ⟨-, hperform⟩ | ⟨id, -, hperform⟩ | ⟨reader, hnew, -, -, hperform⟩ <;> rw [hperform]
      · exact ⟨hs.tidy, rfl⟩
      · exact ⟨hs.tidy, rfl⟩
      · refine ⟨fun f hf => ?_, rfl⟩
        rcases List.mem_append.1 hf with hold | hadded
        · exact hs.tidy f hold
        · rw [List.mem_singleton.1 hadded]
          exact Fetcher.tidy_beginLoop hnew s.nextId
  | sweep slot =>
      rcases vacate_cases s slot with hnone | ⟨f, hf, -, -, hsome⟩
      · simpa only [perform, hnone] using ⟨hs.tidy, trivial⟩
      · simpa only [perform, hsome] using ⟨hs.tidy, rfl⟩

/-- The next task succeeds, and what follows from it comes next. -/
theorem heeds_perform {task : Task} (hjob : job.IsFeasible)
    (hs : s.Heeds job (task :: later) taken) :
    ∃ more, (s.perform task).1 = .ok more ∧ (s.perform task).2.Heeds job (more ++ later) taken := by
  obtain ⟨hfair, hlater⟩ := hs.agenda
  have hasked := hs.asked task List.mem_cons_self
  obtain ⟨more, hmore, hsound, hlength, hagenda, hgives⟩ := sound_perform hs.sound hfair
  obtain ⟨htidy, hitems⟩ :=
    tidy_perform hs hfair fun split hmem => hjob.tame split (hasked.subset hmem)
  refine ⟨more, hmore, hsound, (store_perform task s).symm ▸ hs.agrees, htidy,
    hitems.symm ▸ hs.neat, agenda_append hagenda (hlength ▸ hlater), fun other hother => ?_⟩
  rcases List.mem_append.1 hother with hnew | hold
  · exact (hgives other hnew).trans hasked
  · exact hs.asked other (List.mem_cons_of_mem _ hold)

/-- Fetchers may be woken from a nap at any time. -/
theorem heeds_rouse (hs : s.Heeds job tasks taken) :
    (s.run (.nudge id .rouse)).2.Heeds job tasks taken := by
  have hfair : (Errand.nudge id .rouse).IsFair job.files job.sort s := trivial
  obtain ⟨hsound, hslots, -⟩ := sound_run hs.sound hfair
  obtain ⟨htidy, hitems⟩ := tidy_run hs.tidy (not_removes_of_fair hfair) fun _ hmem => nomatch hmem
  exact ⟨hsound, (store_run _ s).symm ▸ hs.agrees, htidy, hitems.symm ▸ hs.neat,
    agenda_congr hslots hs.agenda, hs.asked⟩

/-- With nothing else to do, a slot may be swept. -/
theorem heeds_sweep (slot : Nat) (hs : s.Heeds job [] taken) : s.Heeds job [.sweep slot] taken where
  sound := hs.sound
  agrees := hs.agrees
  tidy := hs.tidy
  neat := hs.neat
  agenda := ⟨trivial, fun _ hmem => nomatch hmem⟩
  asked := List.forall_mem_singleton.2 (List.nil_sublist _)

/-! ### The queue -/

/-- The queue without its oldest batch. -/
theorem items_poll {batch : SplitBatch Record} {rest : List (SplitBatch Record)}
    (hitems : s.queue.items = batch :: rest) :
    (s.withQueue s.queue.poll.2).queue.items = rest ∧
      (s.withQueue s.queue.poll.2).queue.closed = s.queue.closed := by
  have hpoll := HandoffQueue.poll_cons hitems
  constructor
  · change s.queue.poll.2.items = rest
    rw [hpoll]
  · change s.queue.poll.2.closed = s.queue.closed
    rw [hpoll]

/-- The oldest batch may be taken from the queue. -/
theorem heeds_poll {batch : SplitBatch Record} {rest : List (SplitBatch Record)}
    (hs : s.Heeds job tasks taken) (hitems : s.queue.items = batch :: rest) :
    (s.withQueue s.queue.poll.2).Heeds job tasks (taken ++ [batch]) := by
  obtain ⟨hafter, hclosed⟩ := items_poll hitems
  refine ⟨sound_congr hs.sound rfl rfl rfl rfl (hclosed.trans hs.sound.isOpen), hs.agrees, hs.tidy,
    ?_, agenda_congr rfl hs.agenda, hs.asked⟩
  rw [hafter, List.append_assoc, List.singleton_append, ← hitems]
  exact hs.neat

end Supervisor

/-! ### Books -/

/-- A way to keep books on a job under headings.  `stock` is what a fetcher has under each heading;
`Right` tells when the books are right, with the tasks that are left, what was taken from the queue,
and what is lost; `Settled` tells what they come to in the end, with what is missing. -/
structure Bookkeeping (ι α : Type) where
  stock : Fetcher Backend → ι → List α
  Right : List Task → List (SplitBatch Record) → (ι → List α) → Supervisor Backend → Prop
  Settled : List (SplitBatch Record) → (ι → List α) → Prop

/-- Books that threads and tasks keep right, as long as the job is heeded.  A thread loses its stock
exactly if it forsakes its splits; in the end everybody's stock is missing. -/
structure Bookkeeping.Orderly {ι α : Type} (ledger : Bookkeeping ι α) (job : Job) : Prop where
  congr {tasks taken lost s next} (h : ledger.Right tasks taken lost s)
    (hcrew : next.crew = s.crew) (hslots : next.slots = s.slots)
    (hitems : next.queue.items = s.queue.items) : ledger.Right tasks taken lost next
  thread {tasks taken lost s next id disturbed} (hs : s.Heeds job tasks taken)
    (h : ledger.Right tasks taken lost s) (hstep : s.stepThread? id disturbed = some next) :
    ∃ loss, ledger.Right tasks taken (fun heading => loss heading ++ lost heading) next ∧
      ∀ counts, Course.Costs counts loss ↔
        ∃ f ∈ s.crew, f.id = id ∧ f.Forsakes ∧ Course.Costs counts (ledger.stock f)
  perform {task more later taken lost s} (hs : s.Heeds job (task :: later) taken)
    (h : ledger.Right (task :: later) taken lost s) (hmore : (s.perform task).1 = .ok more) :
    ledger.Right (more ++ later) taken lost (s.perform task).2
  rouse {tasks taken lost s id} (hs : s.Heeds job tasks taken)
    (h : ledger.Right tasks taken lost s) :
    ledger.Right tasks taken lost (s.run (.nudge id .rouse)).2
  sweep {taken lost s} (slot : Nat) (h : ledger.Right [] taken lost s) :
    ledger.Right [.sweep slot] taken lost s
  poll {tasks taken lost s batch rest} (h : ledger.Right tasks taken lost s)
    (hitems : s.queue.items = batch :: rest) :
    ledger.Right tasks (taken ++ [batch]) lost (s.withQueue s.queue.poll.2)
  ends {taken lost s} (hs : s.Heeds job [] taken) (h : ledger.Right [] taken lost s)
    (hnone : s.queue.items = []) :
    ∃ left, ledger.Settled taken (fun heading => left heading ++ lost heading) ∧
      ∀ counts, Course.Costs counts left ↔ ∃ f ∈ s.crew, Course.Costs counts (ledger.stock f)
  idle {tasks taken lost s f} (hs : s.Heeds job tasks taken) (h : ledger.Right tasks taken lost s)
    (hf : f ∈ s.crew) : Course.Costs (fun _ => True) (ledger.stock f) ↔ ¬ f.IsDone

namespace Supervisor

variable {ι α : Type} {ledger : Bookkeeping ι α} {job : Job} {s next : Supervisor Backend}
  {tasks later : List Task} {taken : List (SplitBatch Record)} {lost : ι → List α}
  {disturbed : List Bool} {id : Nat}

/-- A supervisor that heeds a job, with right books on it. -/
structure Serves (ledger : Bookkeeping ι α) (job : Job) (tasks : List Task)
    (taken : List (SplitBatch Record)) (lost : ι → List α) (s : Supervisor Backend) : Prop
    extends s.Heeds job tasks taken where
  right : ledger.Right tasks taken lost s

theorem serves_congr (hledger : ledger.Orderly job) (hs : s.Serves ledger job tasks taken lost)
    (hcrew : next.crew = s.crew) (hslots : next.slots = s.slots) (hnextId : next.nextId = s.nextId)
    (hfactory : next.factory = s.factory) (hitems : next.queue.items = s.queue.items)
    (hclosed : next.queue.closed = s.queue.closed)
    (hagrees : job.files.Agrees job.safe next.depot.store) :
    next.Serves ledger job tasks taken lost :=
  ⟨heeds_congr hs.toHeeds hcrew hslots hnextId hfactory hitems hclosed hagrees,
    hledger.congr hs.right hcrew hslots hitems⟩

/-- A thread's step loses what the thread has in stock, if it forsakes its splits. -/
theorem serves_thread (hledger : ledger.Orderly job) (hs : s.Serves ledger job tasks taken lost)
    (h : s.stepThread? id disturbed = some next) :
    ∃ loss, next.Serves ledger job tasks taken (fun heading => loss heading ++ lost heading) ∧
      ∀ counts, Course.Costs counts loss ↔
        ∃ f ∈ s.crew, f.id = id ∧ f.Forsakes ∧ Course.Costs counts (ledger.stock f) := by
  obtain ⟨loss, hright, hloss⟩ := hledger.thread hs.toHeeds hs.right h
  exact ⟨loss, ⟨heeds_thread hs.toHeeds h, hright⟩, hloss⟩

/-- The next task succeeds, and what follows from it comes next. -/
theorem serves_perform {task : Task} (hjob : job.IsFeasible) (hledger : ledger.Orderly job)
    (hs : s.Serves ledger job (task :: later) taken lost) :
    ∃ more, (s.perform task).1 = .ok more ∧
      (s.perform task).2.Serves ledger job (more ++ later) taken lost := by
  obtain ⟨more, hmore, hheeds⟩ := heeds_perform hjob hs.toHeeds
  exact ⟨more, hmore, hheeds, hledger.perform hs.toHeeds hs.right hmore⟩

/-- Fetchers may be woken from a nap at any time. -/
theorem serves_rouse (hledger : ledger.Orderly job) (hs : s.Serves ledger job tasks taken lost) :
    (s.run (.nudge id .rouse)).2.Serves ledger job tasks taken lost :=
  ⟨heeds_rouse hs.toHeeds, hledger.rouse hs.toHeeds hs.right⟩

/-- With nothing else to do, a slot may be swept. -/
theorem serves_sweep (slot : Nat) (hledger : ledger.Orderly job)
    (hs : s.Serves ledger job [] taken lost) : s.Serves ledger job [.sweep slot] taken lost :=
  ⟨heeds_sweep slot hs.toHeeds, hledger.sweep slot hs.right⟩

/-- The oldest batch may be taken from the queue. -/
theorem serves_poll {batch : SplitBatch Record} {rest : List (SplitBatch Record)}
    (hledger : ledger.Orderly job) (hs : s.Serves ledger job tasks taken lost)
    (hitems : s.queue.items = batch :: rest) :
    (s.withQueue s.queue.poll.2).Serves ledger job tasks (taken ++ [batch]) lost :=
  ⟨heeds_poll hs.toHeeds hitems, hledger.poll hs.right hitems⟩

end Supervisor

end SplitFeed
