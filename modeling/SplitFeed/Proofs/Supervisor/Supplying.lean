/-
# Supervisors that have given all splits away

When all splits of a job were given to fetchers, what comes from the queue are their news, in order
and none twice, whatever else is asked of the fetchers: they may be told to stop at once or to hand
on what they hold, be woken, be released, and be retired.  What they lose by that is lost at the
end.
-/
import SplitFeed.Proofs.Supervisor.SplitBooks

namespace SplitFeed

/-- A request without splits takes none away from anybody. -/
theorem Request.spares_of_leavesSplits {ρ : Type} {store : FileStore} {sort : ReaderSort}
    {request : Request} (h : request.LeavesSplits) (id : String) (f : Fetcher ρ) :
    request.Spares store sort id f := by
  cases request with
  | addSplits _ | removeSplits _ => exact h.elim
  | wakeUp _ | pause | resume | stop _ | releaseLatch => trivial

namespace Supervisor

/-- A supervisor that has given all splits of a job away, with what was taken from its queue. -/
structure Supplies (job : Job) (taken : List (SplitBatch Record)) (s : Supervisor Backend) :
    Prop where
  unique : s.ids.Nodup
  isOpen : s.queue.closed = false
  agrees : job.files.Agrees job.safe s.depot.store
  faithful : ∀ f ∈ s.crew, ∀ id, f.Faithful job.files job.sort id
  tidy : ∀ f ∈ s.crew, f.Tidy job.safe job.bare job.files
  neat : ∀ batch ∈ taken ++ s.queue.items, batch.IsNeat job.bare
  books : ∀ id, ∃ lost, s.Balanced job.files id taken [] job.splits lost

variable {job : Job} {s next : Supervisor Backend} {f g : Fetcher Backend} {d e : Depot}
  {taken : List (SplitBatch Record)} {lost : String → List (Option Record)}
  {disturbed : List Bool} {number : Nat} {errand : Errand}

/-- A supervisor that serves a job has given all splits away when no task is left. -/
theorem supplies_of_serves (hs : s.Serves (splitBooks job) job [] taken lost) :
    s.Supplies job taken where
  unique := hs.sound.unique
  isOpen := hs.sound.isOpen
  agrees := hs.agrees
  faithful := hs.sound.faithful
  tidy := hs.tidy
  neat := hs.neat
  books id := ⟨lost id, hs.right id⟩

/-- It does not matter who is in the slots, or what becomes of failures and tickets, of those in
the queue's wait sets, and of files that are not safe. -/
theorem supplies_congr (hs : s.Supplies job taken) (hcrew : next.crew = s.crew)
    (hitems : next.queue.items = s.queue.items) (hclosed : next.queue.closed = s.queue.closed)
    (hagrees : job.files.Agrees job.safe next.depot.store) : next.Supplies job taken where
  unique := by simpa only [ids, hcrew] using hs.unique
  isOpen := hclosed.trans hs.isOpen
  agrees := hagrees
  faithful := hcrew ▸ hs.faithful
  tidy := hcrew ▸ hs.tidy
  neat := hitems ▸ hs.neat
  books id := (hs.books id).imp fun _ hb => balanced_congr hb hcrew hitems

/-- Threads hand news on or lose them. -/
theorem supplies_thread (hs : s.Supplies job taken)
    (h : s.stepThread? number disturbed = some next) : next.Supplies job taken := by
  have hsteady : s.Steady job.files := fun f hf disturbed =>
    (Backend.fetch_agrees hs.agrees (hs.tidy f hf).reader disturbed).1
  have hbooks (id : String) : ∃ lost, next.Balanced job.files id taken [] job.splits lost := by
    obtain ⟨lost, hb⟩ := hs.books id
    obtain ⟨f, -, g, -, -, hbalanced⟩ := balanced_thread hs.faithful hs.isOpen hsteady h
    exact ⟨_, hbalanced id taken [] job.splits lost hb⟩
  obtain ⟨f, hf, -, g, e, hstride, rfl⟩ := stride_of_stepThread? h
  have hadvanced := advanced_of_stride hstride
  refine ⟨(ids_replace _ g).symm ▸ hs.unique, hadvanced.closed.trans hs.isOpen,
    hadvanced.store ▸ hs.agrees, forall_crew_replace hs.faithful fun id => ?_,
    forall_crew_replace hs.tidy ?_, fun batch hmem => ?_, hbooks⟩
  · exact faithful_stride (hs.faithful f hf id) hs.isOpen (hsteady f hf disturbed) hstride
  · exact tidy_stride (hs.faithful f hf "") (hs.tidy f hf) hs.agrees hstride
  · change batch ∈ taken ++ e.queue.items at hmem
    rw [hadvanced.items, ← List.append_assoc] at hmem
    rcases List.mem_append.1 hmem with hold | hnew
    · exact hs.neat batch hold
    · exact Fetcher.neat_handsOver (hs.tidy f hf) batch (Option.mem_toList.1 hnew)

/-- Errands without splits leave everybody faithful, and the queue open. -/
theorem faithful_run (hs : s.Supplies job taken) (hleaves : errand.LeavesSplits) :
    (∀ f ∈ (s.run errand).2.crew, ∀ id, f.Faithful job.files job.sort id) ∧
      (s.run errand).2.ids = s.ids ∧ (s.run errand).2.queue.closed = s.queue.closed := by
  cases errand with
  | nudge number nudge =>
      cases hfound : s.fetcher? number with
      | none => simpa [run, hfound] using hs.faithful
      | some f =>
          obtain ⟨hf, -⟩ := mem_crew_of_fetcher? hfound
          simp only [run, hfound]
          refine ⟨forall_crew_replace hs.faithful fun id => ?_, ids_replace _ _, ?_⟩
          · exact Fetcher.faithful_nudge nudge s.depot (hs.faithful f hf id)
          · cases nudge <;> rfl
  | ask number request =>
      cases hfound : s.fetcher? number with
      | none => simpa [run, hfound] using hs.faithful
      | some f =>
          obtain ⟨hf, -⟩ := mem_crew_of_fetcher? hfound
          simp only [run, hfound]
          refine ⟨forall_crew_replace hs.faithful fun id => ?_, ids_replace _ _, rfl⟩
          exact Fetcher.faithful_enact (hs.faithful f hf id)
            (Request.spares_of_leavesSplits hleaves id f)

theorem supplies_run (hs : s.Supplies job taken) (hleaves : errand.LeavesSplits) :
    (s.run errand).2.Supplies job taken := by
  have hremoves (number : Nat) (ids : List String) : errand ≠ .ask number (.removeSplits ids) := by
    rintro rfl
    exact hleaves
  have hgives : (Task.errand errand).splits = [] := by
    cases errand with
    | nudge _ _ => rfl
    | ask number request => cases request <;> first | rfl | exact hleaves.elim
  obtain ⟨hfaithful, hids, hclosed⟩ := faithful_run hs hleaves
  obtain ⟨htidy, hitems⟩ := tidy_run hs.tidy hremoves (by simp [hgives])
  refine ⟨hids ▸ hs.unique, hclosed.trans hs.isOpen, (store_run errand s).symm ▸ hs.agrees,
    hfaithful, htidy, hitems.symm ▸ hs.neat, fun id =>
      (hs.books id).imp fun _ hb => balanced_run hb hleaves⟩

/-- What follows from an errand are nudges. -/
theorem leavesSplits_run (errand : Errand) (s : Supervisor Backend) :
    ∀ later ∈ (s.run errand).1, later.LeavesSplits := by
  cases errand with
  | nudge number nudge =>
      simp only [run]
      split <;> exact List.forall_mem_nil _
  | ask number request =>
      simp only [run]
      split
      · exact List.forall_mem_nil _
      · intro later hmem
        obtain ⟨nudge, -, rfl⟩ := List.mem_map.1 hmem
        trivial

/-- The oldest batch may be taken from the queue. -/
theorem supplies_poll {batch : SplitBatch Record} {rest : List (SplitBatch Record)}
    (hs : s.Supplies job taken) (hitems : s.queue.items = batch :: rest) :
    (s.withQueue s.queue.poll.2).Supplies job (taken ++ [batch]) := by
  have hpoll := HandoffQueue.poll_cons hitems
  have hafter : (s.withQueue s.queue.poll.2).queue.items = rest := by
    change s.queue.poll.2.items = rest
    rw [hpoll]
  refine ⟨hs.unique, ?_, hs.agrees, hs.faithful, hs.tidy, ?_, fun id =>
    (hs.books id).imp fun _ hb => balanced_poll (s := s) hb rfl hitems hafter⟩
  · change s.queue.poll.2.closed = false
    rw [hpoll]
    exact hs.isOpen
  · rw [hafter, List.append_assoc, List.singleton_append, ← hitems]
    exact hs.neat

/-- What was taken from the queue is a front part of each split's news. -/
theorem taken_front (hs : s.Supplies job taken) (id : String) :
    taken.flatMap (·.news id) <+: Split.due job.files id job.splits := by
  obtain ⟨lost, -, owner, rest, -, -, hsum⟩ := hs.books id
  rw [← hsum, told, List.flatMap_append, List.append_assoc]
  exact List.prefix_append _ _

end Supervisor

end SplitFeed
