/-
# Closing gets everybody out

To close, a supervisor asks every fetcher on its books to stop, wakes it by force and releases its
latch, and closes the queue in the end.  Requests to stop are sticky, so if somebody has asked
before, the first of the three does nothing; then it is the forced wake-up that rouses a thread
which lies down, and it comes behind the point from which on no thread lies down any more.

While a call that closes is under way, `FreedBy` says of every fetcher that what the call has still
to do will free it.  When the call is over nothing is left to do, so every fetcher was dismissed.
Fetchers that are not on the books any more were dismissed by an earlier call.
-/
import SplitFeed.Proofs.Supervisor.Workshop

namespace SplitFeed

open Supervisor (Stride Performs)

variable {ρ : Type} {f g : Fetcher ρ} {d e : Depot} {disturbed : List Bool}
  {task : Task} {tasks more later : List Task}

/-! ### Freed by what is left to do -/

/-- Tasks that are left to do free a fetcher from all that may keep it from leaving. -/
structure Fetcher.FreedBy (tasks : List Task) (f : Fetcher ρ) : Prop where
  stop : f.duty.stop ≠ none ∨
    [.errand (.ask f.id (.stop .immediate)), .errand (.ask f.id (.wakeUp true))].Sublist tasks
  roused : f.phase = .parked → f.napping = true →
    .errand (.ask f.id (.wakeUp true)) ∈ tasks ∨ .errand (.nudge f.id .rouse) ∈ tasks
  latch : f.drainLatch.done = true ∨ .errand (.ask f.id .releaseLatch) ∈ tasks

namespace Fetcher

theorem freedBy_of_dismissed (hf : f.Dismissed) (tasks : List Task) : f.FreedBy tasks where
  stop := .inl hf.stop
  roused hparked hnaps := absurd ((hf.roused hparked).symm.trans hnaps) Bool.noConfusion
  latch := .inl hf.latch

theorem dismissed_of_freedBy_nil (hf : f.FreedBy []) : f.Dismissed where
  stop := hf.stop.resolve_right nofun
  latch := hf.latch.resolve_right nofun
  roused hparked := by
    rw [← Bool.not_eq_true]
    intro hnaps
    exact (hf.roused hparked hnaps).elim nofun nofun

/-- Whoever is on the books is freed by what closing asks of everybody there. -/
theorem freedBy_parting {s : Supervisor ρ} (hbooked : f.id ∈ s.onBooks) :
    f.FreedBy (Workshop.parting s) := by
  have hasked (request : Request) (hmem : request ∈ Supervisor.farewell) :
      .errand (.ask f.id request) ∈ Workshop.parting s :=
    List.mem_flatMap.2 ⟨f.id, hbooked, List.mem_map.2 ⟨request, hmem, rfl⟩⟩
  refine ⟨.inr ?_, fun _ _ => .inl (hasked _ (by simp [Supervisor.farewell])),
    .inr (hasked _ (by simp [Supervisor.farewell]))⟩
  have hall := List.sublist_flatten_of_mem
    (List.mem_map_of_mem (f := fun id => Supervisor.farewell.map fun request =>
      Task.errand (.ask id request)) hbooked)
  rw [← List.flatMap_def] at hall
  exact (List.sublist_append_left _ [Task.errand (.ask f.id .releaseLatch)]).trans hall

theorem freedBy_of_frees (hf : f.FreedBy tasks) (h : f.Frees g) : g.FreedBy tasks where
  stop := h.id ▸ hf.stop.imp_left h.stop
  roused hparked hnaps := h.id ▸ hf.roused (h.phase ▸ hparked) (h.napping hnaps)
  latch := h.id ▸ hf.latch.imp_left h.latch

/-- A thread that lies down was not asked to stop yet, so that the wake-up is still to come. -/
theorem freedBy_advance [SplitReader ρ] (hf : f.FreedBy tasks) (h : Advance disturbed f d g e) :
    g.FreedBy tasks where
  stop := (advanced h).id ▸ hf.stop.imp_left fun hstop => stop_stays hstop h
  roused := by
    rw [(advanced h).id]
    cases h with
    | nap hphase hmay =>
        intro _ _
        have hstop : f.duty.stop = none := by simp_all [Duty.mayPark]
        exact .inl ((hf.stop.resolve_left fun h => h hstop).subset (by simp))
    | _ => simp_all
  latch := by
    rw [(advanced h).id, latch_advance h]
    exact hf.latch

theorem freedBy_stride [SplitReader ρ] (hf : f.FreedBy tasks) (h : Stride disturbed f d g e) :
    g.FreedBy tasks := by
  cases h with
  | advance h => exact freedBy_advance hf h
  | vanish => exact ⟨hf.stop, nofun, hf.latch⟩

/-- A task that is done may be forgotten, if it has done its part. -/
theorem freedBy_next (hf : f.FreedBy (task :: later)) (h : f.Frees g)
    (hstop : task = .errand (.ask f.id (.stop .immediate)) → g.duty.stop ≠ none)
    (hwake : task = .errand (.ask f.id (.wakeUp true)) → .errand (.nudge f.id .rouse) ∈ more)
    (hrouse : task = .errand (.nudge f.id .rouse) → g.napping = false)
    (hlatch : task = .errand (.ask f.id .releaseLatch) → g.drainLatch.done = true) :
    g.FreedBy (more ++ later) where
  stop := by
    rw [h.id]
    rcases hf.stop with hstopped | hasked
    · exact .inl (h.stop hstopped)
    · cases hasked with
      | cons _ hlater => exact .inr (hlater.trans (List.sublist_append_right _ _))
      | cons_cons _ _ => exact .inl (hstop rfl)
  roused hparked hnaps := by
    rw [h.id]
    rcases hf.roused (h.phase ▸ hparked) (h.napping hnaps) with hwakes | hrouses
    · rcases List.mem_cons.1 hwakes with hhead | hlater
      · exact .inr (List.mem_append_left _ (hwake hhead.symm))
      · exact .inl (List.mem_append_right _ hlater)
    · rcases List.mem_cons.1 hrouses with hhead | hlater
      · exact absurd ((hrouse hhead.symm).symm.trans hnaps) Bool.noConfusion
      · exact .inr (List.mem_append_right _ hlater)
  latch := by
    rw [h.id]
    rcases hf.latch with hdone | hasked
    · exact .inl (h.latch hdone)
    · rcases List.mem_cons.1 hasked with hhead | hlater
      · exact .inl (hlatch hhead.symm)
      · exact .inr (List.mem_append_right _ hlater)

/-- An errand to somebody else is none of a fetcher's business. -/
theorem freedBy_of_other {errand : Errand} (hf : f.FreedBy (.errand errand :: later))
    (hother : errand.target ≠ f.id) (more : List Task) : f.FreedBy (more ++ later) := by
  refine freedBy_next hf {} ?_ ?_ ?_ ?_ <;>
    · intro hhead
      cases hhead
      exact absurd rfl hother

theorem freedBy_asked {request : Request}
    (hf : f.FreedBy (.errand (.ask f.id request) :: later)) :
    (request.enact f).1.FreedBy
      ((request.enact f).2.map (fun nudge => .errand (.nudge f.id nudge)) ++ later) := by
  refine freedBy_next hf (frees_enact request f) ?_ ?_ nofun ?_
  · intro hhead
    obtain rfl : request = .stop .immediate := by simpa using hhead
    cases hstop : f.duty.stop <;> simp [Request.enact, hstop]
  · intro hhead
    obtain rfl : request = .wakeUp true := by simpa using hhead
    simp [Request.enact, Nudge.wakeUp]
  · intro hhead
    obtain rfl : request = .releaseLatch := by simpa using hhead
    exact OneShot.done_complete _

theorem freedBy_nudged [SplitReader ρ] {nudge : Nudge} (d : Depot)
    (hf : f.FreedBy (.errand (.nudge f.id nudge) :: later)) :
    (nudge.apply f d).1.FreedBy later := by
  rw [← List.nil_append later]
  refine freedBy_next hf (frees_nudge nudge f d) nofun nofun ?_ nofun
  intro hhead
  obtain rfl : nudge = .rouse := by simpa using hhead
  rfl

end Fetcher

namespace Workshop

variable [SplitReader ρ] {shop next last begun ended : Workshop ρ} {move : Move}
  {moves : List Move}

/-! ### While everybody is told to leave -/

/-- A call that closes is under way or over, and frees every fetcher. -/
structure Dismissing (shop : Workshop ρ) : Prop where
  errands : ∀ task ∈ shop.tasks, ∃ errand, task = .errand errand
  freed : ∀ f ∈ shop.supervisor.crew, f.FreedBy shop.tasks
  closes : shop.closing = true ∨ shop.supervisor.queue.closed = true

/-- An errand frees the fetcher that it goes to as far as it can, and concerns nobody else. -/
theorem freedBy_errand {s after : Supervisor ρ} {errand : Errand} (hs : s.Staffed)
    (hfreed : ∀ f ∈ s.crew, f.FreedBy (.errand errand :: later))
    (h : Performs s (.errand errand) (.ok more) after) :
    ∀ f ∈ after.crew, f.FreedBy (more ++ later) := by
  have hothers {f : Fetcher ρ} (hf : f ∈ s.crew) (hother : errand.target ≠ f.id) :
      f.FreedBy (more ++ later) := Fetcher.freedBy_of_other (hfreed f hf) hother more
  cases h with
  | missing hnone =>
      refine fun f hf => hothers hf fun hid => ?_
      rw [hid, Supervisor.fetcher?_of_mem_crew hs.unique hf] at hnone
      cases hnone
  | @ask asked request hasked =>
      intro g hg
      rcases Supervisor.mem_crew_replace hg with rfl | ⟨hold, hother⟩
      · exact Fetcher.freedBy_asked (hfreed asked hasked)
      · rw [(Fetcher.frees_enact request asked).id] at hother
        exact hothers hold hother.symm
  | @nudge asked nudge hasked =>
      intro g hg
      rcases Supervisor.mem_crew_replace hg with rfl | ⟨hold, hother⟩
      · exact Fetcher.freedBy_nudged s.depot (hfreed asked hasked)
      · rw [(Fetcher.frees_nudge nudge asked s.depot).id] at hother
        exact hothers hold hother.symm

theorem dismissing_goes (ho : shop.Orderly) (hp : shop.Dismissing) (hcall : move.isCall = false)
    (h : Goes shop move next) : next.Dismissing := by
  have hclosed := closed_goes (h := h)
  obtain ⟨herrands, hfreed, hcloses⟩ := hp
  cases h with
  | @thread f g e _ hf hstride =>
      exact ⟨herrands, Supervisor.forall_crew_replace (s := { shop.supervisor with depot := e })
        hfreed (Fetcher.freedBy_stride (hfreed f hf) hstride), hcloses.imp_right hclosed⟩
  | errand hperforms =>
      refine ⟨herrands, fun g hg => ?_, hcloses.imp_right hclosed⟩
      rcases crew_performs hperforms hg with ⟨f, hf, hfrees⟩ | ⟨⟨_, _, hgives⟩, -⟩
      · exact Fetcher.freedBy_of_frees (hfreed f hf) hfrees
      · cases hgives
  | queue | beside => exact ⟨herrands, hfreed, hcloses.imp_right hclosed⟩
  | addSplits | reap | close | abandon => cases hcall
  | @task task later more after htasks hperforms =>
      rw [htasks] at herrands hfreed
      obtain ⟨errand, rfl⟩ := herrands task List.mem_cons_self
      refine ⟨fun other hother => ?_, freedBy_errand ho.staffed hfreed hperforms,
        hcloses.imp_right hclosed⟩
      rcases List.mem_append.1 hother with hnew | hold
      · cases hperforms with
        | missing | nudge => cases hnew
        | ask =>
            obtain ⟨nudge, -, rfl⟩ := List.mem_map.1 hnew
            exact ⟨_, rfl⟩
      · exact herrands other (List.mem_cons_of_mem _ hold)
  | @fail task later failure after htasks hperforms =>
      obtain ⟨errand, rfl⟩ := herrands task (htasks ▸ List.mem_cons_self)
      cases hperforms
  | shut => exact ⟨herrands, hfreed, .inr rfl⟩

omit [SplitReader ρ] in
/-- When the call is over, the queue is closed and everybody was dismissed. -/
theorem dismissed_of_dismissing (hp : shop.Dismissing) (hdone : shop.isBusy = false) :
    shop.supervisor.queue.closed = true ∧ ∀ f ∈ shop.supervisor.crew, f.Dismissed := by
  obtain ⟨htasks, hclosing⟩ := not_busy hdone
  refine ⟨hp.closes.resolve_left (by simp [hclosing]), fun f hf => ?_⟩
  exact Fetcher.dismissed_of_freedBy_nil (htasks ▸ hp.freed f hf)

/-! ### Nobody is forgotten -/

/-- Whoever is not on the books was dismissed, when no call is under way that closes. -/
structure Mindful (shop : Workshop ρ) : Prop where
  booked : shop.closing = false → ∀ f ∈ shop.supervisor.crew, f.id ∈ shop.supervisor.onBooks ∨
    f.Dismissed ∧ shop.supervisor.queue.closed = true
  dismissing : shop.closing = true → shop.Dismissing

omit [SplitReader ρ] in
/-- So a call that closes frees everybody. -/
theorem dismissing_begun {s : Supervisor ρ} (hm : shop.Mindful) (hfree : shop.isBusy = false)
    (hcrew : s.crew = shop.supervisor.crew) :
    Dismissing { shop with
      supervisor := s, tasks := parting shop.supervisor, closing := true, answer := .ok () } where
  errands task htask := by
    obtain ⟨id, -, request, rfl⟩ := errand_of_mem_parting htask
    exact ⟨_, rfl⟩
  freed f hf := by
    rcases hm.booked (not_busy hfree).2 f (hcrew ▸ hf) with hbooked | ⟨hdismissed, -⟩
    · exact Fetcher.freedBy_parting hbooked
    · exact Fetcher.freedBy_of_dismissed hdismissed _
  closes := .inl rfl

omit [SplitReader ρ] in
theorem mindful_opened (capacity threads : Nat) (store : FileStore)
    (factory : Nat → Except Failure ρ) : (opened capacity threads store factory).Mindful where
  booked _ := List.forall_mem_nil _
  dismissing := nofun

/-- A call that closes goes on without another one, and is over when the queue was closed. -/
theorem mindful_of_closing (ho : shop.Orderly) (hd : shop.Dismissing)
    (hclosing : shop.closing = true) (h : Goes shop move next) : next.Mindful := by
  have hcall : move.isCall = false := by
    cases h with
    | addSplits hfree | reap hfree | close hfree | abandon hfree =>
        exact absurd (hclosing.symm.trans (not_busy hfree).2) Bool.noConfusion
    | beside hmove => obtain ⟨_, rfl⟩ | rfl := hmove <;> rfl
    | _ => rfl
  have hnext := dismissing_goes ho hd hcall h
  refine ⟨fun hover f hf => ?_, fun _ => hnext⟩
  have hdone : next.isBusy = false := by
    cases h with
    | shut htasks => simp [isBusy, htasks]
    | addSplits | reap | close | abandon => cases hcall
    | _ => exact absurd (hclosing.symm.trans hover) Bool.noConfusion
  obtain ⟨hclosed, hdismissed⟩ := dismissed_of_dismissing hnext hdone
  exact .inr ⟨hdismissed f hf, hclosed⟩

/-- A task takes nobody off the books, and puts on them whoever it starts. -/
theorem booked_performs {s after : Supervisor ρ} {result : Except Failure (List Task)}
    (hs : s.Staffed) (hfits : task.Fits s.slots.length)
    (hbooked : ∀ f ∈ s.crew, f.id ∈ s.onBooks ∨ f.Dismissed ∧ s.queue.closed = true)
    (hclosed : s.queue.closed = true → after.queue.closed = true)
    (h : Performs s task result after) :
    ∀ g ∈ after.crew, g.id ∈ after.onBooks ∨ g.Dismissed ∧ after.queue.closed = true := by
  intro g hg
  rcases crew_performs h hg with ⟨f, hf, hfrees⟩ | ⟨-, reader, rfl⟩
  · rcases hbooked f hf with hbooked | ⟨hdismissed, hshut⟩
    · exact .inl (hfrees.id ▸ Supervisor.onBooks_performs h hbooked)
    · exact .inr ⟨Fetcher.dismissed_of_frees hdismissed hfrees, hclosed hshut⟩
  · left
    exact (Supervisor.booked_performs h hfits (List.mem_map_of_mem hg)).resolve_left
      fun hold => Nat.lt_irrefl _ (hs.below _ hold)

theorem mindful_goes (ho : shop.Orderly) (hm : shop.Mindful) (h : Goes shop move next) :
    next.Mindful := by
  cases hclosing : shop.closing with
  | true => exact mindful_of_closing ho (hm.dismissing hclosing) hclosing h
  | false =>
      have hbooked := hm.booked hclosing
      have hclosed := closed_goes (h := h)
      have hidle {supervisor : Supervisor ρ} {tasks : List Task} {answer : Except Failure Unit}
          (hall : ∀ f ∈ supervisor.crew, f.id ∈ supervisor.onBooks ∨
            f.Dismissed ∧ supervisor.queue.closed = true) :
          Mindful { shop with supervisor, tasks, answer } :=
        ⟨fun _ => hall, fun h => absurd (hclosing.symm.trans h) Bool.noConfusion⟩
      cases h with
      | @thread f g e _ hf hstride =>
          have hid := (Supervisor.advanced_of_stride hstride).id
          refine hidle (Supervisor.forall_crew_replace (s := { shop.supervisor with depot := e })
            (fun other hother => (hbooked other hother).imp_right (And.imp_right hclosed)) ?_)
          rcases hbooked f hf with hbooked | ⟨hdismissed, hshut⟩
          · exact .inl (hid ▸ hbooked)
          · exact .inr ⟨Fetcher.dismissed_stride hdismissed hstride, hclosed hshut⟩
      | @errand errand _ _ h =>
          have hfits : (Task.errand errand).Fits shop.supervisor.slots.length := trivial
          exact hidle (booked_performs ho.staffed hfits hbooked hclosed h)
      | task htasks h | fail htasks h =>
          exact hidle (booked_performs ho.staffed (ho.fits _ (htasks ▸ List.mem_cons_self))
            hbooked hclosed h)
      | queue | beside | addSplits | reap =>
          exact hidle fun f hf => (hbooked f hf).imp_right (And.imp_right hclosed)
      | close hfree | abandon hfree => exact ⟨nofun, fun _ => dismissing_begun hm hfree rfl⟩
      | shut _ hcloses => exact absurd (hclosing.symm.trans hcloses) Bool.noConfusion

/-- Who is in which slot does not change while everybody is told to leave. -/
theorem liveIds_goes (hd : shop.Dismissing) (hcall : move.isCall = false)
    (h : Goes shop move next) : next.supervisor.liveIds = shop.supervisor.liveIds := by
  have herrand {errand : Errand} {result : Except Failure (List Task)} {after : Supervisor ρ}
      (h : Performs shop.supervisor (.errand errand) result after) :
      after.liveIds = shop.supervisor.liveIds := by
    cases h <;> rfl
  cases h with
  | errand h => exact herrand h
  | task htasks h | fail htasks h =>
      obtain ⟨errand, rfl⟩ := hd.errands _ (htasks ▸ List.mem_cons_self)
      exact herrand h
  | thread | queue | beside | shut => rfl
  | addSplits | reap | close | abandon => cases hcall

/-! ### After the call -/

/-- In a closed queue nobody sleeps to put something into it. -/
def IsHushed (queue : HandoffQueue (SplitBatch Record)) : Prop :=
  queue.closed = true → queue.asleepInPut = []

theorem hushed_apply {queue : HandoffQueue (SplitBatch Record)} (hq : IsHushed queue)
    (use : HandoffQueue.Move (SplitBatch Record)) : IsHushed (use.apply queue) := by
  cases use with
  | put thread producer element =>
      obtain ⟨-, h⟩ | ⟨hopen, -, h⟩ | ⟨hopen, -, h⟩ | ⟨hopen, -, h⟩ :=
        queue.put_cases thread producer element <;>
      rw [HandoffQueue.Move.apply, h]
      · exact hq
      · exact fun hclosed => by simp [hopen] at hclosed
      · exact fun hclosed => absurd (hopen.symm.trans hclosed) Bool.noConfusion
      · exact fun hclosed => absurd (hopen.symm.trans hclosed) Bool.noConfusion
  | take thread =>
      simp only [HandoffQueue.Move.apply, HandoffQueue.take]
      split
      · exact fun _ => rfl
      · split
        · exact hq
        · split <;> exact hq
  | poll =>
      simp only [HandoffQueue.Move.apply, HandoffQueue.poll]
      split
      · exact fun _ => rfl
      · exact hq
  | availability =>
      intro hclosed
      rw [HandoffQueue.Move.apply, queue.availability_waiting.1]
      exact hq (queue.availability_same.2.symm.trans hclosed)
  | notifyAvailable | wakeConsumer => exact hq
  | close | wakeProducer _ => exact fun _ => rfl

theorem hushed_goes (hq : IsHushed shop.supervisor.queue) (h : Goes shop move next) :
    IsHushed next.supervisor.queue := by
  obtain hsame | ⟨use, huse⟩ := queue_goes h
  · rwa [hsame]
  · rw [huse]
    exact hushed_apply hq use

/-- What everything rests on: the workshop is orderly, forgets nobody, and keeps nobody asleep in
front of a closed queue. -/
structure Sound (shop : Workshop ρ) : Prop where
  orderly : shop.Orderly
  mindful : shop.Mindful
  hushed : IsHushed shop.supervisor.queue

theorem sound_step (hs : shop.Sound) (h : shop.step move = some next) : next.Sound where
  orderly := orderly_step hs.orderly h
  mindful := mindful_goes hs.orderly hs.mindful (goes_of_step h)
  hushed := hushed_goes hs.hushed (goes_of_step h)

omit [SplitReader ρ] in
theorem sound_opened (capacity threads : Nat) (store : FileStore)
    (factory : Nat → Except Failure ρ) : (opened capacity threads store factory).Sound where
  orderly := orderly_opened capacity threads store factory
  mindful := mindful_opened capacity threads store factory
  hushed := nofun

/-- Whether a move is a step of a fetcher's thread. -/
def Move.isStepOf (id : Nat) : Move → Bool
  | thread fetcher _ => fetcher == id
  | _ => false

/-- After the queue was closed, each step of a thread that was dismissed brings it nearer to its
end, and no other move takes it further away. -/
theorem toClose_goes (hs : shop.supervisor.Staffed) (hclosed : shop.supervisor.queue.closed = true)
    (hf : f ∈ shop.supervisor.crew) (hdismissed : f.Dismissed) (h : Goes shop move next) :
    ∃ g ∈ next.supervisor.crew, g.id = f.id ∧ g.Dismissed ∧
      (g.toClose + [move].countP (·.isStepOf f.id) ≤ f.toClose ∨ g.toClose = 0) := by
  obtain ⟨g, hg, hbecomes⟩ := exists_becomes hs h hf
  refine ⟨g, hg, id_of_becomes hbecomes, ?_⟩
  cases hbecomes with
  | @stride disturbed _ hmove hstride =>
      refine ⟨Fetcher.dismissed_stride hdismissed hstride, ?_⟩
      refine (Fetcher.toClose_stride hdismissed hclosed hstride).imp_left fun hnearer => ?_
      simp only [hmove, Move.isStepOf, List.countP_singleton, beq_self_eq_true, if_true]
      omega
  | frees hmove hfrees =>
      refine ⟨Fetcher.dismissed_of_frees hdismissed hfrees, .inl ?_⟩
      have hnone : move.isStepOf f.id = false := by
        cases move with
        | thread id disturbed =>
            have hother : id ≠ f.id := fun hid => hmove disturbed (hid ▸ rfl)
            simpa [Move.isStepOf] using hother
        | _ => rfl
      simpa [hnone] using Fetcher.toClose_of_frees hdismissed.stop hfrees

theorem toClose_follow (hs : shop.Orderly) (hclosed : shop.supervisor.queue.closed = true)
    (hf : f ∈ shop.supervisor.crew) (hdismissed : f.Dismissed)
    (h : Course.follow step moves shop = some last) :
    ∃ g ∈ last.supervisor.crew, g.id = f.id ∧ g.Dismissed ∧
      (g.toClose + moves.countP (·.isStepOf f.id) ≤ f.toClose ∨ g.toClose = 0) := by
  induction moves generalizing shop f with
  | nil =>
      obtain rfl := Option.some.inj h
      exact ⟨f, hf, rfl, hdismissed, .inl (Nat.le_refl _)⟩
  | cons move moves ih =>
      obtain ⟨next, hmove, hrest⟩ := Course.follow_cons_eq_some.1 h
      have hgoes := goes_of_step hmove
      obtain ⟨mid, hmid, hid, hdismissed, hnearer⟩ :=
        toClose_goes hs.staffed hclosed hf hdismissed hgoes
      obtain ⟨g, hg, hgid, hdismissed, hend⟩ :=
        ih (orderly_goes hs hgoes) (closed_goes hclosed hgoes) hmid hdismissed hrest
      rw [hid] at hgid hend
      refine ⟨g, hg, hgid, hdismissed, ?_⟩
      rw [List.countP_cons]
      rw [List.countP_singleton] at hnearer
      omega

/-- Nothing keeps a fetcher's thread: it neither sleeps in a put, nor waits for its latch, nor naps,
and until it is over it can make its next step. -/
structure IsFree (shop : Workshop ρ) (f : Fetcher ρ) : Prop where
  put : f.isAsleepInPut shop.supervisor.depot = false
  latch : f.phase = .latched → f.drainLatch.done = true
  pause : f.phase = .parked → f.napping = false
  goes : f.isOver = true ∨ ∀ disturbed, (shop.step (.thread f.id disturbed)).isSome = true

theorem isFree_of_dismissed (hs : shop.Sound) (hclosed : shop.supervisor.queue.closed = true)
    (hf : f ∈ shop.supervisor.crew) (hdismissed : f.Dismissed) : shop.IsFree f := by
  have hawake : f.isAsleepInPut shop.supervisor.depot = false := by
    have hnobody : shop.supervisor.depot.queue.asleepInPut = [] := hs.hushed hclosed
    simp [Fetcher.isAsleepInPut, hnobody]
  refine ⟨hawake, fun _ => hdismissed.latch, hdismissed.roused, ?_⟩
  cases hover : f.isOver with
  | true => exact .inl rfl
  | false =>
      right
      intro disturbed
      have hfound := Supervisor.fetcher?_of_mem_crew hs.orderly.staffed.unique hf
      have hgoes := (Fetcher.exists_stride hdismissed (hs.orderly.runs f hf) hawake
        disturbed).resolve_left (by simp [hover])
      simpa [step, Supervisor.stepThread?, hfound] using hgoes

/-- A call that closes, whoever comes between its tasks, ends with everybody dismissed. -/
theorem dismissed_of_call {call : Move} {during : List Move}
    (hcall : call = .close ∨ call = .abandon) (hs : begun.Sound)
    (hduring : Course.follow step (call :: during) begun = some ended)
    (hone : ∀ move ∈ during, move.isCall = false) (hdone : ended.isBusy = false) :
    ended.supervisor.queue.closed = true ∧ (∀ f ∈ ended.supervisor.crew, f.Dismissed) ∧
      (call = .close → ended.supervisor.liveIds = []) := by
  obtain ⟨told, hbegins, hrest⟩ := Course.follow_cons_eq_some.1 hduring
  have htold : told.Dismissing ∧ (call = .close → told.supervisor.liveIds = []) := by
    obtain rfl | rfl := hcall
    · cases goes_of_step hbegins with
      | close hfree => exact ⟨dismissing_begun hs.mindful hfree rfl, fun _ => by
          simp [Supervisor.liveIds, cleared]⟩
      | beside hmove => obtain ⟨_, h⟩ | h := hmove <;> cases h
    · cases goes_of_step hbegins with
      | abandon hfree => exact ⟨dismissing_begun hs.mindful hfree rfl, by rintro ⟨⟩⟩
      | beside hmove => obtain ⟨_, h⟩ | h := hmove <;> cases h
  have hnever : Course.Never step (fun _ move => move.isCall = true) during told :=
    Course.never_of_forall _ (fun move hmove _ => by simp [hone move hmove]) told
  have hended : ended.Orderly ∧ ended.Dismissing ∧
      (call = .close → ended.supervisor.liveIds = []) := by
    refine Course.follow_preserves_of_never
      (fun shop : Workshop ρ => shop.Orderly ∧ shop.Dismissing ∧
        (call = .close → shop.supervisor.liveIds = []))
      ?_ hrest hnever ⟨orderly_step hs.orderly hbegins, htold⟩
    rintro move state next ⟨horderly, hd, hvacant⟩ hmove hstep
    have hgoes := goes_of_step hstep
    rw [Bool.not_eq_true] at hmove
    exact ⟨orderly_goes horderly hgoes, dismissing_goes horderly hd hmove hgoes,
      fun hcloses => (liveIds_goes hd hmove hgoes).trans (hvacant hcloses)⟩
  obtain ⟨-, hd, hvacant⟩ := hended
  obtain ⟨hclosed, hall⟩ := dismissed_of_dismissing hd hdone
  exact ⟨hclosed, hall, hvacant⟩

/-- Closing gets everybody out.  Whatever a supervisor, its threads and all who hold on to them have
done before, and whoever comes between: when a call of close has run, or the supervisor was let go,
the queue is closed and stays so, and what was in it leaves it by being taken only; after a close
no fetcher is in a slot; and of all fetchers that were ever started, none sleeps in a put, waits for
its latch or naps from then on, and each settles its books, unless a call into its reader panics,
when its thread has made so many steps as it has to go, whatever others still ask of it. -/
theorem closing_gets_everybody_out {capacity threads : Nat} {store : FileStore}
    {factory : Nat → Except Failure ρ} {call : Move} (before during later : List Move)
    (hcall : call = .close ∨ call = .abandon)
    (hbefore : Course.follow step before (opened capacity threads store factory) = some begun)
    (hduring : Course.follow step (call :: during) begun = some ended)
    (hone : ∀ move ∈ during, move.isCall = false) (hdone : ended.isBusy = false)
    (hlater : Course.follow step later ended = some last) :
    last.supervisor.queue.closed = true ∧
    begun.supervisor.queue.items ++ Course.gather step brought (call :: during) begun =
      Course.gather step taken (call :: during) begun ++ ended.supervisor.queue.items ∧
    ended.supervisor.queue.items =
      Course.gather step taken later ended ++ last.supervisor.queue.items ∧
    (call = .close → ended.supervisor.fetcherCount = 0) ∧
    ∀ f ∈ ended.supervisor.crew, ∃ g ∈ last.supervisor.crew, g.id = f.id ∧ last.IsFree g ∧
      (f.toClose ≤ later.countP (·.isStepOf f.id) →
        g.duty.closed = true ∨ g.phase.isPanic = true) := by
  have hbegun : begun.Sound :=
    Course.follow_preserves Sound sound_step hbefore (sound_opened capacity threads store factory)
  have hended : ended.Sound := Course.follow_preserves Sound sound_step hduring hbegun
  have hlast : last.Sound := Course.follow_preserves Sound sound_step hlater hended
  obtain ⟨hclosed, hdismissed, hvacant⟩ := dismissed_of_call hcall hbegun hduring hone hdone
  have hshut : last.supervisor.queue.closed = true :=
    Course.follow_preserves (fun shop : Workshop ρ => shop.supervisor.queue.closed = true)
      (fun hclosed hstep => closed_goes hclosed (goes_of_step hstep)) hlater hclosed
  refine ⟨hshut, balanced_follow hduring, drained_follow hclosed hlater, fun hcloses => ?_,
    fun f hf => ?_⟩
  · simp [Supervisor.fetcherCount, hvacant hcloses]
  · obtain ⟨g, hg, hid, hfree, hnearer⟩ :=
      toClose_follow hended.orderly hclosed hf (hdismissed f hf) hlater
    refine ⟨g, hg, hid, isFree_of_dismissed hlast hshut hg hfree, fun hlong => ?_⟩
    exact Fetcher.closed_of_toClose (hlast.orderly.runs g hg) (by omega)

/-- A thread falls asleep in its second put, and is asked to drain. -/
def blocked : List Move :=
  [.addSplits [.range ⟨"a", 0, 3⟩]] ++ working 6 ++ threads 21 ++
    [.errand (.ask 0 (.stop .draining))]

/-- The forced wake-up of a close ends that put, and before the call closes the queue the thread
falls asleep again, to hand on the batch that it kept. -/
def overtaken : List Move := working 5 ++ threads 6 ++ working 3

/-- Whether that happens: the first fetcher sleeps in a put when the call begins, and has eight
steps to go when it is over. -/
def isOvertaken : Bool :=
  (Course.follow step blocked (opened 1 1 .empty fun _ =>
      .ok (.ranges (.withLimits 1 0)) : Workshop Backend)).any fun begun =>
    begun.supervisor.queue.asleepInPut == [0] &&
      (Course.follow step (.close :: overtaken) begun).any fun ended =>
        !ended.isBusy && ended.supervisor.crew.any (fun f => f.id == 0 && f.toClose == 8) &&
          (Course.follow step (threads 8) ended).isSome

/-- So its books are settled after those steps. -/
theorem overtaken_sleeper_gets_out :
    ∃ begun ended last : Workshop Backend,
      Course.follow step blocked (opened 1 1 .empty fun _ => .ok (.ranges (.withLimits 1 0))) =
          some begun ∧
        begun.supervisor.queue.asleepInPut = [0] ∧
        Course.follow step (.close :: overtaken) begun = some ended ∧ ended.isBusy = false ∧
        Course.follow step (threads 8) ended = some last ∧
        last.supervisor.queue.closed = true ∧
        ∃ g ∈ last.supervisor.crew, g.id = 0 ∧ last.IsFree g ∧
          (g.duty.closed = true ∨ g.phase.isPanic = true) := by
  have htest : isOvertaken = true := by decide +kernel
  obtain ⟨begun, hbefore, htest⟩ := (Option.any_eq_true _ _).1 htest
  rw [Bool.and_eq_true, beq_iff_eq] at htest
  obtain ⟨hasleep, htest⟩ := htest
  obtain ⟨ended, hduring, htest⟩ := (Option.any_eq_true _ _).1 htest
  simp only [Bool.and_eq_true, Bool.not_eq_true', List.any_eq_true, beq_iff_eq] at htest
  obtain ⟨⟨hdone, f, hf, hfirst, hsteps⟩, hsome⟩ := htest
  obtain ⟨last, hlater⟩ := Option.isSome_iff_exists.1 hsome
  obtain ⟨hclosed, -, -, -, hout⟩ := closing_gets_everybody_out blocked overtaken (threads 8)
    (.inl rfl) hbefore hduring (by decide) hdone hlater
  obtain ⟨g, hg, hid, hfree, hcloses⟩ := hout f hf
  have hlong : f.toClose ≤ (threads 8).countP (·.isStepOf f.id) := by
    rw [hsteps, hfirst]
    decide
  exact ⟨begun, ended, last, hbefore, hasleep, hduring, hdone, hlater, hclosed, g, hg,
    hid.trans hfirst, hfree, hcloses hlong⟩

end Workshop

end SplitFeed
