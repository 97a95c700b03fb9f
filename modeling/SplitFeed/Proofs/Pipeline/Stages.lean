/-
# The stages of a run

While the consumer feeds on the queue, the supervisor serves the job that the splits are, with books
on it, and the batches that were consumed are in the sink and in the consumer's totals.  When the
consumer leaves, the books are settled: what was taken and what is missing make up all that there
was to do.  From then on nothing changes about that.

So a run goes through three stages, unless it is doomed or its record limit is reached: it feeds, it
is fed, its sink is closed.  Something gets lost exactly when somebody gives splits up.
-/
import SplitFeed.Proofs.Pipeline.Running
import SplitFeed.Proofs.Supervisor.SplitBooks

namespace SplitFeed

/-- What a run is to do: splits of one sort, the files as they are when the splits are dealt, and
the sink, which was just opened. -/
structure Order where
  files : FileStore
  sink : Sink
  sort : ReaderSort
  splits : List Split

/-- What the supervisor has to do of it, while the sink is being written to. -/
def Order.job (order : Order) : Job :=
  ⟨order.files, order.sort, order.sink.Spares, order.splits⟩

namespace Run

variable {ι α : Type}

/-- Batches nobody had begun to read, with which the books are settled. -/
structure Accounts (ledger : Bookkeeping ι α) (missing : ι → List α)
    (taken : List (SplitBatch Record)) : Prop where
  unread : ∀ batch ∈ taken, batch.IsUnread
  settled : ledger.Settled taken missing

/-- The consumer feeds on the queue. -/
structure Feeding (ledger : Bookkeeping ι α) (order : Order) (limit : Option Nat)
    (lost : ι → List α) (taken : List (SplitBatch Record)) (run : Run) : Prop where
  phase : run.pipeline.phase.isFeeding = true
  draining : run.pipeline.draining = false
  tally : Tally limit order.sink order.files taken run.pipeline.sink run.pipeline.store
    run.pipeline.books
  serves : run.pipeline.supervisor.Serves ledger order.job run.agenda
    (taken ++ run.pipeline.phase.inHand) lost

/-- The consumer has left the queue, and is about to close the sink. -/
structure Fed (ledger : Bookkeeping ι α) (order : Order) (limit : Option Nat) (missing : ι → List α)
    (taken : List (SplitBatch Record)) (run : Run) : Prop where
  phase : run.pipeline.phase = .closingSink (.ok ())
  dealt : run.dealing = []
  errands : run.pipeline.errands = []
  tally : Tally limit order.sink order.files taken run.pipeline.sink run.pipeline.store
    run.pipeline.books
  accounts : Accounts ledger missing taken

/-- The sink was closed. -/
structure Closed (ledger : Bookkeeping ι α) (order : Order) (limit : Option Nat)
    (missing : ι → List α) (taken : List (SplitBatch Record)) (run : Run) : Prop where
  phase : run.pipeline.phase.Closing run.pipeline.books.summary (.ok ())
  dealt : run.dealing = []
  closed : ∃ filled meanwhile,
    Tally limit order.sink order.files taken filled meanwhile run.pipeline.books ∧
      filled.close meanwhile = (.ok (), run.pipeline.sink, run.pipeline.store)
  accounts : Accounts ledger missing taken

/-- The stages of a run that may end well under a limit that is not reached, with the batches that
were consumed and what is lost under each heading. -/
inductive Staged (ledger : Bookkeeping ι α) (order : Order) (limit : Option Nat) (lost : ι → List α)
    (taken : List (SplitBatch Record)) (run : Run) : Prop
  | feeding (h : Feeding ledger order limit lost taken run)
  | fed (h : Fed ledger order limit lost taken run)
  | closed (h : Closed ledger order limit lost taken run)

/-- The stages of a run without a limit, with what is lost of each split. -/
def Kept (order : Order) (lost : String → List (Option Record)) (run : Run) : Prop :=
  ∃ taken, Staged (splitBooks order.job) order none lost taken run

/-- The run may still end well, and its record limit is not reached. -/
structure Thrives (run : Run) : Prop where
  undoomed : ¬ run.pipeline.phase.Doomed
  unreached : run.pipeline.books.limitReached = false

/-- Somebody gives up something that counts: a thread that forsakes its splits while the consumer
still feeds on the queue, or the consumer, leaving while a fetcher has something in stock. -/
def GivesUp (ledger : Bookkeeping ι α) (counts : α → Prop) (run : Run) : Move → Prop
  | .thread fetcher _ =>
    run.pipeline.phase.isFeeding = true ∧ ∃ f ∈ run.pipeline.supervisor.crew,
      f.id = fetcher ∧ f.Forsakes ∧ Course.Costs counts (ledger.stock f)
  | .work =>
    run.Leaves ∧ ∃ f ∈ run.pipeline.supervisor.crew, Course.Costs counts (ledger.stock f)
  | _ => False

variable {ledger : Bookkeeping ι α} {order : Order} {limit : Option Nat} {lost : ι → List α}
  {run next : Run} {move : Move} {taken : List (SplitBatch Record)} {p q : Pipeline Backend}

theorem not_feeding_of_closing {summary : Report.Summary} {sofar : Except Failure Unit}
    {phase : ConsumerPhase} (h : phase.Closing summary sofar) : phase.isFeeding = false := by
  cases h <;> rfl

theorem not_doomed_of_feeding {phase : ConsumerPhase} (h : phase.isFeeding = true) :
    ¬ phase.Doomed := by
  intro hdoomed
  cases hdoomed with
  | closing failure hclosing => simp [not_feeding_of_closing hclosing] at h
  | _ => simp [ConsumerPhase.isFeeding] at h

/-- There is one stage in which a run feeds. -/
theorem feeding_of_staged (hk : Staged ledger order limit lost taken run)
    (hfeeds : run.pipeline.phase.isFeeding = true) :
    Feeding ledger order limit lost taken run := by
  cases hk with
  | feeding hf => exact hf
  | fed hf => simp [hf.phase, ConsumerPhase.isFeeding] at hfeeds
  | closed hc => simp [not_feeding_of_closing hc.phase] at hfeeds

/-- Splits are given up exactly if anything is. -/
theorem givesUp_iff_abandons (hledger : ledger.Orderly order.job)
    (hk : Staged ledger order limit lost taken run) :
    run.GivesUp ledger (fun _ => True) move ↔ run.Abandons move := by
  have hidle (hfeeds : run.pipeline.phase.isFeeding = true) (f : Fetcher Backend)
      (hf : f ∈ run.pipeline.supervisor.crew) :
      Course.Costs (fun _ => True) (ledger.stock f) ↔ ¬ f.IsDone :=
    have hserves := (feeding_of_staged hk hfeeds).serves
    hledger.idle hserves.toHeeds hserves.right hf
  cases move with
  | timeOut _ | late => exact Iff.rfl
  | thread fetcher disturbed =>
      refine and_congr_right fun hfeeds => exists_congr fun f => and_congr_right fun hf =>
        and_congr_right fun _ => and_iff_left_of_imp fun hforsakes => ?_
      obtain ⟨⟨failed, hphase⟩, hspent⟩ := hforsakes
      exact (hidle hfeeds f hf).2 (not_or.2 ⟨by simp [hphase, Phase.isOut], hspent⟩)
  | work =>
      exact and_congr_right fun hleaves => exists_congr fun f => and_congr_right fun hf =>
        hidle (hleaves.phase ▸ rfl) f hf

/-- Where nobody gives anything up, nothing is lost. -/
theorem staged_without_loss (hk : Staged ledger order limit lost taken next)
    (hkeeps : ∀ counts, ¬ run.GivesUp ledger counts move) :
    ∃ loss, Staged ledger order limit (fun heading => loss heading ++ lost heading) taken next ∧
      ∀ counts, Course.Costs counts loss ↔ run.GivesUp ledger counts move :=
  ⟨fun _ => [], hk, fun counts => iff_of_false Course.not_costs_nothing (hkeeps counts)⟩

/-! ### Steps of the consumer -/

theorem Supervisor.perform_sweep (slot : Nat) (s : Supervisor Backend) :
    s.perform (.sweep slot) =
      (.ok (((s.vacate slot).1.toList.map (.ask · (.stop .immediate))).map Task.errand),
        (s.vacate slot).2) := by
  rcases hvacate : s.vacate slot with ⟨_ | id, after⟩ <;> simp [Supervisor.perform, hvacate]

/-- A consumer that has no tasks but its errands goes on feeding. -/
theorem staged_of_serves (hdealt : run.dealing = []) (hfeeds : q.phase.isFeeding = true)
    (hdraining : q.draining = false)
    (htally : Tally limit order.sink order.files taken q.sink q.store q.books)
    (hserves : q.supervisor.Serves ledger order.job (q.errands.map .errand)
      (taken ++ q.phase.inHand) lost) :
    Staged ledger order limit lost taken { run with pipeline := q } := by
  refine .feeding ⟨hfeeds, hdraining, htally, ?_⟩
  simpa only [agenda, hdealt, List.nil_append] using hserves

/-- What the consumer does while it feeds keeps the books; it loses something exactly if it leaves
while some fetcher has something in stock. -/
theorem staged_feeds (hjob : order.job.IsFeasible) (hledger : ledger.Orderly order.job)
    (hf : Feeding ledger order limit lost taken run) (hdealt : run.dealing = [])
    (herrands : run.pipeline.errands = [])
    (hgood : ({ run with pipeline := q } : Run).Thrives) (h : Feeds run.pipeline q) :
    ∃ loss, Staged ledger order limit (fun heading => loss heading ++ lost heading)
        (taken ++ run.pipeline.consumes) { run with pipeline := q } ∧
      ∀ counts, Course.Costs counts loss ↔ run.GivesUp ledger counts .work := by
  obtain ⟨hfeeds, hdraining, htally, hserves⟩ := hf
  have hagenda : run.agenda = [] := by simp [agenda, hdealt, herrands]
  rw [hagenda] at hserves
  have hstill (hhand : run.pipeline.phase.inHand = []) :
      taken ++ run.pipeline.consumes = taken := by
    rw [Pipeline.consumes_of_emptyHanded hhand, List.append_nil]
  have hstays (hnot : run.pipeline.phase ≠ .lastLook) (counts : α → Prop) :
      ¬ run.GivesUp ledger counts .work :=
    fun hgives => hnot hgives.1.phase
  cases h with
  | @turn phase hhand _ hempty hgoesOn hstays' _ =>
      rw [hstill hhand]
      refine staged_without_loss (staged_of_serves hdealt (hgoesOn hfeeds hdraining) hdraining
        htally ?_) fun _ hgives => hstays' hgives.1.phase hgives.1.queue
      simpa [Pipeline.enter, herrands, hhand, hempty] using hserves
  | ask hphase bell =>
      obtain ⟨hitems, hclosed⟩ := run.pipeline.supervisor.queue.availability_same
      rw [hstill (by simp [hphase, ConsumerPhase.inHand])]
      refine staged_without_loss (staged_of_serves hdealt rfl hdraining htally ?_)
        (hstays (by simp [hphase]))
      have hasks : (run.pipeline.supervisor.withQueue
          run.pipeline.supervisor.queue.availability.2).Serves ledger order.job []
            (taken ++ run.pipeline.phase.inHand) lost :=
        Supervisor.serves_congr hledger hserves rfl rfl rfl rfl hitems hclosed hserves.agrees
      simpa [Pipeline.enter, Pipeline.withQueue, herrands, hphase, ConsumerPhase.inHand] using hasks
  | poll hphase hitems =>
      rw [hstill (by simp [hphase, ConsumerPhase.inHand])]
      refine staged_without_loss (staged_of_serves hdealt rfl hdraining htally ?_)
        (hstays (by simp [hphase]))
      have hpolls := Supervisor.serves_poll hledger hserves hitems
      simpa [Pipeline.enter, Pipeline.withQueue, herrands, hphase, ConsumerPhase.inHand]
        using hpolls
  | @consume batch books sink store recycled draining errands hphase hconsumed hgoes =>
      have htally' := tally_consume htally hconsumed
      -- As the limit is not reached, the consumer goes on as before.
      have hreached : books.limitReached = false := hgood.unreached
      obtain ⟨rfl, rfl⟩ : draining = run.pipeline.draining ∧ errands = [] := by
        simpa [hreached] using hgoes
      obtain ⟨_, hsent, -⟩ := htally'.sent
      obtain ⟨-, hagrees, -⟩ := Sink.sendAll_cases hsent
      have hconsumes : run.pipeline.consumes = [batch] := by
        simp [Pipeline.consumes, herrands, hphase, hconsumed]
      rw [hconsumes]
      refine staged_without_loss (staged_of_serves hdealt rfl hdraining htally' ?_)
        (hstays (by simp [hphase]))
      rw [hphase] at hserves
      have hsends : { run.pipeline.supervisor with
          depot := { run.pipeline.supervisor.depot with recycled, store } }.Serves ledger
            order.job [] (taken ++ [batch]) lost :=
        Supervisor.serves_congr hledger hserves rfl rfl rfl rfl rfl rfl hagrees
      simpa [Pipeline.withStore, ConsumerPhase.inHand] using hsends
  | @sweep bell slot hphase =>
      obtain ⟨more, hmore, hsweeps⟩ := Supervisor.serves_perform hjob hledger
        (Supervisor.serves_sweep slot hledger hserves)
      have hstore := Supervisor.store_perform (.sweep slot) run.pipeline.supervisor
      rw [Supervisor.perform_sweep] at hmore hsweeps hstore
      obtain rfl := Except.ok.inj hmore
      have hsame : (run.pipeline.supervisor.vacate slot).2.depot.store =
          run.pipeline.store := hstore
      rw [← hsame] at htally
      rw [hstill (by simp [hphase, ConsumerPhase.inHand])]
      refine staged_without_loss (staged_of_serves hdealt rfl hdraining htally ?_)
        (hstays (by simp [hphase]))
      simpa [hphase, ConsumerPhase.inHand] using hsweeps
  | leave hphase hitems =>
      have hhand : run.pipeline.phase.inHand = [] := by simp [hphase, ConsumerPhase.inHand]
      rw [hhand, List.append_nil] at hserves
      obtain ⟨left, hsettled, hleft⟩ := hledger.ends hserves.toHeeds hserves.right hitems
      rw [hstill hhand]
      refine ⟨left, .fed ⟨rfl, hdealt, herrands, htally, ?_, hsettled⟩, fun counts => ?_⟩
      · exact fun batch hmem => (hserves.neat batch (List.mem_append_left _ hmem)).unread
      · rw [hleft]
        exact ⟨fun hstock => ⟨⟨hdealt, herrands, hphase, hitems⟩, hstock⟩, fun h => h.2⟩
  | release hphase => simp [hphase, ConsumerPhase.isFeeding] at hfeeds
  | fail hdoomed => exact absurd hdoomed hgood.undoomed

/-! ### Steps of the others -/

/-- A stage in which nobody feeds does not depend on the fetchers, but for their files. -/
theorem staged_beside {supervisor : Supervisor Backend}
    (hk : Staged ledger order limit lost taken run)
    (hpast : run.pipeline.phase.isFeeding = false)
    (hstore : supervisor.depot.store = run.pipeline.store) :
    Staged ledger order limit lost taken
      { run with pipeline := { run.pipeline with supervisor } } := by
  cases hk with
  | feeding h => exact absurd h.phase (by simp [hpast])
  | fed h =>
      refine .fed ⟨h.phase, h.dealt, h.errands, ?_, h.accounts⟩
      simpa only [Pipeline.store, hstore] using h.tally
  | closed h =>
      refine .closed ⟨h.phase, h.dealt, ?_, h.accounts⟩
      simpa only [Pipeline.store, hstore] using h.closed

/-- A fetch thread's step loses something exactly if the thread forsakes its splits while the
consumer still feeds. -/
theorem staged_thread {fetcher : Nat} {disturbed : List Bool} (hledger : ledger.Orderly order.job)
    (hk : Staged ledger order limit lost taken run)
    (h : run.step (.thread fetcher disturbed) = some next) :
    ∃ loss, Staged ledger order limit (fun heading => loss heading ++ lost heading) taken next ∧
      ∀ counts, Course.Costs counts loss ↔
        run.GivesUp ledger counts (.thread fetcher disturbed) := by
  obtain ⟨supervisor, hstep, rfl⟩ := Option.map_eq_some_iff.1 h
  have hstore := (Supervisor.frame_of_stepThread? hstep).2
  cases hfeeds : run.pipeline.phase.isFeeding with
  | false =>
      exact staged_without_loss (staged_beside hk hfeeds hstore) (by simp [GivesUp, hfeeds])
  | true =>
      obtain ⟨hphase, hdraining, htally, hserves⟩ := feeding_of_staged hk hfeeds
      obtain ⟨loss, hserves', hloss⟩ := Supervisor.serves_thread hledger hserves hstep
      refine ⟨loss, .feeding ⟨hphase, hdraining, ?_, hserves'⟩, fun counts => ?_⟩
      · simpa only [Pipeline.store, hstore] using htally
      · rw [hloss]
        exact ⟨fun hforsakes => ⟨hfeeds, hforsakes⟩, fun hgives => hgives.2⟩

/-- The end of a nap is a nudge. -/
theorem staged_timeOut {fetcher : Nat} (hledger : ledger.Orderly order.job)
    (hk : Staged ledger order limit lost taken run)
    (h : run.step (.timeOut fetcher) = some next) :
    Staged ledger order limit lost taken next := by
  obtain ⟨sleeper, hfound, rfl⟩ := Option.map_eq_some_iff.1 h
  have hnudge : (run.pipeline.supervisor.run (.nudge fetcher .rouse)).2 =
      run.pipeline.supervisor.replace sleeper.timeOut := by
    simp only [Supervisor.run, hfound]
    rfl
  have hstore := Supervisor.store_run (.nudge fetcher .rouse) run.pipeline.supervisor
  rw [hnudge] at hstore
  cases hfeeds : run.pipeline.phase.isFeeding with
  | false => exact staged_beside hk hfeeds hstore
  | true =>
      obtain ⟨hphase, hdraining, htally, hserves⟩ := feeding_of_staged hk hfeeds
      have hserves' : (run.pipeline.supervisor.run (.nudge fetcher .rouse)).2.Serves ledger
          order.job run.agenda _ lost := Supervisor.serves_rouse hledger hserves
      rw [hnudge] at hserves'
      exact .feeding ⟨hphase, hdraining, htally, hserves'⟩

theorem staged_late (hk : Staged ledger order limit lost taken run)
    (h : run.step .late = some next) : Staged ledger order limit lost taken next := by
  obtain rfl := Option.some.inj h
  cases hk with
  | feeding hf => exact .feeding ⟨hf.phase, hf.draining, hf.tally, hf.serves⟩
  | fed hf => exact .fed ⟨hf.phase, hf.dealt, hf.errands, hf.tally, hf.accounts⟩
  | closed hc => exact .closed ⟨hc.phase, hc.dealt, hc.closed, hc.accounts⟩

/-- While the consumer feeds, tasks that are left of the dealing and errands are done first. -/
theorem staged_tasks (hjob : order.job.IsFeasible) (hledger : ledger.Orderly order.job)
    (hf : Feeding ledger order limit lost taken run)
    (hbusy : run.dealing ≠ [] ∨ run.pipeline.errands ≠ []) (h : run.step .work = some next) :
    Staged ledger order limit lost taken next := by
  obtain ⟨hphase, hdraining, htally, hserves⟩ := hf
  cases hdealing : run.dealing with
  | cons task later =>
      rw [agenda, hdealing, List.cons_append] at hserves
      obtain ⟨more, hmore, hserves'⟩ := Supervisor.serves_perform hjob hledger hserves
      have hstore := Supervisor.store_perform task run.pipeline.supervisor
      rcases hperform : run.pipeline.supervisor.perform task with ⟨result, supervisor⟩
      rw [hperform] at hmore hserves' hstore
      obtain rfl : result = .ok more := hmore
      have hsame : supervisor.depot.store = run.pipeline.store := hstore
      rw [← hsame] at htally
      simp only [step, hdealing, hperform, Option.some.injEq] at h
      subst h
      refine .feeding ⟨hphase, hdraining, htally, ?_⟩
      simpa only [agenda, List.append_assoc] using hserves'
  | nil =>
      obtain ⟨errand, rest, herrands⟩ :=
        List.exists_cons_of_ne_nil (hbusy.resolve_left (absurd hdealing))
      rw [agenda, hdealing, herrands, List.nil_append, List.map_cons] at hserves
      obtain ⟨more, hmore, hserves'⟩ := Supervisor.serves_perform hjob hledger hserves
      rw [Supervisor.perform_errand] at hmore hserves'
      obtain rfl := Except.ok.inj hmore
      simp only [step, hdealing, Option.map_eq_some_iff] at h
      obtain ⟨q, hstep, rfl⟩ := h
      rw [errand_consumer herrands hstep]
      have hsame : (run.pipeline.supervisor.run errand).2.depot.store = run.pipeline.store :=
        Supervisor.store_run errand run.pipeline.supervisor
      rw [← hsame] at htally
      refine .feeding ⟨hphase, hdraining, htally, ?_⟩
      simpa only [agenda, hdealing, List.nil_append, List.map_append] using hserves'

/-- The consumer closes the sink once it is fed. -/
theorem staged_fed (hf : Fed ledger order limit lost taken run)
    (hgood : ¬ next.pipeline.phase.Doomed) (h : run.step .work = some next) :
    Staged ledger order limit lost taken next := by
  simp only [step, hf.dealt, Option.map_eq_some_iff, Pipeline.stepConsumer?, hf.errands, hf.phase,
    Option.some.injEq] at h
  obtain ⟨q, rfl, rfl⟩ := h
  rcases hclose : run.pipeline.sink.close run.pipeline.store with ⟨result, sink, store⟩
  simp only [Pipeline.closeSink, hclose] at hgood ⊢
  cases result with
  | error failure =>
      exact absurd (@ConsumerPhase.Doomed.closing run.pipeline.books.summary _ _ .dismissing) hgood
  | ok _ =>
      exact .closed ⟨.dismissing, rfl, ⟨_, _, hf.tally, hclose⟩, hf.accounts⟩

/-- After that it leaves sink, files and books alone. -/
theorem staged_closed (hc : Closed ledger order limit lost taken run)
    (hgood : ¬ next.pipeline.phase.Doomed) (h : run.step .work = some next) :
    Staged ledger order limit lost taken next := by
  simp only [step, hc.dealt, Option.map_eq_some_iff] at h
  obtain ⟨q, hstep, rfl⟩ := h
  obtain ⟨⟨hbooks, hsink, hstore⟩, later, hclosing⟩ := closing_consumer hc.phase hstep
  cases later with
  | error failure => exact absurd (.closing _ hclosing) hgood
  | ok _ =>
      refine .closed ⟨hclosing, rfl, ?_, hc.accounts⟩
      simpa only [hbooks, hsink, hstore] using hc.closed

/-- Only who feeds has a batch to consume, and only without other tasks. -/
theorem consumes_of_busy (hbusy : run.dealing ≠ [] ∨ run.pipeline.errands ≠ []) :
    run.consumes .work = [] := by
  simp only [consumes, List.isEmpty_iff, ite_eq_right_iff]
  intro hdealt
  have herrands := hbusy.resolve_left (absurd hdealt)
  unfold Pipeline.consumes
  split
  · next hnone _ => exact absurd hnone herrands
  · rfl

theorem consumes_of_phase (hhand : run.pipeline.phase.inHand = []) : run.consumes move = [] := by
  cases move with
  | work =>
      simp only [consumes, Pipeline.consumes_of_emptyHanded hhand, ite_self]
  | _ => rfl

theorem staged_work (hjob : order.job.IsFeasible) (hledger : ledger.Orderly order.job)
    (hk : Staged ledger order limit lost taken run) (hgood : next.Thrives)
    (h : run.step .work = some next) :
    ∃ loss, Staged ledger order limit (fun heading => loss heading ++ lost heading)
        (taken ++ run.consumes .work) next ∧
      ∀ counts, Course.Costs counts loss ↔ run.GivesUp ledger counts .work := by
  cases hk with
  | feeding hf =>
      by_cases hfree : run.dealing = [] ∧ run.pipeline.errands = []
      · obtain ⟨hdealt, herrands⟩ := hfree
        simp only [step, hdealt, Option.map_eq_some_iff] at h
        obtain ⟨q, hstep, rfl⟩ := h
        have hfeeds := feeds_of_consumer (taking_of_feeding hf.phase) herrands hstep
        have hconsumes : run.consumes .work = run.pipeline.consumes := by simp [consumes, hdealt]
        rw [← hdealt] at hgood
        have hafter := staged_feeds hjob hledger hf hdealt herrands hgood hfeeds
        rwa [hdealt, ← hconsumes] at hafter
      · have hbusy := not_and_or.1 hfree
        rw [consumes_of_busy hbusy, List.append_nil]
        exact staged_without_loss (staged_tasks hjob hledger hf hbusy h)
          fun _ hgives => hfree ⟨hgives.1.dealt, hgives.1.errands⟩
  | fed hf =>
      rw [consumes_of_phase (by simp [hf.phase, ConsumerPhase.inHand]), List.append_nil]
      refine staged_without_loss (staged_fed hf hgood.undoomed h) fun _ hgives => ?_
      cases hf.phase.symm.trans hgives.1.phase
  | closed hc =>
      have hpast := not_feeding_of_closing hc.phase
      rw [consumes_of_phase (ConsumerPhase.inHand_of_past hpast), List.append_nil]
      refine staged_without_loss (staged_closed hc hgood.undoomed h) fun _ hgives => ?_
      simp [hgives.1.phase, ConsumerPhase.isFeeding] at hpast

/-! ### Every move -/

/-- A run that can only end with an error goes on that way. -/
theorem doomed_step (hdoomed : run.pipeline.phase.Doomed) (h : run.step move = some next) :
    next.pipeline.phase.Doomed := by
  cases move with
  | thread fetcher disturbed =>
      obtain ⟨supervisor, -, rfl⟩ := Option.map_eq_some_iff.1 h
      exact hdoomed
  | timeOut fetcher =>
      obtain ⟨sleeper, -, rfl⟩ := Option.map_eq_some_iff.1 h
      exact hdoomed
  | late =>
      obtain rfl := Option.some.inj h
      exact hdoomed
  | work =>
      simp only [step] at h
      split at h
      · obtain ⟨q, hstep, rfl⟩ := Option.map_eq_some_iff.1 h
        exact (doomed_consumer hdoomed hstep).1
      · split at h
        · obtain rfl := Option.some.inj h
          exact hdoomed
        · obtain rfl := Option.some.inj h
          exact @ConsumerPhase.Doomed.closing run.pipeline.books.summary _ _ .ended

/-- Only a run that thrives can thrive after a move. -/
theorem thrives_of_step (h : run.step move = some next) (hgood : next.Thrives) : run.Thrives where
  undoomed hdoomed := hgood.undoomed (doomed_step hdoomed h)
  unreached := by
    rw [← Bool.not_eq_true]
    exact fun hreached => absurd (reached_step h hreached) (by simp [hgood.unreached])

theorem staged_step (hjob : order.job.IsFeasible) (hledger : ledger.Orderly order.job)
    (hgood : next.Thrives) (hk : Staged ledger order limit lost taken run)
    (h : run.step move = some next) :
    ∃ loss, Staged ledger order limit (fun heading => loss heading ++ lost heading)
        (taken ++ run.consumes move) next ∧
      ∀ counts, Course.Costs counts loss ↔ run.GivesUp ledger counts move := by
  cases move with
  | work => exact staged_work hjob hledger hk hgood h
  | thread fetcher disturbed =>
      rw [consumes, List.append_nil]
      exact staged_thread hledger hk h
  | timeOut fetcher =>
      rw [consumes, List.append_nil]
      exact staged_without_loss (staged_timeOut hledger hk h) fun _ => not_false
  | late =>
      rw [consumes, List.append_nil]
      exact staged_without_loss (staged_late hk h) fun _ => not_false

/-- The limit that a run is under is in its books. -/
theorem limit_of_staged (hk : Staged ledger order limit lost taken run) :
    run.pipeline.books.limit = limit := by
  cases hk with
  | feeding hf => exact hf.tally.limited
  | fed hf => exact hf.tally.limited
  | closed hc =>
      obtain ⟨_, _, htally, -⟩ := hc.closed
      exact htally.limited

variable {moves : List Move} {last : Run}

/-- Without a limit a run thrives unless it is doomed. -/
theorem thrives_of_unlimited (hk : Staged ledger order none lost taken run)
    (hgood : ¬ last.pipeline.phase.Doomed) (h : Course.follow step moves run = some last) :
    last.Thrives := by
  have hlimit : last.pipeline.books.limit = none :=
    Course.follow_preserves (fun run => run.pipeline.books.limit = none)
      (fun hnone hstep => (books_step hstep).1.trans hnone) h (limit_of_staged hk)
  exact ⟨hgood, by simp [ConsumerBooks.limitReached, hlimit]⟩

/-- On a course on which the run thrives, something that counts is lost exactly if a move is made
that gives it up. -/
theorem staged_follow (counts : α → Prop) {kind : Run → Move → Prop}
    (hkind : ∀ {run move taken lost}, Staged ledger order limit lost taken run →
      (run.GivesUp ledger counts move ↔ kind run move))
    (hjob : order.job.IsFeasible) (hledger : ledger.Orderly order.job) (hgood : last.Thrives)
    (hk : Staged ledger order limit lost taken run) (h : Course.follow step moves run = some last) :
    ∃ loss, Staged ledger order limit (fun heading => loss heading ++ lost heading)
        (taken ++ consumed moves run) last ∧
      (Course.Costs counts loss ↔ ¬ Course.Never step kind moves run) := by
  refine Course.exists_losses Thrives (fun taken lost => Staged ledger order limit lost taken)
    counts consumes thrives_of_step (fun hnext hstaged hstep => ?_) taken h hgood hk
  obtain ⟨loss, hafter, hloss⟩ := staged_step hjob hledger hnext hstaged hstep
  exact ⟨loss, hafter, (hloss counts).trans (hkind hstaged)⟩

/-- On a course that does not end in doom something is lost exactly if somebody gives splits up on
the way. -/
theorem kept_follow {lost : String → List (Option Record)} (hjob : order.job.IsProper)
    (hk : Kept order lost run) (hgood : ¬ last.pipeline.phase.Doomed)
    (h : Course.follow step moves run = some last) :
    ∃ loss : String → List (Option Record), Kept order (fun id => loss id ++ lost id) last ∧
      ((∃ id, loss id ≠ []) ↔ ¬ Course.Never step Abandons moves run) := by
  obtain ⟨taken, hk⟩ := hk
  have hledger := Supervisor.splitBooks_orderly hjob.once
  obtain ⟨loss, hafter, hloss⟩ := staged_follow (fun _ => True) (givesUp_iff_abandons hledger)
    hjob.feasible hledger (thrives_of_unlimited hk hgood h) hk h
  exact ⟨loss, ⟨_, hafter⟩, Course.costs_anything.symm.trans hloss⟩

end Run

end SplitFeed
