/-
# Runs

A run is a pipeline with what is left of dealing its splits: the consumer begins when all of them
were dealt, but the fetch threads that were started by then do not wait for that.  Threads and
whoever deals or consumes may take their turns in any order.

The consumer feeds on the queue until it takes its last look.  Then it closes the sink and the
supervisor, whatever the threads go on doing.
-/
import SplitFeed.Pipeline
import SplitFeed.Proofs.Course
import SplitFeed.Proofs.Pipeline.Consuming
import SplitFeed.Proofs.Supervisor.Floor

namespace SplitFeed

namespace ConsumerPhase

/-- Whether the consumer still feeds on the queue, and not because its record limit was reached. -/
def isFeeding : ConsumerPhase → Bool
  | listening | polling | consuming _ | asking | looking _ | reaping _ _ | lastLook | waiting _ =>
    true
  | _ => false

/-- Whether the consumer may still take batches from the queue. -/
def isTaking : ConsumerPhase → Bool
  | counting _ _ => true
  | phase => phase.isFeeding

/-- The batch that the consumer has taken from the queue and not consumed yet. -/
def inHand : ConsumerPhase → List (SplitBatch Record)
  | consuming batch => [batch]
  | _ => []

theorem inHand_of_past {phase : ConsumerPhase} (h : phase.isFeeding = false) :
    phase.inHand = [] := by
  cases phase with
  | consuming _ => cases h
  | _ => rfl

/-- Phases in which the sink was closed, with the result of the run so far; when that is over, it
has a given summary if all went well. -/
inductive Closing (summary : Report.Summary) (sofar : Except Failure Unit) : ConsumerPhase → Prop
  | dismissing : Closing summary sofar (dismissing sofar)
  | closingQueue (fetchers : List Nat) : Closing summary sofar (closingQueue sofar fetchers)
  | joining (fetchers stragglers : List Nat) :
      Closing summary sofar (joining sofar fetchers stragglers)
  | lastWords : Closing summary sofar (lastWords sofar)
  | ended : Closing summary sofar (.over (sofar.map fun _ => summary))

/-- A run that is over with a summary has the one that it is to have. -/
theorem summary_of_closing {summary other : Report.Summary}
    (h : Closing summary (.ok ()) (.over (.ok other))) : other = summary := by
  generalize hend : ConsumerPhase.over (.ok other) = phase at h
  cases h with
  | ended => exact Except.ok.inj (ConsumerPhase.over.inj hend)
  | _ => cases hend

/-- Phases of a run that can only end with an error. -/
inductive Doomed : ConsumerPhase → Prop
  | closingSink (failure : Failure) : Doomed (closingSink (.error failure))
  | closing {summary phase} (failure : Failure) (h : Closing summary (.error failure) phase) :
      Doomed phase
  | fallen (cause : Word.Overflow) : Doomed (fallen cause)

theorem not_doomed_over (summary : Report.Summary) : ¬ Doomed (.over (.ok summary)) := by
  intro hdoomed
  generalize hend : ConsumerPhase.over (.ok summary) = phase at hdoomed
  cases hdoomed with
  | closing failure hclosing =>
      cases hclosing with
      | ended => cases hend
      | _ => cases hend
  | _ => cases hend

end ConsumerPhase

/-- A pipeline, and the tasks that are left of dealing its splits. -/
structure Run where
  pipeline : Pipeline Backend
  dealing : List Task := []

/-- Either there is no failure that nobody has heard of, or the oldest one is heard. -/
theorem Supervisor.checkErrors_cases {ρ : Type} (s : Supervisor ρ) :
    (s.depot.failures = [] ∧ s.checkErrors = (.ok (), s)) ∨
      ∃ failure failures, s.depot.failures = failure :: failures ∧
        s.checkErrors =
          (.error (.threadGaveUp failure), { s with depot := { s.depot with failures } }) := by
  cases hfailures : s.depot.failures with
  | nil => exact .inl ⟨rfl, by simp [checkErrors, takeFailure, hfailures]⟩
  | cons failure failures =>
      exact .inr ⟨failure, failures, rfl, by simp [checkErrors, takeFailure, hfailures]⟩

namespace Pipeline

/-- The batch that the consumer consumes next without trouble, if that is what it does. -/
def consumes (p : Pipeline Backend) : List (SplitBatch Record) :=
  match p.errands, p.phase with
  | [], .consuming batch =>
    match (p.books.consume batch p.sink p.store).1 with
    | .ok _ => [batch]
    | .error _ => []
  | _, _ => []

theorem consumes_of_emptyHanded {p : Pipeline Backend} (h : p.phase.inHand = []) :
    p.consumes = [] := by
  unfold consumes
  split
  · next hphase => simp [hphase, ConsumerPhase.inHand] at h
  · rfl

end Pipeline

namespace Run

/-- What can happen in a run next. -/
inductive Move where
  /-- A fetcher's thread makes a step. -/
  | thread (fetcher : Nat) (disturbed : List Bool)
  /-- A nap is over. -/
  | timeOut (fetcher : Nat)
  /-- The dealing goes on, or the consumer makes a step. -/
  | work
  /-- The time for joining threads is up. -/
  | late

/-- The run after a move, if the move can be made.  A task of the dealing that fails ends the
run. -/
def step (move : Move) (run : Run) : Option Run :=
  let pipeline := run.pipeline
  let supervisor := pipeline.supervisor
  match move with
  | .thread fetcher disturbed =>
    (supervisor.stepThread? fetcher disturbed).map fun supervisor =>
      { run with pipeline := { pipeline with supervisor } }
  | .timeOut fetcher =>
    (supervisor.fetcher? fetcher).map fun fetcher =>
      { run with pipeline := { pipeline with supervisor := supervisor.replace fetcher.timeOut } }
  | .work =>
    match run.dealing with
    | [] => pipeline.stepConsumer?.map fun pipeline => { run with pipeline }
    | task :: later =>
      match supervisor.perform task with
      | (.ok more, supervisor) =>
        some { pipeline := { pipeline with supervisor }, dealing := more ++ later }
      | (.error cause, supervisor) =>
        let phase := .over (.error (.splitsNotDealt cause))
        some { pipeline := { pipeline with supervisor, phase } }
  | .late => some { run with pipeline := { pipeline with late := true } }

/-- A run about to deal its splits, which the settings describe. -/
def opened (settings : Settings) (store : FileStore) : Except RunError Run := do
  let splits ← settings.source.splits.mapError .overflow
  let (source, expected) ← settings.source.describe.mapError .overflow
  let runtime := settings.runtime
  let (sink, store) ←
    (Sink.ofSettings settings.sink store).mapError fun cause => .failed (.sinkNotOpened cause)
  let idle := Supervisor.create runtime.queueCapacity runtime.fetcherThreads store
    fun _ => .ok (Backend.ofSettings settings.source)
  let books := { totals := { source, expected }, limit := runtime.recordLimit : ConsumerBooks }
  let supervisor := Floor.dealtPast splits idle
  return {
    pipeline := { supervisor, sink, books, closeTimeoutMs := runtime.closeTimeoutMs }
    dealing := Floor.dealing splits idle }

/-- What is still to be done for fetchers: what is left of the dealing, or the consumer's
errands. -/
def agenda (run : Run) : List Task :=
  run.dealing ++ run.pipeline.errands.map .errand

/-- The consumer is about to take its last look, at an empty queue. -/
structure Leaves (run : Run) : Prop where
  dealt : run.dealing = []
  errands : run.pipeline.errands = []
  phase : run.pipeline.phase = .lastLook
  queue : run.pipeline.supervisor.queue.items = []

/-- Somebody gives splits up: a thread that forsakes them while the consumer still feeds on the
queue, or the consumer, leaving while some fetcher is not done. -/
def Abandons (run : Run) : Move → Prop
  | .thread fetcher _ =>
    run.pipeline.phase.isFeeding = true ∧
      ∃ f ∈ run.pipeline.supervisor.crew, f.id = fetcher ∧ f.Forsakes
  | .work => run.Leaves ∧ ∃ f ∈ run.pipeline.supervisor.crew, ¬ f.IsDone
  | _ => False

/-- A thread raises the idle flag over the heads of splits. -/
def Hasty (run : Run) : Move → Prop
  | .thread fetcher _ => ∃ f ∈ run.pipeline.supervisor.crew, f.id = fetcher ∧ f.IsHasty
  | _ => False

instance (run : Run) (move : Move) : Decidable (run.Hasty move) :=
  match move with
  | .thread id _ =>
    inferInstanceAs (Decidable (∃ f ∈ run.pipeline.supervisor.crew, f.id = id ∧ f.IsHasty))
  | .timeOut _ | .work | .late => isFalse not_false

/-- The batch that a move consumes without trouble, if it does that. -/
def consumes (run : Run) : Move → List (SplitBatch Record)
  | .work => if run.dealing.isEmpty then run.pipeline.consumes else []
  | .thread _ _ | .timeOut _ | .late => []

/-- The batches that are consumed without trouble on a course. -/
def consumed (moves : List Move) (run : Run) : List (SplitBatch Record) :=
  Course.gather step consumes moves run

/-! ### How runs end -/

section Ends

variable {ρ : Type} {p q : Pipeline ρ}

/-- The consumer runs errands before it goes on. -/
theorem errand_consumer [SplitReader ρ] {errand : Errand} {rest : List Errand}
    (herrands : p.errands = errand :: rest)
    (h : p.stepConsumer? = some q) :
    q = { p with
      supervisor := (p.supervisor.run errand).2
      errands := (p.supervisor.run errand).1 ++ rest } := by
  simp only [Pipeline.stepConsumer?, herrands] at h
  exact (Option.some.inj h).symm

theorem join_cases {sofar : Except Failure Unit} {fetchers stragglers : List Nat}
    (h : p.join? sofar fetchers stragglers = some q) :
    ∃ later phase, q = p.enter phase ∧
      phase.Closing p.books.summary (Pipeline.firstError sofar later) := by
  have hgoes : Pipeline.firstError sofar (.ok ()) = sofar := by cases sofar <;> rfl
  unfold Pipeline.join? at h
  split at h
  · split at h
    · cases h
      exact ⟨.ok (), _, rfl, hgoes.symm ▸ .lastWords⟩
    · cases h
      exact ⟨_, _, rfl, .ended⟩
  · split at h
    · cases h
      exact ⟨.ok (), _, rfl, hgoes.symm ▸ .joining _ _⟩
    · split at h
      · split at h
        · cases h
          exact ⟨_, _, rfl, .ended⟩
        · cases h
          exact ⟨.ok (), _, rfl, hgoes.symm ▸ .joining _ _⟩
        · cases h
      · split at h
        · cases h
          exact ⟨.ok (), _, rfl, hgoes.symm ▸ .joining _ _⟩
        · cases h

/-- Once the sink is closed, the consumer leaves sink, files and books alone, and the result so far
gets worse at most. -/
theorem closing_consumer [SplitReader ρ] {sofar : Except Failure Unit}
    (hclosing : p.phase.Closing p.books.summary sofar) (h : p.stepConsumer? = some q) :
    (q.books = p.books ∧ q.sink = p.sink ∧ q.store = p.store) ∧
      ∃ later, q.phase.Closing q.books.summary (Pipeline.firstError sofar later) := by
  have hgoes : Pipeline.firstError sofar (.ok ()) = sofar := by cases sofar <;> rfl
  cases herrands : p.errands with
  | cons errand rest =>
      rw [errand_consumer herrands h]
      exact ⟨⟨rfl, rfl, Supervisor.store_run errand p.supervisor⟩, .ok (), hgoes.symm ▸ hclosing⟩
  | nil =>
      generalize hphase : p.phase = phase at hclosing
      simp only [Pipeline.stepConsumer?, herrands, hphase] at h
      cases hclosing with
      | dismissing =>
          cases h
          exact ⟨⟨rfl, rfl, rfl⟩, .ok (), hgoes.symm ▸ .closingQueue _⟩
      | closingQueue fetchers =>
          cases h
          exact ⟨⟨rfl, rfl, rfl⟩, .ok (), hgoes.symm ▸ .joining _ _⟩
      | joining fetchers stragglers =>
          obtain ⟨later, phase, rfl, hclosing⟩ := join_cases h
          exact ⟨⟨rfl, rfl, rfl⟩, later, hclosing⟩
      | lastWords =>
          cases h
          refine ⟨⟨rfl, rfl, ?_⟩, _, .ended⟩
          rcases Supervisor.checkErrors_cases p.supervisor with ⟨-, hfine⟩ | ⟨_, _, -, hheard⟩
          · exact congrArg (·.2.depot.store) hfine
          · exact congrArg (·.2.depot.store) hheard
      | ended => cases h

/-- A result that is an error stays one, and the books stay as they are. -/
theorem doomed_consumer [SplitReader ρ] (hdoomed : p.phase.Doomed)
    (h : p.stepConsumer? = some q) : q.phase.Doomed ∧ q.books = p.books := by
  generalize hphase : p.phase = phase at hdoomed
  cases hdoomed with
  | closing failure hclosing =>
      have hclosing' : p.phase.Closing p.books.summary (.error failure) := by
        rw [hphase]
        cases hclosing with
        | ended => exact .ended
        | _ => constructor
      obtain ⟨⟨hbooks, -⟩, later, hafter⟩ := closing_consumer hclosing' h
      exact ⟨.closing failure hafter, hbooks⟩
  | closingSink failure =>
      cases herrands : p.errands with
      | cons errand rest =>
          rw [errand_consumer herrands h]
          exact ⟨hphase ▸ .closingSink failure, rfl⟩
      | nil =>
          simp only [Pipeline.stepConsumer?, herrands, hphase] at h
          cases h
          exact ⟨@ConsumerPhase.Doomed.closing p.books.summary _ failure .dismissing, rfl⟩
  | fallen cause =>
      cases herrands : p.errands with
      | cons errand rest =>
          rw [errand_consumer herrands h]
          exact ⟨hphase ▸ .fallen cause, rfl⟩
      | nil =>
          simp only [Pipeline.stepConsumer?, herrands, hphase] at h
          cases h

end Ends

/-! ### How the consumer feeds -/

variable {p q : Pipeline Backend}

theorem taking_of_feeding {phase : ConsumerPhase} (h : phase.isFeeding = true) :
    phase.isTaking = true := by
  cases phase <;> first | rfl | cases h

/-- The steps of a consumer that may take batches from the queue, and has no errands. -/
inductive Feeds (p : Pipeline Backend) : Pipeline Backend → Prop
  /-- It goes on to look elsewhere. -/
  | turn {phase : ConsumerPhase} (hhand : p.phase.inHand = []) (htakes : phase.isTaking = true)
      (hempty : phase.inHand = [])
      (hfeeds : p.phase.isFeeding = true → p.draining = false → phase.isFeeding = true)
      (hstays : p.phase = .lastLook → p.supervisor.queue.items ≠ [])
      (hvacant : phase = .lastLook → p.supervisor.isVacant = true) : Feeds p (p.enter phase)
  /-- It asks for a bell. -/
  | ask (hphase : p.phase = .asking) (bell : Nat) :
      Feeds p ((p.withQueue p.supervisor.queue.availability.2).enter (.looking bell))
  /-- It takes a batch. -/
  | poll {batch rest} (hphase : p.phase = .polling)
      (hitems : p.supervisor.queue.items = batch :: rest) :
      Feeds p ((p.withQueue p.supervisor.queue.poll.2).enter (.consuming batch))
  /-- It sends a batch, and asks for the drain when its record limit is reached. -/
  | consume {batch books sink store recycled draining errands} (hphase : p.phase = .consuming batch)
      (hconsumed : p.books.consume batch p.sink p.store = (.ok books, sink, store))
      (hgoes : (draining = p.draining ∧ errands = []) ∨
        (books.limitReached = true ∧
          errands = p.supervisor.liveIds.map (Errand.ask · (.stop .draining)))) :
      Feeds p ({ p with
        supervisor := { p.supervisor with depot := { p.supervisor.depot with recycled } }
        sink
        books
        draining
        errands
        phase := .listening }.withStore store)
  /-- It sweeps a slot. -/
  | sweep {bell slot} (hphase : p.phase = .reaping bell slot) :
      Feeds p { p with
        supervisor := (p.supervisor.vacate slot).2
        errands := (p.supervisor.vacate slot).1.toList.map (.ask · (.stop .immediate))
        phase := .reaping bell (slot + 1) }
  /-- It leaves. -/
  | leave (hphase : p.phase = .lastLook) (hitems : p.supervisor.queue.items = []) :
      Feeds p (p.enter (.closingSink (.ok ())))
  /-- It leaves, and releases those who wait for the drain. -/
  | release {bell} (hphase : p.phase = .counting bell []) :
      Feeds p { p with
        errands := p.supervisor.liveIds.map (Errand.ask · .releaseLatch)
        phase := .closingSink (.ok ()) }
  /-- Something goes wrong. -/
  | fail {q : Pipeline Backend} (hdoomed : q.phase.Doomed) (hbooks : q.books = p.books)
      (hnothing : p.consumes = []) : Feeds p q

theorem feeds_listen {phase : ConsumerPhase} (hhand : p.phase.inHand = [])
    (hfeeds : phase.isFeeding = true) (hempty : phase.inHand = [])
    (hstays : p.phase = .lastLook → p.supervisor.queue.items ≠ []) (hlooks : phase ≠ .lastLook) :
    Feeds p (p.listen phase) := by
  rcases Supervisor.checkErrors_cases p.supervisor with ⟨-, hfine⟩ | ⟨_, _, -, hheard⟩
  · simp only [Pipeline.listen, hfine]
    exact .turn hhand (taking_of_feeding hfeeds) hempty (fun _ _ => hfeeds) hstays
      fun hlook => absurd hlook hlooks
  · simp only [Pipeline.listen, hheard]
    exact .fail (.closingSink _) rfl (Pipeline.consumes_of_emptyHanded hhand)

theorem feeds_consume {batch : SplitBatch Record} (hphase : p.phase = .consuming batch)
    (herrands : p.errands = []) : Feeds p (p.consume batch) := by
  unfold Pipeline.consume
  split
  · next hfails =>
      exact .fail (.fallen _) rfl (by simp [Pipeline.consumes, herrands, hphase, hfails])
  · next hfails =>
      exact .fail (.closingSink _) rfl (by simp [Pipeline.consumes, herrands, hphase, hfails])
  · next books sink store hconsumed =>
      dsimp only
      split
      · next hstops =>
          rw [Bool.and_eq_true] at hstops
          exact .consume hphase hconsumed (.inr ⟨hstops.2, rfl⟩)
      · have hgoes (recycled : List Nat) := @Feeds.consume p batch books sink store recycled
          p.draining [] hphase hconsumed (.inl ⟨rfl, rfl⟩)
        rw [← herrands] at hgoes
        exact hgoes _

theorem feeds_reap {bell slot : Nat} (hphase : p.phase = .reaping bell slot)
    (herrands : p.errands = []) : Feeds p (p.reap bell slot) := by
  have hstays : p.phase = .lastLook → p.supervisor.queue.items ≠ [] := by simp [hphase]
  have hhand : p.phase.inHand = [] := by simp [hphase, ConsumerPhase.inHand]
  unfold Pipeline.reap
  split
  · have hsweep := Feeds.sweep hphase
    rcases hvacate : p.supervisor.vacate slot with ⟨_ | id, after⟩ <;>
      simpa [hvacate, herrands] using hsweep
  · split
    · next hvacant => exact .turn hhand rfl rfl (fun _ _ => rfl) hstays fun _ => hvacant
    · exact .turn hhand rfl rfl (fun _ _ => rfl) hstays nofun

theorem feeds_count {bell : Nat} {fetchers : List Nat}
    (hphase : p.phase = .counting bell fetchers) :
    Feeds p (p.countDrained bell fetchers) := by
  have hhand : p.phase.inHand = [] := by simp [hphase, ConsumerPhase.inHand]
  have hnot : ¬ p.phase.isFeeding = true := by simp [hphase, ConsumerPhase.isFeeding]
  have hstays : p.phase = .lastLook → p.supervisor.queue.items ≠ [] := by simp [hphase]
  unfold Pipeline.countDrained
  split
  · exact .release hphase
  · split <;> exact .turn hhand rfl rfl (fun hfeeds => absurd hfeeds hnot) hstays nofun

/-- Those are all steps there are. -/
theorem feeds_of_consumer (htakes : p.phase.isTaking = true) (herrands : p.errands = [])
    (h : p.stepConsumer? = some q) : Feeds p q := by
  cases hphase : p.phase with
  | listening =>
      simp only [Pipeline.stepConsumer?, herrands, hphase] at h
      cases h
      exact feeds_listen (by simp [hphase, ConsumerPhase.inHand]) rfl rfl (by simp [hphase]) nofun
  | polling =>
      simp only [Pipeline.stepConsumer?, herrands, hphase] at h
      cases hitems : p.supervisor.queue.items with
      | nil =>
          simp only [HandoffQueue.poll_nil hitems] at h
          cases h
          exact .turn (by simp [hphase, ConsumerPhase.inHand]) rfl rfl (fun _ _ => rfl)
            (by simp [hphase]) nofun
      | cons batch rest =>
          have hfeeds := Feeds.poll hphase hitems
          rw [HandoffQueue.poll_cons hitems] at hfeeds
          simp only [HandoffQueue.poll_cons hitems] at h
          cases h
          exact hfeeds
  | consuming batch =>
      simp only [Pipeline.stepConsumer?, herrands, hphase] at h
      cases h
      exact feeds_consume hphase herrands
  | asking =>
      simp only [Pipeline.stepConsumer?, herrands, hphase] at h
      cases h
      exact .ask hphase _
  | looking bell =>
      simp only [Pipeline.stepConsumer?, herrands, hphase] at h
      have hhand : p.phase.inHand = [] := by simp [hphase, ConsumerPhase.inHand]
      have hstays : p.phase = .lastLook → p.supervisor.queue.items ≠ [] := by simp [hphase]
      split at h
      · cases h
        exact .turn hhand rfl rfl (fun _ _ => rfl) hstays nofun
      · split at h
        · next hdraining =>
            cases h
            exact .turn hhand rfl rfl (fun _ hnot => by simp [hdraining] at hnot) hstays nofun
        · cases h
          exact .turn hhand rfl rfl (fun _ _ => rfl) hstays nofun
  | reaping bell slot =>
      simp only [Pipeline.stepConsumer?, herrands, hphase] at h
      cases h
      exact feeds_reap hphase herrands
  | lastLook =>
      simp only [Pipeline.stepConsumer?, herrands, hphase] at h
      cases h
      cases hitems : p.supervisor.queue.items with
      | nil => exact .leave hphase hitems
      | cons batch rest =>
          exact .turn (by simp [hphase, ConsumerPhase.inHand]) rfl rfl (fun _ _ => rfl)
            (by simp [hitems]) nofun
  | counting bell fetchers =>
      simp only [Pipeline.stepConsumer?, herrands, hphase] at h
      cases h
      exact feeds_count hphase
  | waiting bell =>
      simp only [Pipeline.stepConsumer?, herrands, hphase, Pipeline.await?] at h
      have hhand : p.phase.inHand = [] := by simp [hphase, ConsumerPhase.inHand]
      have hstays : p.phase = .lastLook → p.supervisor.queue.items ≠ [] := by simp [hphase]
      split at h
      · cases h
        exact .turn hhand rfl rfl (fun _ _ => rfl) hstays nofun
      · split at h
        · cases h
        · cases h
          exact feeds_listen hhand rfl rfl hstays nofun
  | _ => simp [hphase, ConsumerPhase.isTaking, ConsumerPhase.isFeeding] at htakes

/-! ### What becomes of the limit -/

/-- The consumer keeps to its limit, and takes no records off its totals. -/
theorem books_consumer (h : p.stepConsumer? = some q) :
    q.books.limit = p.books.limit ∧ p.books.totals.records ≤ q.books.totals.records := by
  have hsame (hbooks : q.books = p.books) :
      q.books.limit = p.books.limit ∧ p.books.totals.records ≤ q.books.totals.records := by
    rw [hbooks]
    exact ⟨rfl, Nat.le_refl _⟩
  cases herrands : p.errands with
  | cons errand rest =>
      rw [errand_consumer herrands h]
      exact ⟨rfl, Nat.le_refl _⟩
  | nil =>
      cases htakes : p.phase.isTaking with
      | true =>
          cases feeds_of_consumer htakes herrands h with
          | @consume batch books sink store _ _ _ hphase hconsumed hgoes =>
              obtain ⟨-, hlimit, hrecords, -⟩ := ConsumerBooks.consume_cases hconsumed
              exact ⟨hlimit, hrecords ▸ Nat.le_add_right _ _⟩
          | fail _ hbooks _ => exact hsame hbooks
          | _ => exact hsame rfl
      | false =>
          cases hphase : p.phase with
          | dismissing _ | closingQueue _ _ | joining _ _ _ | lastWords _ =>
              obtain ⟨sofar, hclosing⟩ : ∃ sofar, p.phase.Closing p.books.summary sofar :=
                ⟨_, by rw [hphase]; constructor⟩
              exact hsame (closing_consumer hclosing h).1.1
          | closingSink drained =>
              simp only [Pipeline.stepConsumer?, herrands, hphase, Option.some.injEq] at h
              exact hsame (h ▸ rfl)
          | fallen _ => simp [Pipeline.stepConsumer?, herrands, hphase] at h
          | _ =>
              simp [hphase, ConsumerPhase.isTaking, ConsumerPhase.isFeeding,
                Pipeline.stepConsumer?, herrands] at htakes h

variable {run next : Run} {move : Move}

theorem books_step (h : run.step move = some next) :
    next.pipeline.books.limit = run.pipeline.books.limit ∧
      run.pipeline.books.totals.records ≤ next.pipeline.books.totals.records := by
  cases move with
  | thread fetcher disturbed =>
      obtain ⟨supervisor, -, rfl⟩ := Option.map_eq_some_iff.1 h
      exact ⟨rfl, Nat.le_refl _⟩
  | timeOut fetcher =>
      obtain ⟨sleeper, -, rfl⟩ := Option.map_eq_some_iff.1 h
      exact ⟨rfl, Nat.le_refl _⟩
  | late =>
      obtain rfl := Option.some.inj h
      exact ⟨rfl, Nat.le_refl _⟩
  | work =>
      simp only [step] at h
      split at h
      · obtain ⟨q, hstep, rfl⟩ := Option.map_eq_some_iff.1 h
        exact books_consumer hstep
      · split at h
        · obtain rfl := Option.some.inj h
          exact ⟨rfl, Nat.le_refl _⟩
        · obtain rfl := Option.some.inj h
          exact ⟨rfl, Nat.le_refl _⟩

/-- A limit that is reached stays reached. -/
theorem reached_step (h : run.step move = some next)
    (hreached : run.pipeline.books.limitReached = true) :
    next.pipeline.books.limitReached = true := by
  obtain ⟨hlimit, hrecords⟩ := books_step h
  unfold ConsumerBooks.limitReached at hreached ⊢
  rw [hlimit]
  split at hreached
  · cases hreached
  · simp only [decide_eq_true_eq] at hreached ⊢
    exact Nat.le_trans hreached hrecords

end Run

end SplitFeed
