/-
# Traffic between fetch threads and a consumer

A pipeline over readers of any kind, with what is left of dealing splits to its fetchers.  The
consumer begins when all splits were dealt; the threads that were started by then do not wait for
that.  Threads, and whoever deals or consumes, may take their turns in any order.

Three lists are kept for the record: what was put into the queue, what the consumer has consumed,
and what was put since the consumer last looked for a batch and found none.

`Takes` lists the steps of a consumer that goes on taking batches, and `takes_of_consumer` says that
the list is complete.  From it follows that the consumer may rely on the supervisor, whatever the
threads do, for as long as it takes batches.

Runs that settings describe are such traffic over backends, if nothing is kept for the record; see
`exists_traffic`.
-/
import SplitFeed.Proofs.Pipeline.Running
import SplitFeed.Proofs.Supervisor.Attended

namespace SplitFeed

/-- How a consumer is set up: a supervisor over readers that `factory` builds, to which hands of
splits are dealt one after the other, a sink and the books. -/
structure Plan (ρ : Type) where
  capacity : Nat
  threads : Nat
  files : FileStore
  factory : Nat → Except Failure ρ
  hands : List (List Split)
  sink : Sink
  books : ConsumerBooks
  closeTimeoutMs : Nat

/-- A pipeline, the tasks that are left of dealing its splits, and the batches that were put into
the queue, were consumed, and were put since the consumer last found none. -/
structure Traffic (ρ : Type) where
  pipeline : Pipeline ρ
  dealing : List Task := []
  sent : List (SplitBatch Record) := []
  consumed : List (SplitBatch Record) := []
  unseen : List (SplitBatch Record) := []

namespace ConsumerPhase

/-- Whether the consumer has looked for a batch after it asked for a bell, and found none. -/
def hasLooked : ConsumerPhase → Bool
  | reaping _ _ | lastLook | counting _ _ | waiting _ => true
  | _ => false

end ConsumerPhase

namespace Traffic

variable {ρ : Type}

/-- The tasks of dealing hands of splits in turn, the first of them from a given slot on. -/
def deals (slotCount : Nat) : Nat → List (List Split) → List Task
  | _, [] => []
  | start, splits :: hands =>
    (List.range slotCount).map
        (fun slot => .give slot (Supervisor.dealt slotCount start slot splits)) ++
      deals slotCount ((start + splits.length) % slotCount) hands

/-- Traffic about to begin: nobody has been dealt anything.  The next deal is to go on where these
hands end. -/
def opened (plan : Plan ρ) : Traffic ρ :=
  let idle := Supervisor.create plan.capacity plan.threads plan.files plan.factory
  let supervisor := { idle with nextSlot := plan.hands.flatten.length % idle.slots.length }
  { pipeline :=
      { supervisor, sink := plan.sink, books := plan.books, closeTimeoutMs := plan.closeTimeoutMs }
    dealing := deals idle.slots.length 0 plan.hands }

/-- The batches that were put into a queue, as its content grew. -/
def put (before after : HandoffQueue (SplitBatch Record)) : List (SplitBatch Record) :=
  after.items.drop before.items.length

/-- The batch that the consumer consumed in its step from one pipeline to the next. -/
def eaten (before after : Pipeline ρ) : List (SplitBatch Record) :=
  match before.errands, before.phase, after.phase with
  | [], .consuming batch, .listening => [batch]
  | _, _, _ => []

/-- Whether the next step of the consumer is to look for a batch in vain. -/
def looksInVain (pipeline : Pipeline ρ) : Bool :=
  match pipeline.errands, pipeline.phase with
  | [], .looking _ => pipeline.supervisor.queue.items.isEmpty
  | _, _ => false

/-- The traffic after a move, if the move can be made.  A task of the dealing that fails ends the
run. -/
def step [SplitReader ρ] (move : Run.Move) (traffic : Traffic ρ) : Option (Traffic ρ) :=
  let pipeline := traffic.pipeline
  let supervisor := pipeline.supervisor
  match move with
  | .thread fetcher disturbed =>
    (supervisor.stepThread? fetcher disturbed).map fun after =>
      let batches := put supervisor.queue after.queue
      { traffic with
        pipeline := { pipeline with supervisor := after }
        sent := traffic.sent ++ batches
        unseen := traffic.unseen ++ batches }
  | .timeOut fetcher =>
    (supervisor.fetcher? fetcher).map fun fetcher =>
      { traffic with
        pipeline := { pipeline with supervisor := supervisor.replace fetcher.timeOut } }
  | .work =>
    match traffic.dealing with
    | [] =>
      pipeline.stepConsumer?.map fun after =>
        { traffic with
          pipeline := after
          consumed := traffic.consumed ++ eaten pipeline after
          unseen := if looksInVain pipeline then [] else traffic.unseen }
    | task :: later =>
      match supervisor.perform task with
      | (.ok more, supervisor) =>
        some { traffic with pipeline := { pipeline with supervisor }, dealing := more ++ later }
      | (.error cause, supervisor) =>
        let phase := .over (.error (.splitsNotDealt cause))
        some { traffic with pipeline := { pipeline with supervisor, phase }, dealing := [] }
  | .late => some { traffic with pipeline := { pipeline with late := true } }

/-- What is still to be done for fetchers: what is left of the dealing, and the consumer's
errands. -/
def agenda (traffic : Traffic ρ) : List Task :=
  traffic.dealing ++ traffic.pipeline.errands.map .errand

/-! ### How the consumer goes on taking batches -/

variable {p q : Pipeline ρ}

/-- The steps of a consumer without errands after which it may take batches from the queue. -/
inductive Takes (p : Pipeline ρ) : Pipeline ρ → Prop
  /-- It hears of no failure. -/
  | hear (hphase : p.phase = .listening) (hfine : p.supervisor.depot.failures = []) :
      Takes p (p.enter .polling)
  /-- It takes a batch. -/
  | poll {batch rest} (hphase : p.phase = .polling)
      (hitems : p.supervisor.queue.items = batch :: rest) :
      Takes p ((p.withQueue p.supervisor.queue.poll.2).enter (.consuming batch))
  /-- It finds no batch. -/
  | starve (hphase : p.phase = .polling) (hitems : p.supervisor.queue.items = []) :
      Takes p (p.enter .asking)
  /-- It consumes a batch, and tells all fetchers to drain if that was enough. -/
  | consume {batch books sink store draining errands} (hphase : p.phase = .consuming batch)
      (hgoes : (draining = p.draining ∧ errands = []) ∨
        (draining = true ∧ errands = p.supervisor.liveIds.map (Errand.ask · (.stop .draining)))) :
      Takes p ({ p with
        supervisor := { p.supervisor with
          depot := { p.supervisor.depot with
            recycled := p.supervisor.depot.recycled ++ batch.recycle } }
        sink
        books
        draining
        errands
        phase := .listening }.withStore store)
  /-- It asks for a bell. -/
  | ask (hphase : p.phase = .asking) :
      Takes p ((p.withQueue p.supervisor.queue.availability.2).enter
        (.looking p.supervisor.queue.availability.1))
  /-- It sees a batch, or has waited long enough. -/
  | again (hphase : (∃ bell, p.phase = .looking bell ∧ p.supervisor.queue.items ≠ []) ∨
        p.phase = .lastLook ∨ ∃ bell, p.phase = .waiting bell) :
      Takes p (p.enter .listening)
  /-- It sees none, and begins to sweep. -/
  | reap {bell} (hphase : p.phase = .looking bell) (hitems : p.supervisor.queue.items = [])
      (hdraining : p.draining = false) : Takes p (p.enter (.reaping bell 0))
  /-- It sees none, and begins to count who waits for the drain. -/
  | count {bell} (hphase : p.phase = .looking bell) (hitems : p.supervisor.queue.items = [])
      (hdraining : p.draining = true) :
      Takes p (p.enter (.counting bell p.supervisor.liveIds))
  /-- It sweeps a slot. -/
  | sweep {bell slot} (hphase : p.phase = .reaping bell slot) :
      Takes p { p with
        supervisor := (p.supervisor.vacate slot).2
        errands := (p.supervisor.vacate slot).1.toList.map (.ask · (.stop .immediate))
        phase := .reaping bell (slot + 1) }
  /-- It has swept all slots, and they are empty. -/
  | lookLast {bell slot} (hphase : p.phase = .reaping bell slot) : Takes p (p.enter .lastLook)
  /-- It has swept all slots, and somebody is left. -/
  | watch {bell slot} (hphase : p.phase = .reaping bell slot)
      (hswept : p.supervisor.slots.length ≤ slot) (hsome : p.supervisor.isVacant = false) :
      Takes p (p.enter (.waiting bell))
  /-- It counts a fetcher. -/
  | tick {bell id rest} (hphase : p.phase = .counting bell (id :: rest))
      (hdrained : (p.supervisor.fetcher? id).all Supervisor.isDrained = true) :
      Takes p (p.enter (.counting bell rest))
  /-- It finds a fetcher that does not wait for the drain yet. -/
  | miss {bell id rest f} (hphase : p.phase = .counting bell (id :: rest))
      (hfound : p.supervisor.fetcher? id = some f) (hnot : Supervisor.isDrained f = false) :
      Takes p (p.enter (.waiting bell))

theorem takes_listen {phase : ConsumerPhase} (htakes : (p.listen phase).phase.isTaking = true) :
    p.supervisor.depot.failures = [] ∧ p.listen phase = p.enter phase := by
  rcases Supervisor.checkErrors_cases p.supervisor with ⟨hnone, hfine⟩ | ⟨_, _, -, hheard⟩
  · exact ⟨hnone, by simp [Pipeline.listen, hfine, Pipeline.enter]⟩
  · simp [Pipeline.listen, hheard, ConsumerPhase.isTaking, ConsumerPhase.isFeeding] at htakes

theorem takes_consume {batch : SplitBatch Record} (hphase : p.phase = .consuming batch)
    (herrands : p.errands = []) (htakes : (p.consume batch).phase.isTaking = true) :
    Takes p (p.consume batch) := by
  unfold Pipeline.consume at htakes ⊢
  split
  · next hfails =>
      simp [hfails, Pipeline.withStore, ConsumerPhase.isTaking, ConsumerPhase.isFeeding] at htakes
  · next hfails =>
      simp [hfails, Pipeline.withStore, ConsumerPhase.isTaking, ConsumerPhase.isFeeding] at htakes
  · next books sink store hconsumed =>
      dsimp only
      split
      · exact .consume hphase (.inr ⟨rfl, rfl⟩)
      · have hgoes := @Takes.consume ρ p batch books sink store p.draining [] hphase
          (.inl ⟨rfl, rfl⟩)
        rw [← herrands] at hgoes
        exact hgoes

theorem takes_reap {bell slot : Nat} (hphase : p.phase = .reaping bell slot)
    (herrands : p.errands = []) : Takes p (p.reap bell slot) := by
  unfold Pipeline.reap
  split
  · have hsweep := Takes.sweep hphase
    rcases hvacate : p.supervisor.vacate slot with ⟨_ | id, after⟩ <;>
      simpa [hvacate, herrands] using hsweep
  · next hswept =>
      split
      · exact .lookLast hphase
      · next hsome => exact .watch hphase (Nat.not_lt.1 hswept) (by simpa using hsome)

theorem takes_count {bell : Nat} {fetchers : List Nat} (hphase : p.phase = .counting bell fetchers)
    (htakes : (p.countDrained bell fetchers).phase.isTaking = true) :
    Takes p (p.countDrained bell fetchers) := by
  cases fetchers with
  | nil => simp [Pipeline.countDrained, ConsumerPhase.isTaking, ConsumerPhase.isFeeding] at htakes
  | cons id rest =>
      unfold Pipeline.countDrained
      dsimp only
      split
      · next hdrained => exact .tick hphase hdrained
      · next hnot =>
          cases hfound : p.supervisor.fetcher? id with
          | none => simp [hfound] at hnot
          | some f => exact .miss hphase hfound (by simpa [hfound] using hnot)

/-- Who joins threads takes no batches any more. -/
theorem not_taking_join {sofar : Except Failure Unit} {fetchers stragglers : List Nat}
    (h : p.join? sofar fetchers stragglers = some q) : q.phase.isTaking = false := by
  unfold Pipeline.join? at h
  repeat' split at h
  all_goals first
    | cases h
      rfl
    | cases h

/-- Those are all steps there are. -/
theorem takes_of_consumer [SplitReader ρ] (herrands : p.errands = [])
    (h : p.stepConsumer? = some q) (htakes : q.phase.isTaking = true) : Takes p q := by
  cases hphase : p.phase with
  | listening =>
      simp only [Pipeline.stepConsumer?, herrands, hphase] at h
      cases h
      obtain ⟨hfine, hgoes⟩ := takes_listen htakes
      rw [hgoes]
      exact .hear hphase hfine
  | polling =>
      simp only [Pipeline.stepConsumer?, herrands, hphase] at h
      cases hitems : p.supervisor.queue.items with
      | nil =>
          simp only [HandoffQueue.poll_nil hitems] at h
          cases h
          exact .starve hphase hitems
      | cons batch rest =>
          have hpolls := Takes.poll hphase hitems
          rw [HandoffQueue.poll_cons hitems] at hpolls
          simp only [HandoffQueue.poll_cons hitems] at h
          cases h
          exact hpolls
  | consuming batch =>
      simp only [Pipeline.stepConsumer?, herrands, hphase] at h
      cases h
      exact takes_consume hphase herrands htakes
  | asking =>
      simp only [Pipeline.stepConsumer?, herrands, hphase] at h
      cases h
      exact .ask hphase
  | looking bell =>
      simp only [Pipeline.stepConsumer?, herrands, hphase] at h
      cases hitems : p.supervisor.queue.items with
      | cons batch rest =>
          simp only [hitems, List.isEmpty_cons, Bool.not_false, if_true] at h
          cases h
          exact .again (.inl ⟨bell, hphase, by simp [hitems]⟩)
      | nil =>
          cases hdraining : p.draining <;>
            simp only [hitems, hdraining, List.isEmpty_nil, Bool.not_true, Bool.false_eq_true,
              if_false, if_true] at h <;> cases h
          · exact .reap hphase hitems hdraining
          · exact .count hphase hitems hdraining
  | reaping bell slot =>
      simp only [Pipeline.stepConsumer?, herrands, hphase] at h
      cases h
      exact takes_reap hphase herrands
  | lastLook =>
      simp only [Pipeline.stepConsumer?, herrands, hphase] at h
      cases h
      split at htakes
      · cases htakes
      · next hsome =>
          rw [if_neg hsome]
          exact .again (.inr (.inl hphase))
  | counting bell fetchers =>
      simp only [Pipeline.stepConsumer?, herrands, hphase] at h
      cases h
      exact takes_count hphase htakes
  | waiting bell =>
      have hwaited : (∃ bell, p.phase = .looking bell ∧ p.supervisor.queue.items ≠ []) ∨
          p.phase = .lastLook ∨ ∃ bell, p.phase = .waiting bell := .inr (.inr ⟨bell, hphase⟩)
      simp only [Pipeline.stepConsumer?, herrands, hphase, Pipeline.await?] at h
      split at h
      · cases h
        exact .again hwaited
      · split at h
        · cases h
        · cases h
          obtain ⟨-, hgoes⟩ := takes_listen htakes
          rw [hgoes]
          exact .again hwaited
  | joining sofar fetchers stragglers =>
      simp only [Pipeline.stepConsumer?, herrands, hphase] at h
      exact absurd htakes (by simp [not_taking_join h])
  | closingSink _ | dismissing _ | closingQueue _ _ | lastWords _ =>
      simp only [Pipeline.stepConsumer?, herrands, hphase] at h
      cases h
      cases htakes
  | _ => simp [Pipeline.stepConsumer?, herrands, hphase] at h

theorem taking_of_takes (h : Takes p q) : p.phase.isTaking = true := by
  cases h with
  | again hphase => obtain ⟨_, hphase, -⟩ | hphase | ⟨_, hphase⟩ := hphase <;> rw [hphase] <;> rfl
  | _ =>
      rename p.phase = _ => hphase
      rw [hphase]
      rfl

/-! ### What the consumer may rely on -/

variable {traffic next last : Traffic ρ} {move : Run.Move}

open Run (errand_consumer)
open Supervisor (attended_enter attended_depot attended_tell attended_sweep)

/-- Whatever the consumer does, it may rely on what it knows then. -/
theorem attended_takes (ha : p.supervisor.Attended [] p.draining p.phase)
    (herrands : p.errands = []) (h : Takes p q) :
    q.supervisor.Attended (q.errands.map .errand) q.draining q.phase := by
  have hnothing : ([] : List Task) = p.errands.map .errand := by simp [herrands]
  cases h with
  | hear | starve | lookLast =>
      exact hnothing ▸ attended_enter ha (.inr rfl) trivial
  | again =>
      exact hnothing ▸ attended_enter ha (.inr rfl) trivial
  | poll hphase hitems =>
      rw [hphase] at ha
      refine hnothing ▸ attended_depot ha (HandoffQueue.inOrder_poll ha.queue) ?_ rfl trivial
      rw [HandoffQueue.poll_cons hitems]
  | ask hphase =>
      rw [hphase] at ha
      exact hnothing ▸ attended_depot ha (HandoffQueue.inOrder_availability ha.queue)
        (HandoffQueue.availability_waiting _).2 rfl trivial
  | @consume batch books sink store draining errands hphase hgoes =>
      rw [hphase] at ha
      have hfed : ({ p.supervisor with
          depot := { p.supervisor.depot with
            recycled := p.supervisor.depot.recycled ++ batch.recycle, store } } :
              Supervisor ρ).Attended [] p.draining .listening :=
        attended_depot ha ha.queue rfl rfl trivial
      rcases hgoes with ⟨rfl, rfl⟩ | ⟨rfl, rfl⟩
      · exact hfed
      · exact attended_tell hfed
  | reap hphase _ hdraining =>
      refine hnothing ▸ attended_enter ha (.inl ?_) ⟨hdraining, fun _ _ hlt => ?_⟩
      · rw [hphase]
        rfl
      · exact absurd hlt (Nat.not_lt_zero _)
  | count hphase _ hdraining =>
      refine hnothing ▸ attended_enter ha (.inl ?_)
        ⟨hdraining, List.Subset.refl _, fun _ _ hlive hnot => absurd hlive hnot⟩
      rw [hphase]
      rfl
  | sweep hphase =>
      rw [hphase] at ha
      exact attended_sweep ha
  | watch hphase hswept hsome =>
      rw [hphase] at ha
      refine hnothing ▸ attended_enter ha (.inl rfl) fun hp => ?_
      obtain ⟨seat, hseat, hmanned⟩ : ∃ seat ∈ p.supervisor.slots, seat ≠ none := by
        simpa [Supervisor.isVacant] using hsome
      obtain ⟨id, rfl⟩ := Option.ne_none_iff_exists'.1 hmanned
      obtain ⟨slot', hslot', hat⟩ := List.mem_iff_getElem.1 hseat
      have hlive : id ∈ p.supervisor.liveIds := List.mem_filterMap.2 ⟨some id, hseat, rfl⟩
      obtain ⟨f, hf, rfl⟩ := List.mem_map.1 (ha.seated hlive)
      refine ⟨f, hf, hlive, ha.knows.2 hp slot' (Nat.lt_of_lt_of_le hslot' hswept) f hf ?_⟩
      rw [List.getElem?_eq_getElem hslot', hat]
  | @tick bell id rest hphase hdrained =>
      rw [hphase] at ha
      obtain ⟨hdraining, hrest, hknown⟩ := ha.knows
      refine hnothing ▸ attended_enter ha (.inl rfl) ⟨hdraining, fun other hmem =>
        hrest (List.mem_cons_of_mem _ hmem), fun f hf hlive hnot => ?_⟩
      by_cases hcounted : f.id = id
      · subst hcounted
        simpa [Supervisor.fetcher?_of_mem_crew ha.unique hf] using hdrained
      · exact hknown f hf hlive (by simp [hcounted, hnot])
  | @miss bell id rest f hphase hfound hnot =>
      rw [hphase] at ha
      obtain ⟨hdraining, hrest, -⟩ := ha.knows
      obtain ⟨hf, rfl⟩ := Supervisor.mem_crew_of_fetcher? hfound
      have hlive : f.id ∈ p.supervisor.liveIds := hrest List.mem_cons_self
      have hstop := ((ha.reached f hf hlive).told hdraining).resolve_right List.not_mem_nil
      exact hnothing ▸ attended_enter ha (.inl rfl) fun _ =>
        ⟨f, hf, hlive, Fetcher.stirs_of_undrained (ha.onDuty f hf hlive) hstop hnot⟩

/-- Traffic whose consumer may rely on the supervisor.  It begins when all splits were dealt, and
whatever is dealt suits anybody. -/
structure Attended (traffic : Traffic ρ) : Prop where
  attended : traffic.pipeline.supervisor.Attended traffic.agenda traffic.pipeline.draining
    traffic.pipeline.phase
  dealing : traffic.dealing ≠ [] → traffic.pipeline.phase = .listening ∧
    traffic.pipeline.draining = false ∧ traffic.pipeline.errands = [] ∧
      ∀ task ∈ traffic.dealing, ∀ live, task.Suits false live

theorem suits_deals {slotCount start : Nat} (hands : List (List Split)) :
    ∀ task ∈ deals slotCount start hands, ∀ live, task.Suits false live := by
  induction hands generalizing start with
  | nil => exact List.forall_mem_nil _
  | cons splits hands ih =>
      intro task hmem live
      rcases List.mem_append.1 hmem with hhand | hlater
      · obtain ⟨slot, -, rfl⟩ := List.mem_map.1 hhand
        trivial
      · exact ih task hlater live

theorem attended_opened (plan : Plan ρ) : (opened plan).Attended where
  attended := by
    have hnobody : (opened plan).pipeline.supervisor.liveIds = [] := by
      simp [opened, Supervisor.create, Supervisor.liveIds]
    have hagenda : (opened plan).agenda = (opened plan).dealing := by simp [agenda, opened]
    refine ⟨List.nodup_nil, List.forall_mem_nil _, ?_, ?_, HandoffQueue.inOrder_ofCapacity _,
      List.forall_mem_nil _, List.forall_mem_nil _, List.forall_mem_nil _, ?_, trivial⟩
    · rw [hnobody]
      exact List.nodup_nil
    · rw [hnobody]
      exact List.nil_subset _
    · rw [hagenda]
      exact fun task hmem => suits_deals plan.hands task hmem _
  dealing _ := ⟨rfl, rfl, rfl, suits_deals plan.hands⟩

/-- A consumer that takes no more batches does not begin again. -/
theorem taking_consumer [SplitReader ρ] (h : p.stepConsumer? = some q)
    (htakes : q.phase.isTaking = true) : p.phase.isTaking = true := by
  cases herrands : p.errands with
  | nil => exact taking_of_takes (takes_of_consumer herrands h htakes)
  | cons errand rest =>
      rw [errand_consumer herrands h] at htakes
      exact htakes

variable [SplitReader ρ]

theorem taking_step (h : step move traffic = some next)
    (htakes : next.pipeline.phase.isTaking = true) : traffic.pipeline.phase.isTaking = true := by
  cases move with
  | thread id disturbed =>
      obtain ⟨after, -, rfl⟩ := Option.map_eq_some_iff.1 h
      exact htakes
  | timeOut id =>
      obtain ⟨f, -, rfl⟩ := Option.map_eq_some_iff.1 h
      exact htakes
  | late =>
      obtain rfl := Option.some.inj h
      exact htakes
  | work =>
      simp only [step] at h
      split at h
      · obtain ⟨after, hstep, rfl⟩ := Option.map_eq_some_iff.1 h
        exact taking_consumer hstep htakes
      · split at h
        · cases h
          exact htakes
        · cases h
          cases htakes

/-- What the consumer does between errands, and its errands, leave everything attended. -/
theorem attended_consumer (ha : p.supervisor.Attended (p.errands.map .errand) p.draining p.phase)
    (h : p.stepConsumer? = some q) (htakes : q.phase.isTaking = true) :
    q.supervisor.Attended (q.errands.map .errand) q.draining q.phase := by
  cases herrands : p.errands with
  | nil =>
      rw [herrands] at ha
      exact attended_takes ha herrands (takes_of_consumer herrands h htakes)
  | cons errand rest =>
      rw [herrands, List.map_cons] at ha
      rw [errand_consumer herrands h, List.map_append]
      exact Supervisor.attended_run ha

/-- Every move leaves traffic attended, as long as the consumer takes batches. -/
theorem attended_step (ha : traffic.Attended) (h : step move traffic = some next)
    (htakes : next.pipeline.phase.isTaking = true) : next.Attended := by
  obtain ⟨hattended, hdealing⟩ := ha
  cases move with
  | thread id disturbed =>
      obtain ⟨after, hstep, rfl⟩ := Option.map_eq_some_iff.1 h
      exact ⟨Supervisor.attended_thread hattended hstep, hdealing⟩
  | timeOut id =>
      obtain ⟨f, hfound, rfl⟩ := Option.map_eq_some_iff.1 h
      exact ⟨Supervisor.attended_timeOut hattended hfound, hdealing⟩
  | late =>
      obtain rfl := Option.some.inj h
      exact ⟨hattended, hdealing⟩
  | work =>
      simp only [step] at h
      split at h
      · next hdealt =>
          obtain ⟨after, hstep, rfl⟩ := Option.map_eq_some_iff.1 h
          rw [agenda, hdealt, List.nil_append] at hattended
          refine ⟨?_, fun hsome => absurd hdealt hsome⟩
          rw [agenda, hdealt, List.nil_append]
          exact attended_consumer hattended hstep htakes
      · next task later hdealt =>
          obtain ⟨hphase, hdraining, herrands, htimeless⟩ := hdealing (by simp [hdealt])
          rw [agenda, herrands, List.map_nil, List.append_nil, hdealt, hdraining, hphase]
            at hattended
          rw [hdealt] at htimeless
          split at h
          · next more after hperform =>
              cases h
              obtain ⟨hafter, hmore⟩ := Supervisor.attended_perform hattended htimeless hperform
              refine ⟨?_, fun _ => ⟨hphase, hdraining, herrands, fun other hmem => ?_⟩⟩
              · show after.Attended ((more ++ later) ++ traffic.pipeline.errands.map .errand)
                  traffic.pipeline.draining traffic.pipeline.phase
                rw [herrands, List.map_nil, List.append_nil, hdraining, hphase]
                exact hafter
              · rcases List.mem_append.1 hmem with hnew | hold
                · exact hmore other hnew
                · exact htimeless other (List.mem_cons_of_mem _ hold)
          · cases h
            cases htakes

/-- Whatever happens, traffic is attended while the consumer takes batches. -/
theorem attended_follow {plan : Plan ρ} {moves : List Run.Move}
    (h : Course.follow step moves (opened plan) = some last)
    (htakes : last.pipeline.phase.isTaking = true) : last.Attended :=
  Course.follow_preserves
    (fun traffic : Traffic ρ => traffic.pipeline.phase.isTaking = true → traffic.Attended)
    (fun ha hstep hafter => attended_step (ha (taking_step hstep hafter)) hstep hafter)
    h (fun _ => attended_opened plan) htakes

/-! ### Runs -/

/-- The run over backends that traffic is, if nothing is kept for the record. -/
def run (traffic : Traffic Backend) : Run where
  pipeline := traffic.pipeline
  dealing := traffic.dealing

/-- What is kept for the record decides nothing. -/
theorem run_step (move : Run.Move) (traffic : Traffic Backend) :
    Run.step move traffic.run = (step move traffic).map run := by
  cases move with
  | thread id disturbed | timeOut id =>
      simp only [Run.step, step, Option.map_map]
      rfl
  | late => rfl
  | work =>
      cases hdealing : traffic.dealing with
      | nil =>
          simp only [Run.step, step, run, hdealing, Option.map_map]
          rfl
      | cons task later =>
          simp only [Run.step, step, run, hdealing]
          rcases traffic.pipeline.supervisor.perform task with ⟨_ | _, after⟩ <;> rfl

theorem run_follow (moves : List Run.Move) (traffic : Traffic Backend) :
    Course.follow Run.step moves traffic.run = (Course.follow step moves traffic).map run := by
  induction moves generalizing traffic with
  | nil => rfl
  | cons move moves ih =>
      simp only [Course.follow_cons, run_step]
      cases step move traffic with
      | none => rfl
      | some next => exact ih next

/-- The plan that settings describe: all splits are one hand. -/
def planned (settings : Settings) (splits : List Split) (source : String) (expected : Nat)
    (sink : Sink) (files : FileStore) : Plan Backend where
  capacity := settings.runtime.queueCapacity
  threads := settings.runtime.fetcherThreads
  files
  factory _ := .ok (Backend.ofSettings settings.source)
  hands := [splits]
  sink
  books := { totals := { source, expected }, limit := settings.runtime.recordLimit }
  closeTimeoutMs := settings.runtime.closeTimeoutMs

/-- A run that settings describe is traffic. -/
theorem run_of_opened {settings : Settings} {store : FileStore} {first : Run}
    (h : Run.opened settings store = .ok first) :
    ∃ plan : Plan Backend, (opened plan).run = first := by
  simp only [Run.opened, bind, Except.bind, pure, Except.pure] at h
  split at h
  · cases h
  · next splits _ =>
      split at h
      · cases h
      · next described _ =>
          split at h
          · cases h
          · next sunk _ =>
              cases h
              refine ⟨planned settings splits described.1 described.2 sunk.1 sunk.2, ?_⟩
              simp [run, opened, planned, deals, Floor.dealing, Floor.dealtPast,
                Supervisor.create]

/-- So whatever holds of traffic that can come about holds of such a run at any time. -/
theorem exists_traffic {settings : Settings} {store : FileStore} {first last : Run}
    {moves : List Run.Move} (h : Run.opened settings store = .ok first)
    (hrun : Course.follow Run.step moves first = some last) :
    ∃ (plan : Plan Backend) (traffic : Traffic Backend),
      Course.follow step moves (opened plan) = some traffic ∧ traffic.run = last := by
  obtain ⟨plan, rfl⟩ := run_of_opened h
  rw [run_follow] at hrun
  obtain ⟨traffic, hcourse, hlast⟩ := Option.map_eq_some_iff.1 hrun
  exact ⟨plan, traffic, hcourse, hlast⟩

/-! ### A small plan -/

/-- One range of three records, each fetched by itself, of which one is enough. -/
def sip : Plan Backend where
  capacity := 1
  threads := 1
  files := .empty
  factory _ := .ok (.ranges (.withLimits 1 0))
  hands := [[.range ⟨"a", 0, 3⟩]]
  sink := .memory []
  books := { totals := { source := "a", expected := 3 }, limit := some 1 }
  closeTimeoutMs := 0

/-- The dealing or the consumer makes some steps. -/
def working (count : Nat) : List Run.Move := List.replicate count .work

/-- The thread of the first fetcher makes some steps. -/
def fetching (count : Nat) : List Run.Move := List.replicate count (.thread 0 [])

end Traffic

end SplitFeed
