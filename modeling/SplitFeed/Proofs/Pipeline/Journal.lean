/-
# The journal of a pipeline

What happens in a pipeline that may tell of a failure: threads call their readers and report
failures, the consumer hears of failures, sends payloads, closes the sink and closes the supervisor.
The incidents of a course, one after the other, are its journal.  It is written beside the course
and decides nothing.

`Works` sorts the consumer's steps by their incidents and by what they do to those who work for the
supervisor; `works_of_consumer` says that the list is complete.
-/
import SplitFeed.Proofs.Fetcher.Reporting
import SplitFeed.Proofs.Pipeline.Traffic
import SplitFeed.Proofs.Supervisor.Staff

namespace SplitFeed

/-- Something that may tell of a failure. -/
inductive Incident where
  /-- A fetcher's thread calls its reader. -/
  | call (fetcher : Nat) (call : ReaderCall)
  /-- A fetcher's thread reports a failure. -/
  | report (fetcher : Nat) (failure : Failure)
  /-- The consumer hears of the oldest failure. -/
  | hear (failure : Failure)
  /-- The consumer sends a payload to the sink. -/
  | send (result : Except Failure Unit)
  | closeSink (result : Except Failure Unit)
  /-- The supervisor is closed, its threads joined or given up. -/
  | closeSupervisor (result : Except Failure Unit)

namespace Incident

/-- The complaint about a call of a given fetcher. -/
def complaint (fetcher : Nat) : Incident → List Failure
  | call caller made => if caller = fetcher then made.complaint caller else []
  | _ => []

/-- The failure that a given fetcher reports. -/
def reportedBy (fetcher : Nat) : Incident → List Failure
  | report reporter failure => if reporter = fetcher then [failure] else []
  | _ => []

/-- The failure that is reported. -/
def reported : Incident → List Failure
  | report _ failure => [failure]
  | _ => []

/-- The failure that is heard of. -/
def heard : Incident → List Failure
  | hear failure => [failure]
  | _ => []

/-- The fetcher whose thread it is about. -/
def fetcher? : Incident → Option Nat
  | call fetcher _ | report fetcher _ => some fetcher
  | _ => none

/-- Whether something went wrong. -/
def isTrouble : Incident → Bool
  | call caller made => !(made.complaint caller).isEmpty
  | report _ _ | hear _ => true
  | send result | closeSink result | closeSupervisor result => result matches .error _

/-- Nothing is complained of or reported by a fetcher that an incident is not about. -/
theorem silent_of_ne {fetcher : Nat} {incident : Incident}
    (h : ∀ other ∈ incident.fetcher?, other ≠ fetcher) :
    incident.complaint fetcher = [] ∧ incident.reportedBy fetcher = [] := by
  cases incident with
  | call caller made => exact ⟨if_neg (h caller rfl), rfl⟩
  | report reporter failure => exact ⟨rfl, if_neg (h reporter rfl)⟩
  | _ => exact ⟨rfl, rfl⟩

end Incident

namespace ConsumerBooks

/-- How sending groups goes, payload by payload. -/
def sendings (budget : Option Nat) (sink : Sink) (store : FileStore) :
    List (Group Record) → List (Except Failure Unit)
  | [] => []
  | (_, records) :: rest =>
    let sent := affordable budget records
    let payload := renderLines sent
    let (result, sink, store) :=
      if payload.isEmpty then (.ok (), sink, store) else sink.send payload store
    (if payload.isEmpty then [] else [result]) ++
      match result with
      | .error _ => []
      | .ok () =>
        if exceeds budget records then []
        else sendings (budget.map (· - sent.length)) sink store rest

/-- If all groups were sent, every payload was. -/
theorem sendings_of_sent {budget : Option Nat} {sofar rendering : Rendering} {sink next : Sink}
    {store later : FileStore} {groups : List (Group Record)}
    (h : sendGroups budget sofar sink store groups = (.ok rendering, next, later)) :
    ∀ result ∈ sendings budget sink store groups, result = .ok () := by
  induction groups generalizing budget sofar sink store with
  | nil => exact List.forall_mem_nil _
  | cons group rest ih =>
      obtain ⟨id, records⟩ := group
      simp only [sendGroups] at h
      simp only [sendings]
      generalize hsent : (if (renderLines (affordable budget records)).isEmpty = true then
        (.ok (), sink, store) else sink.send (renderLines (affordable budget records)) store) =
          outcome at h ⊢
      obtain ⟨_ | _, between, meanwhile⟩ := outcome
      · cases h
      · refine List.forall_mem_append.2 ⟨?_, ?_⟩
        · split
          · exact List.forall_mem_nil _
          · exact List.forall_mem_singleton.2 rfl
        · dsimp only at h ⊢
          split
          · exact List.forall_mem_nil _
          · next hgoes =>
              rw [if_neg hgoes] at h
              exact ih h

end ConsumerBooks

namespace Pipeline

variable {ρ : Type}

/-- The incidents of the consumer's next step, if it has one. -/
def incidents (p : Pipeline ρ) : List Incident :=
  let failure := p.supervisor.takeFailure.1.toList.map Incident.hear
  match p.errands, p.phase with
  | [], .listening => failure
  | [], .waiting bell => if p.supervisor.queue.hasRung bell then [] else failure
  | [], .consuming batch =>
    (ConsumerBooks.sendings p.books.budget p.sink p.store batch.waiting).map .send
  | [], .closingSink _ => [.closeSink (p.sink.close p.store).1]
  | [], .joining _ [] (straggler :: others) =>
    [.closeSupervisor (.error (.leftBehind (straggler :: others) p.closeTimeoutMs))]
  | [], .joining _ (id :: _) _ =>
    match p.supervisor.fetcher? id with
    | some f =>
      if f.terminated.done && f.phase.isPanic then
        [.closeSupervisor (.error (.fetcherPanicked id))]
      else []
    | none => []
  | [], .lastWords _ => failure ++ [.closeSupervisor p.supervisor.checkErrors.1]
  | _, _ => []

/-- Nobody joins or leaves those who work for a supervisor, and no failure is reported or heard. -/
structure Keeps (s next : Supervisor ρ) : Prop where
  crew : next.crew = s.crew
  nextId : next.nextId = s.nextId
  slots : next.slots.length = s.slots.length
  onBooks : ∀ id ∈ s.onBooks, id ∈ next.onBooks
  failures : next.depot.failures = s.depot.failures

/-- The steps of a consumer without errands, and their incidents. -/
inductive Works (p : Pipeline ρ) : List Incident → Pipeline ρ → Prop
  /-- It goes on feeding, or leaves. -/
  | feed {log q} (hphase : p.phase.isTaking = true)
      (hafter : q.phase.isTaking = true ∨ q.phase = .closingSink (.ok ()))
      (hkeeps : Keeps p.supervisor q.supervisor)
      (hlog : ∀ incident ∈ log, incident = .send (.ok ())) : Works p log q
  /-- It chokes on a batch. -/
  | choke {log q} (hphase : p.phase.isTaking = true)
      (hafter : (∃ failure, q.phase = .closingSink (.error failure)) ∨
        ∃ cause, q.phase = .fallen cause)
      (hkeeps : Keeps p.supervisor q.supervisor)
      (hlog : ∀ incident ∈ log, ∃ result, incident = .send result) : Works p log q
  /-- It hears of a failure. -/
  | hear {failure failures} (hphase : p.phase.isTaking = true)
      (hfailures : p.supervisor.depot.failures = failure :: failures) :
      Works p [.hear failure] { p with
        supervisor := { p.supervisor with depot := { p.supervisor.depot with failures } }
        phase := .closingSink (.error (.threadGaveUp failure)) }
  | closeSink {drained} (hphase : p.phase = .closingSink drained) :
      Works p [.closeSink (p.sink.close p.store).1] (p.closeSink drained)
  | dismiss {sofar} (hphase : p.phase = .dismissing sofar) : Works p [] (p.dismiss sofar)
  | closeQueue {sofar fetchers} (hphase : p.phase = .closingQueue sofar fetchers) :
      Works p [] ((p.withQueue p.supervisor.queue.close).enter (.joining sofar fetchers []))
  /-- It joins a thread that is gone. -/
  | join {sofar id rest stragglers} (hphase : p.phase = .joining sofar (id :: rest) stragglers)
      (hgone : ∀ f ∈ p.supervisor.fetcher? id, f.phase = .gone) :
      Works p [] (p.enter (.joining sofar rest stragglers))
  /-- It leaves a thread behind. -/
  | leaveBehind {sofar id rest stragglers}
      (hphase : p.phase = .joining sofar (id :: rest) stragglers) :
      Works p [] (p.enter (.joining sofar rest (stragglers ++ [id])))
  /-- It has joined all threads. -/
  | joined {sofar} (hphase : p.phase = .joining sofar [] []) :
      Works p [] (p.enter (.lastWords sofar))
  /-- It gives up: a thread panicked, or some were left behind. -/
  | giveUp {sofar fetchers stragglers failure}
      (hphase : p.phase = .joining sofar fetchers stragglers) :
      Works p [.closeSupervisor (.error failure)] (p.enter (.over
        ((firstError sofar (.error failure)).map fun _ => p.books.summary)))
  /-- It ends, and hears of a last failure. -/
  | hearLast {sofar failure failures} (hphase : p.phase = .lastWords sofar)
      (hfailures : p.supervisor.depot.failures = failure :: failures) :
      Works p [.hear failure, .closeSupervisor (.error (.threadGaveUp failure))] { p with
        supervisor := { p.supervisor with depot := { p.supervisor.depot with failures } }
        phase := .over ((firstError sofar (.error (.threadGaveUp failure))).map
          fun _ => p.books.summary) }
  /-- It ends, and there is nothing to hear. -/
  | conclude {sofar} (hphase : p.phase = .lastWords sofar)
      (hfailures : p.supervisor.depot.failures = []) :
      Works p [.closeSupervisor (.ok ())] (p.enter (.over
        ((firstError sofar (.ok ())).map fun _ => p.books.summary)))

variable {p q : Pipeline ρ}

theorem keeps_refl (s : Supervisor ρ) : Keeps s s :=
  ⟨rfl, rfl, rfl, fun _ => id, rfl⟩

theorem keeps_depot {s : Supervisor ρ} {depot : Depot}
    (h : depot.failures = s.depot.failures) : Keeps s { s with depot } :=
  ⟨rfl, rfl, rfl, fun _ => id, h⟩

theorem keeps_vacate [SplitReader ρ] (s : Supervisor ρ) (slot : Nat) :
    Keeps s (s.vacate slot).2 := by
  rcases Supervisor.vacate_cases s slot with hspared | ⟨f, hf, hfinished, hseat, hvacated⟩
  · rw [hspared]
    exact keeps_refl s
  · rw [hvacated]
    have hsweeps := Supervisor.Performs.sweep hf hfinished hseat
    exact ⟨rfl, rfl, (Supervisor.slots_performs hsweeps).1,
      fun _ => Supervisor.onBooks_performs hsweeps, rfl⟩

/-- The consumer goes on without having done anything. -/
theorem works_enter {phase : ConsumerPhase} (hphase : p.phase.isTaking = true)
    (hafter : phase.isTaking = true ∨ phase = .closingSink (.ok ())) : Works p [] (p.enter phase) :=
  .feed hphase hafter (keeps_refl _) (List.forall_mem_nil _)

/-- The consumer uses the queue, and goes on. -/
theorem works_queue {queue : HandoffQueue (SplitBatch Record)} {phase : ConsumerPhase}
    (hphase : p.phase.isTaking = true) (hafter : phase.isTaking = true) :
    Works p [] ((p.withQueue queue).enter phase) :=
  .feed hphase (.inl hafter) (keeps_depot rfl) (List.forall_mem_nil _)

/-- The consumer listens, and goes on if there is nothing to hear. -/
theorem works_listen {phase : ConsumerPhase} (hphase : p.phase.isTaking = true)
    (htakes : phase.isTaking = true) :
    Works p (p.supervisor.takeFailure.1.toList.map .hear) (p.listen phase) := by
  cases hfailures : p.supervisor.depot.failures with
  | nil =>
      simpa [listen, Supervisor.checkErrors, Supervisor.takeFailure, hfailures, enter] using
        works_enter hphase (.inl htakes)
  | cons failure failures =>
      simpa [listen, Supervisor.checkErrors, Supervisor.takeFailure, hfailures] using
        Works.hear hphase hfailures

theorem works_consume {batch : SplitBatch Record} (hphase : p.phase = .consuming batch) :
    Works p ((ConsumerBooks.sendings p.books.budget p.sink p.store batch.waiting).map .send)
      (p.consume batch) := by
  have htakes : p.phase.isTaking = true := by rw [hphase]; rfl
  have hsends (results : List (Except Failure Unit)) :
      ∀ incident ∈ results.map Incident.send, ∃ result, incident = .send result :=
    List.forall_mem_map.2 fun result _ => ⟨result, rfl⟩
  unfold consume
  split
  · exact .choke htakes (.inr ⟨_, rfl⟩) (keeps_depot rfl) (hsends _)
  · exact .choke htakes (.inl ⟨_, rfl⟩) (keeps_depot rfl) (hsends _)
  · next books sink store hconsumed =>
      have hsent : ∀ incident ∈ (ConsumerBooks.sendings p.books.budget p.sink p.store
          batch.waiting).map Incident.send, incident = .send (.ok ()) := by
        unfold ConsumerBooks.consume at hconsumed
        split at hconsumed
        · cases hconsumed
        · next hgroups =>
            exact List.forall_mem_map.2 fun result hresult =>
              congrArg _ (ConsumerBooks.sendings_of_sent hgroups result hresult)
      dsimp only
      split <;> exact .feed htakes (.inl rfl) (keeps_depot rfl) hsent

theorem works_reap [SplitReader ρ] {bell slot : Nat} (hphase : p.phase = .reaping bell slot) :
    Works p [] (p.reap bell slot) := by
  have htakes : p.phase.isTaking = true := by rw [hphase]; rfl
  unfold reap
  split
  · have hkeeps := keeps_vacate p.supervisor slot
    split
    · next hvacated =>
        rw [hvacated] at hkeeps
        exact .feed htakes (.inl rfl) hkeeps (List.forall_mem_nil _)
    · next hvacated =>
        rw [hvacated] at hkeeps
        exact .feed htakes (.inl rfl) hkeeps (List.forall_mem_nil _)
  · split <;> exact works_enter htakes (.inl rfl)

theorem works_count {bell : Nat} {fetchers : List Nat}
    (hphase : p.phase = .counting bell fetchers) :
    Works p [] (p.countDrained bell fetchers) := by
  have htakes : p.phase.isTaking = true := by rw [hphase]; rfl
  unfold countDrained
  split
  · exact .feed htakes (.inr rfl) (keeps_refl _) (List.forall_mem_nil _)
  · split <;> exact works_enter htakes (.inl rfl)

theorem works_join {sofar : Except Failure Unit} {fetchers stragglers : List Nat}
    (herrands : p.errands = []) (hphase : p.phase = .joining sofar fetchers stragglers)
    (h : p.join? sofar fetchers stragglers = some q) : Works p p.incidents q := by
  cases fetchers with
  | nil =>
      cases stragglers with
      | nil =>
          cases h
          simpa [incidents, herrands, hphase] using Works.joined hphase
      | cons straggler others =>
          cases h
          simpa [incidents, herrands, hphase] using Works.giveUp hphase
  | cons id rest =>
      cases hfound : p.supervisor.fetcher? id with
      | none =>
          simp only [join?, hfound] at h
          cases h
          simpa [incidents, herrands, hphase, hfound] using Works.join hphase (by simp [hfound])
      | some f =>
          simp only [join?, hfound] at h
          split at h
          · next hdone =>
              split at h
              · next hpanicked =>
                  cases h
                  simpa [incidents, herrands, hphase, hfound, hdone, hpanicked, Phase.isPanic]
                    using Works.giveUp hphase
              · next hgone =>
                  cases h
                  simpa [incidents, herrands, hphase, hfound, hdone, hgone, Phase.isPanic]
                    using Works.join hphase (by simp [hfound, hgone])
              · cases h
          · next hrunning =>
              split at h
              · cases h
                simpa [incidents, herrands, hphase, hfound, hrunning] using
                  Works.leaveBehind hphase
              · cases h

theorem works_conclude {sofar : Except Failure Unit} (hphase : p.phase = .lastWords sofar) :
    Works p (p.supervisor.takeFailure.1.toList.map .hear ++
      [.closeSupervisor p.supervisor.checkErrors.1]) (p.conclude sofar) := by
  cases hfailures : p.supervisor.depot.failures with
  | nil =>
      simpa [conclude, enter, Supervisor.checkErrors, Supervisor.takeFailure, hfailures] using
        Works.conclude hphase hfailures
  | cons failure failures =>
      simpa [conclude, Supervisor.checkErrors, Supervisor.takeFailure, hfailures] using
        Works.hearLast hphase hfailures

/-- Those are all steps there are. -/
theorem works_of_consumer [SplitReader ρ] (herrands : p.errands = [])
    (h : p.stepConsumer? = some q) : Works p p.incidents q := by
  cases hphase : p.phase with
  | listening =>
      simp only [stepConsumer?, herrands, hphase] at h
      cases h
      have htakes : p.phase.isTaking = true := by rw [hphase]; rfl
      simp only [incidents, herrands, hphase]
      exact works_listen htakes rfl
  | polling =>
      simp only [stepConsumer?, herrands, hphase] at h
      have htakes : p.phase.isTaking = true := by rw [hphase]; rfl
      simp only [incidents, herrands, hphase]
      cases hitems : p.supervisor.queue.items with
      | nil =>
          simp only [HandoffQueue.poll_nil hitems] at h
          cases h
          exact works_enter htakes (.inl rfl)
      | cons batch rest =>
          simp only [HandoffQueue.poll_cons hitems] at h
          cases h
          exact works_queue htakes rfl
  | consuming batch =>
      simp only [stepConsumer?, herrands, hphase] at h
      cases h
      simpa [incidents, herrands, hphase] using works_consume hphase
  | asking =>
      simp only [stepConsumer?, herrands, hphase] at h
      cases h
      simpa [incidents, herrands, hphase] using works_queue (by rw [hphase]; rfl) rfl
  | looking bell =>
      simp only [stepConsumer?, herrands, hphase] at h
      have htakes : p.phase.isTaking = true := by rw [hphase]; rfl
      simp only [incidents, herrands, hphase]
      split at h
      · cases h
        exact works_enter htakes (.inl rfl)
      · split at h <;> cases h <;> exact works_enter htakes (.inl rfl)
  | reaping bell slot =>
      simp only [stepConsumer?, herrands, hphase] at h
      cases h
      simpa [incidents, herrands, hphase] using works_reap hphase
  | lastLook =>
      simp only [stepConsumer?, herrands, hphase] at h
      have htakes : p.phase.isTaking = true := by rw [hphase]; rfl
      cases h
      simp only [incidents, herrands, hphase]
      split
      · exact works_enter htakes (.inr rfl)
      · exact works_enter htakes (.inl rfl)
  | counting bell fetchers =>
      simp only [stepConsumer?, herrands, hphase] at h
      cases h
      simpa [incidents, herrands, hphase] using works_count hphase
  | waiting bell =>
      simp only [stepConsumer?, herrands, hphase, await?] at h
      have htakes : p.phase.isTaking = true := by rw [hphase]; rfl
      simp only [incidents, herrands, hphase]
      split at h
      · next hrung =>
          cases h
          rw [if_pos hrung]
          exact works_enter htakes (.inl rfl)
      · next hsilent =>
          rw [if_neg hsilent]
          split at h
          · cases h
          · cases h
            exact works_listen htakes rfl
  | joining sofar fetchers stragglers =>
      simp only [stepConsumer?, herrands, hphase] at h
      exact works_join herrands hphase h
  | closingSink drained =>
      simp only [stepConsumer?, herrands, hphase] at h
      cases h
      simpa [incidents, herrands, hphase] using Works.closeSink hphase
  | dismissing sofar =>
      simp only [stepConsumer?, herrands, hphase] at h
      cases h
      simpa [incidents, herrands, hphase] using Works.dismiss hphase
  | closingQueue sofar fetchers =>
      simp only [stepConsumer?, herrands, hphase] at h
      cases h
      simpa [incidents, herrands, hphase] using Works.closeQueue hphase
  | lastWords sofar =>
      simp only [stepConsumer?, herrands, hphase] at h
      cases h
      simpa [incidents, herrands, hphase] using works_conclude hphase
  | «over» _ | fallen _ => simp [stepConsumer?, herrands, hphase] at h

section Effects

variable {log : List Incident}

/-- The consumer starts nobody. -/
theorem crew_works (h : Works p log q) :
    q.supervisor.crew = p.supervisor.crew ∧ q.supervisor.nextId = p.supervisor.nextId := by
  cases h with
  | feed _ _ hkeeps | choke _ _ hkeeps => exact ⟨hkeeps.crew, hkeeps.nextId⟩
  | _ => exact ⟨rfl, rfl⟩

/-- Its steps are not about a thread. -/
theorem fetcher?_works (h : Works p log q) : ∀ incident ∈ log, incident.fetcher? = none := by
  cases h with
  | feed _ _ _ hlog =>
      intro incident hmem
      rw [hlog incident hmem]
      rfl
  | choke _ _ _ hlog =>
      intro incident hmem
      obtain ⟨result, rfl⟩ := hlog incident hmem
      rfl
  | _ => simp [Incident.fetcher?]

/-- What was reported before its step it hears of, or leaves to be heard of. -/
theorem heard_works (h : Works p log q) :
    p.supervisor.depot.failures ++ log.flatMap (·.reported) =
      log.flatMap (·.heard) ++ q.supervisor.depot.failures := by
  have hsends (hlog : ∀ incident ∈ log, ∃ result, incident = .send result) :
      log.flatMap (·.reported) = [] ∧ log.flatMap (·.heard) = [] := by
    constructor <;> refine List.flatMap_eq_nil_iff.2 fun incident hmem => ?_ <;>
      obtain ⟨result, rfl⟩ := hlog incident hmem <;> rfl
  cases h with
  | feed _ _ hkeeps hlog =>
      obtain ⟨hreported, hheard⟩ := hsends fun incident hmem => ⟨_, hlog incident hmem⟩
      rw [hreported, hheard, List.append_nil, List.nil_append, hkeeps.failures]
  | choke _ _ hkeeps hlog =>
      obtain ⟨hreported, hheard⟩ := hsends hlog
      rw [hreported, hheard, List.append_nil, List.nil_append, hkeeps.failures]
  | hear _ hfailures => simp [Incident.reported, Incident.heard, hfailures]
  | hearLast _ hfailures => simp [Incident.reported, Incident.heard, hfailures]
  | conclude _ hfailures => simp [Incident.reported, Incident.heard, hfailures, enter]
  | closeSink | dismiss | closeQueue | join | leaveBehind | joined | giveUp =>
      simp [Incident.reported, Incident.heard, closeSink, dismiss, enter, withQueue, withStore,
        Supervisor.withQueue]

theorem firstError_error (first : Except Failure Unit) (failure : Failure) :
    ∃ earliest, firstError first (.error failure) = .error earliest := by
  cases first with
  | ok _ => exact ⟨failure, rfl⟩
  | error earlier => exact ⟨earlier, rfl⟩

/-- A run whose closing did not go well is over with an error. -/
theorem doomed_over (first : Except Failure Unit) (failure : Failure) (summary : Report.Summary) :
    (ConsumerPhase.over ((firstError first (.error failure)).map fun _ => summary)).Doomed := by
  obtain ⟨earliest, hfails⟩ := firstError_error first failure
  rw [hfails]
  exact @ConsumerPhase.Doomed.closing summary _ earliest .ended

/-- If something goes wrong in its step, the run can only end with an error. -/
theorem doomed_of_trouble (h : Works p log q) {incident : Incident} (hmem : incident ∈ log)
    (htrouble : incident.isTrouble = true) : q.phase.Doomed := by
  cases h with
  | feed _ _ _ hlog =>
      rw [hlog incident hmem] at htrouble
      cases htrouble
  | choke _ hafter =>
      rcases hafter with ⟨failure, hfails⟩ | ⟨cause, hfalls⟩
      · rw [hfails]
        exact .closingSink failure
      · rw [hfalls]
        exact .fallen cause
  | hear => exact .closingSink _
  | @closeSink drained =>
      rw [List.mem_singleton.1 hmem] at htrouble
      cases hclosed : (p.sink.close p.store).1 with
      | ok _ =>
          rw [hclosed] at htrouble
          cases htrouble
      | error cause =>
          obtain ⟨failure, hfails⟩ := firstError_error drained (.sinkNotClosed cause)
          have hafter : (p.closeSink drained).phase = .dismissing (.error failure) := by
            rw [← hfails]
            simp [closeSink, withStore, hclosed, Except.mapError]
          rw [hafter]
          exact @ConsumerPhase.Doomed.closing p.books.summary _ failure .dismissing
  | giveUp | hearLast => exact doomed_over _ _ _
  | conclude =>
      rw [List.mem_singleton.1 hmem] at htrouble
      cases htrouble
  | dismiss | closeQueue | join | leaveBehind | joined => cases hmem

end Effects

end Pipeline

namespace Traffic

open Run (errand_consumer)
open Supervisor (Stride Performs)

variable {ρ : Type} [SplitReader ρ]

/-- The incidents of a thread's step: the calls it makes and the failures it reports. -/
def threadLog (disturbed : List Bool) (f : Fetcher ρ) (d : Depot) (reported : List Failure) :
    List Incident :=
  (f.calls disturbed d).map (.call f.id) ++ reported.map (.report f.id)

theorem complaint_threadLog (disturbed : List Bool) (f : Fetcher ρ) (d : Depot)
    (reported : List Failure) :
    (threadLog disturbed f d reported).flatMap (·.complaint f.id) = f.complaints disturbed d := by
  simp [threadLog, Incident.complaint, Fetcher.complaints, List.flatMap_map]

theorem reported_threadLog (disturbed : List Bool) (f : Fetcher ρ) (d : Depot)
    (reported : List Failure) :
    (threadLog disturbed f d reported).flatMap (·.reportedBy f.id) = reported ∧
      (threadLog disturbed f d reported).flatMap (·.reported) = reported ∧
      (threadLog disturbed f d reported).flatMap (·.heard) = [] := by
  simp [threadLog, Incident.reportedBy, Incident.reported, Incident.heard, List.flatMap_map]

theorem fetcher?_threadLog (disturbed : List Bool) (f : Fetcher ρ) (d : Depot)
    (reported : List Failure) :
    ∀ incident ∈ threadLog disturbed f d reported, incident.fetcher? = some f.id :=
  List.forall_mem_append.2
    ⟨List.forall_mem_map.2 fun _ _ => rfl, List.forall_mem_map.2 fun _ _ => rfl⟩

/-- The incidents of a move. -/
def incidents (traffic : Traffic ρ) : Run.Move → List Incident
  | .thread id disturbed =>
    let supervisor := traffic.pipeline.supervisor
    match supervisor.fetcher? id, supervisor.stepThread? id disturbed with
    | some f, some after =>
      threadLog disturbed f supervisor.depot
        (after.depot.failures.drop supervisor.depot.failures.length)
    | _, _ => []
  | .work => if traffic.dealing.isEmpty then traffic.pipeline.incidents else []
  | .timeOut _ | .late => []

/-- The incidents of a course, one after the other. -/
def journal (moves : List Run.Move) (traffic : Traffic ρ) : List Incident :=
  Course.gather step incidents moves traffic

/-- What a move does, and its incidents. -/
inductive Goes (traffic : Traffic ρ) (log : List Incident) (next : Traffic ρ) : Prop
  /-- A thread makes a step. -/
  | thread {f g e disturbed reported} (hf : f ∈ traffic.pipeline.supervisor.crew)
      (hstride : Stride disturbed f traffic.pipeline.supervisor.depot g e)
      (hreported : e.failures = traffic.pipeline.supervisor.depot.failures ++ reported)
      (hlog : log = threadLog disturbed f traffic.pipeline.supervisor.depot reported)
      (hnext : next.pipeline = { traffic.pipeline with
        supervisor := { traffic.pipeline.supervisor with depot := e }.replace g })
      (hdealing : next.dealing = traffic.dealing)
  /-- A nap is over. -/
  | timeOut {f} (hf : f ∈ traffic.pipeline.supervisor.crew) (hlog : log = [])
      (hnext : next.pipeline = { traffic.pipeline with
        supervisor := traffic.pipeline.supervisor.replace f.timeOut })
      (hdealing : next.dealing = traffic.dealing)
  /-- The time for joining threads is up. -/
  | late (hlog : log = []) (hnext : next.pipeline = { traffic.pipeline with late := true })
      (hdealing : next.dealing = traffic.dealing)
  /-- The dealing goes on. -/
  | deal {task later more after} (hdealt : traffic.dealing = task :: later)
      (hperforms : Performs traffic.pipeline.supervisor task (.ok more) after) (hlog : log = [])
      (hnext : next.pipeline = { traffic.pipeline with supervisor := after })
      (hdealing : next.dealing = more ++ later)
  /-- The dealing fails. -/
  | fail {task later cause after} (hdealt : traffic.dealing = task :: later)
      (hperforms : Performs traffic.pipeline.supervisor task (.error cause) after) (hlog : log = [])
      (hnext : next.pipeline = { traffic.pipeline with
        supervisor := after, phase := .over (.error (.splitsNotDealt cause)) })
      (hdealing : next.dealing = [])
  /-- The consumer runs an errand. -/
  | errand {errand rest more after} (hdealt : traffic.dealing = [])
      (herrands : traffic.pipeline.errands = errand :: rest)
      (hperforms : Performs traffic.pipeline.supervisor (.errand errand) (.ok more) after)
      (hlog : log = []) (hsupervisor : next.pipeline.supervisor = after)
      (hphase : next.pipeline.phase = traffic.pipeline.phase)
      (hdealing : next.dealing = [])
  /-- The consumer makes a step of its own. -/
  | work (hdealt : traffic.dealing = [])
      (hstep : traffic.pipeline.stepConsumer? = some next.pipeline)
      (hworks : Pipeline.Works traffic.pipeline log next.pipeline) (hdealing : next.dealing = [])

variable {traffic next : Traffic ρ} {move : Run.Move}

/-- Those are all moves there are. -/
theorem goes_of_step (h : step move traffic = some next) :
    Goes traffic (traffic.incidents move) next := by
  cases move with
  | thread id disturbed =>
      obtain ⟨after, hstep, rfl⟩ := Option.map_eq_some_iff.1 h
      obtain ⟨f, hfound, g, e, hstride, rfl⟩ := Supervisor.found_of_stepThread? hstep
      obtain ⟨hf, rfl⟩ := Supervisor.mem_crew_of_fetcher? hfound
      obtain ⟨reported, hreported, -⟩ := Fetcher.reports_stride hstride
      refine .thread hf hstride hreported ?_ rfl rfl
      have hgrown : ({ traffic.pipeline.supervisor with depot := e }.replace g).depot.failures =
          traffic.pipeline.supervisor.depot.failures ++ reported := hreported
      simp only [incidents, hfound, hstep, hgrown, List.drop_left]
  | timeOut id =>
      obtain ⟨f, hfound, rfl⟩ := Option.map_eq_some_iff.1 h
      exact .timeOut (Supervisor.mem_crew_of_fetcher? hfound).1 rfl rfl rfl
  | late =>
      obtain rfl := Option.some.inj h
      exact .late rfl rfl rfl
  | work =>
      simp only [step] at h
      split at h
      · next hdealt =>
          obtain ⟨after, hstep, rfl⟩ := Option.map_eq_some_iff.1 h
          cases herrands : traffic.pipeline.errands with
          | cons errand rest =>
              have hperforms := Supervisor.performs_errand errand traffic.pipeline.supervisor
              obtain rfl := errand_consumer herrands hstep
              have hlog : traffic.incidents .work = [] := by
                simp [incidents, hdealt, Pipeline.incidents, herrands]
              exact .errand hdealt herrands hperforms hlog rfl rfl hdealt
          | nil =>
              have hworks := Pipeline.works_of_consumer herrands hstep
              exact .work hdealt hstep (by simpa [incidents, hdealt] using hworks) hdealt
      · next task later hdealt =>
          have hperforms := Supervisor.performs task traffic.pipeline.supervisor
          split at h
          · next more after hperform =>
              cases h
              rw [hperform] at hperforms
              exact .deal hdealt hperforms (by simp [incidents, hdealt]) rfl rfl
          · next cause after hperform =>
              cases h
              rw [hperform] at hperforms
              exact .fail hdealt hperforms (by simp [incidents, hdealt]) rfl rfl

end Traffic

end SplitFeed
