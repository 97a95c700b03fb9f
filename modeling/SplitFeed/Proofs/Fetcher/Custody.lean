/-
# Who has a batch

A batch that a fetch brought back is in the thread's hand until it is settled: put into the queue,
given back to the reader, or let go of.  A batch whose put was woken is kept back instead, and is
taken in hand again before anything else is fetched.  So the thread never has more than one batch,
and batches are settled in the order in which they were brought back.
-/
import SplitFeed.Backend
import SplitFeed.Proofs.Fetcher.Diary

namespace SplitFeed

/-- Where a batch can be that was brought back. -/
inductive Place where
  | queued
  | givenBack
  | recycled
  | deferred
  | inHand
deriving DecidableEq

/-- The batches that a ledger has in one place, in the order in which they were brought back. -/
def batchesIn (place : Place) (ledger : List (SplitBatch Record × Place)) :
    List (SplitBatch Record) :=
  (ledger.filter (·.2 = place)).map (·.1)

@[simp]
theorem batchesIn_nil (place : Place) : batchesIn place [] = [] := rfl

@[simp]
theorem batchesIn_append (place : Place) (first second : List (SplitBatch Record × Place)) :
    batchesIn place (first ++ second) = batchesIn place first ++ batchesIn place second := by
  simp [batchesIn]

@[simp]
theorem batchesIn_entered (place other : Place) (batches : List (SplitBatch Record)) :
    batchesIn place (batches.map (·, other)) = if other = place then batches else [] := by
  simp only [batchesIn, List.filter_map, List.map_map]
  by_cases hplace : other = place <;> simp [hplace, Function.comp_def]

namespace Fetcher

section Hands

variable {ρ : Type}

/-- The batch in the hands of the running cycle. -/
def inHand (f : Fetcher ρ) : Option (SplitBatch Record) :=
  match f.phase with
  | .weighing batch | .rewinding batch | .booking batch | .publishing batch _ => some batch
  | _ => none

/-- The batch that the thread has, in hand or kept back for a later cycle. -/
def custody (f : Fetcher ρ) : Option (SplitBatch Record) :=
  f.inHand <|> f.leftover

/-- The batch that the thread's next step lets go of. -/
def discards (f : Fetcher ρ) (d : Depot) : Option (SplitBatch Record) :=
  match f.phase with
  | .booking batch => if batch.isEmpty then some batch else none
  | .publishing batch _ =>
    if f.isAsleepInPut d || !d.queue.closed then none else some batch
  | .flushing => if f.isAsleepInPut d || !d.queue.closed then none else f.leftover
  | .finishing failed =>
    if !failed && f.duty.stop == some .draining then none else f.leftover
  | _ => none

/-- What allows the thread to let go of a batch. -/
inductive MayDiscard (f : Fetcher ρ) (d : Depot) (batch : SplitBatch Record) : Prop
  /-- There is nothing in it. -/
  | empty (hempty : batch.isEmpty = true)
  /-- Nobody takes it any more. -/
  | closed (hclosed : d.queue.closed = true)
  /-- The loop ends after a failure. -/
  | failed (hphase : f.phase = .finishing true)
  /-- The loop ends at once. -/
  | stopped (hphase : f.phase = .finishing false) (hstop : f.duty.stop = some .immediate)

variable {f : Fetcher ρ} {d : Depot}

/-- A loop that ends without draining lets go of the batch that is left over. -/
theorem discards_of_drop {failed : Bool} (hphase : f.phase = .finishing failed)
    (hstop : failed = false → f.duty.stop ≠ some .draining) : f.discards d = f.leftover := by
  simpa [discards, hphase] using fun hfailed hmode => absurd hmode (hstop hfailed)

/-- A batch is let go of for a reason. -/
theorem mayDiscard_of_discards {batch : SplitBatch Record} (hf : f.Coherent)
    (h : f.discards d = some batch) : f.MayDiscard d batch := by
  have hstopped := hf.stopped
  cases hphase : f.phase with
  | finishing failed =>
      cases failed with
      | true => exact .failed hphase
      | false =>
          obtain ⟨mode, hmode⟩ := Option.isSome_iff_exists.1 (hstopped hphase)
          cases mode with
          | immediate => exact .stopped hphase hmode
          | draining => simp [discards, hphase, hmode] at h
  | booking other =>
      simp only [discards, hphase, Option.ite_none_right_eq_some, Option.some.injEq] at h
      obtain ⟨hempty, rfl⟩ := h
      exact .empty hempty
  | publishing other last | flushing =>
      simp [discards, hphase] at h
      exact .closed h.1.2
  | _ => simp [discards, hphase] at h

theorem custody_congr {g : Fetcher ρ} (hphase : g.phase = f.phase)
    (hleft : g.leftover = f.leftover) : g.custody = f.custody := by
  simp only [custody, inHand, hphase, hleft]

/-- Between cycles the thread has only what was kept back. -/
theorem custody_of_mayBegin (hmay : Station.mayBegin f = true) : f.custody = f.leftover := by
  obtain ⟨hphase | ⟨result, hphase⟩, -⟩ := Station.phase_of_mayBegin hmay <;>
    simp [custody, inHand, hphase]

/-- The thread never has a batch in hand and another one kept back. -/
theorem toList_custody (hf : f.Coherent) :
    f.custody.toList = f.inHand.toList ++ f.leftover.toList := by
  have hempty := hf.emptyHanded
  cases hphase : f.phase <;>
    simp_all [custody, inHand, Phase.isEmptyHanded, Phase.isFetch]

end Hands

variable {ρ : Type} [SplitReader ρ] {disturbed : List Bool} {f g : Fetcher ρ} {d e : Depot}

/-- The entries for the batch that the thread's next step settles. -/
def settles (disturbed : List Bool) (f : Fetcher ρ) (d : Depot) :
    List (SplitBatch Record × Place) :=
  (f.handsOver d).toList.map (·, .queued) ++
    (((f.calls disturbed d).filterMap ReaderCall.givenBack).map (·, .givenBack) ++
      (f.discards d).toList.map (·, .recycled))

/-- What the thread has or is brought by a step, it settles in this step or has afterwards. -/
theorem custody_advance (hf : f.Coherent) (h : Advance disturbed f d g e) :
    f.custody.toList ++ (f.calls disturbed d).filterMap ReaderCall.brought =
      (f.settles disturbed d).map (·.1) ++ g.custody.toList := by
  have hempty := hf.emptyHanded
  cases h with
  | drop hphase hstop =>
      simp [custody, inHand, settles, calls, handsOver, offers, discards_of_drop hphase hstop,
        hphase, Function.comp_def]
  | _ =>
      simp_all [custody, inHand, settles, calls, handsOver, offers, discards,
        Phase.isEmptyHanded, Phase.isFetch, List.filterMap_cons, ReaderCall.brought,
        ReaderCall.givenBack]

/-- The tickets that fall due in a step are those of its call and of what it lets go of. -/
theorem recycled_advance (h : Advance disturbed f d g e) :
    e.recycled = d.recycled ++ ((f.calls disturbed d).flatMap ReaderCall.recycled ++
      (f.discards d).toList.flatMap (·.recycle)) := by
  cases h with
  | drop hphase hstop =>
      rw [discards_of_drop hphase hstop]
      cases f.leftover <;> simp [calls, hphase]
  | _ => simp_all [calls, discards, discard, ReaderCall.recycled]

end Fetcher

namespace Station

variable {ρ : Type} [SplitReader ρ] {station next last : Station ρ} {move : Move}
  {moves : List Move}

/-- The batch that a move lets go of. -/
def discards : Station ρ → Move → List (SplitBatch Record) :=
  byThread fun _ f d => (f.discards d).toList

/-- The entries for the batch that a move settles. -/
def settles : Station ρ → Move → List (SplitBatch Record × Place) := byThread Fetcher.settles

theorem settled_givenBack (move : Move) (station : Station ρ) :
    batchesIn .givenBack (station.settles move) =
      (station.calls move).filterMap ReaderCall.givenBack := by
  cases move <;> simp [settles, calls, byThread, Fetcher.settles]

theorem settled_recycled (move : Move) (station : Station ρ) :
    batchesIn .recycled (station.settles move) = station.discards move := by
  cases move <;> simp [settles, discards, byThread, Fetcher.settles]

/-- What is settled is not with the thread any more. -/
theorem settled_away {place : Place} (hplace : place = .deferred ∨ place = .inHand) (move : Move)
    (station : Station ρ) : batchesIn place (station.settles move) = [] := by
  rcases hplace with rfl | rfl <;> cases move <;> simp [settles, byThread, Fetcher.settles]

/-- A move settles what the thread had or was brought, or the thread has it afterwards. -/
theorem custody_step (hs : station.fetcher.Coherent) (h : station.step move = some next) :
    station.fetcher.custody.toList ++ (station.calls move).filterMap ReaderCall.brought =
      (station.settles move).map (·.1) ++ next.fetcher.custody.toList := by
  cases turn_of_step h with
  | cycle hmay hnext | loop hmay hnext =>
      have hcustody : next.fetcher.custody = station.fetcher.custody := by
        rw [hnext, Fetcher.custody_of_mayBegin hmay]
        rfl
      simp [calls, settles, byThread, hcustody]
  | thread hadvance hsent => exact Fetcher.custody_advance hs hadvance
  | beside hmove hsame =>
      simp [calls, settles, byThread_of_beside hmove,
        Fetcher.custody_congr hsame.phase hsame.leftover]

/-- What was brought in the course of things was settled in the order in which it came, up to what
the thread has in the end. -/
theorem custody_follow (hs : station.fetcher.Coherent)
    (h : Course.follow step moves station = some last) :
    station.fetcher.custody.toList ++ (diary moves station).filterMap ReaderCall.brought =
      (Course.gather step settles moves station).map (·.1) ++ last.fetcher.custody.toList := by
  rw [diary_eq_gather h, Course.gather_hom List.filterMap_nil (fun _ _ => List.filterMap_append),
    Course.gather_hom List.map_nil (fun _ _ => List.map_append)]
  exact Course.gather_balance (fun station => station.fetcher.Coherent) coherent_step custody_step
    h hs

/-- The tickets that fell due are those of the reader's calls and of the batches let go of. -/
theorem recycled_follow (h : Course.follow step moves station = some last) :
    last.depot.recycled.Perm (station.depot.recycled ++
      ((diary moves station).flatMap ReaderCall.recycled ++
        (Course.gather step discards moves station).flatMap (·.recycle))) := by
  rw [diary_eq_gather h]
  induction moves generalizing station with
  | nil =>
      obtain rfl := Option.some.inj h
      simp [Course.gather]
  | cons move moves ih =>
      obtain ⟨next, hmove, hrest⟩ := Course.follow_cons_eq_some.1 h
      have hhere : next.depot.recycled = station.depot.recycled ++
          ((station.calls move).flatMap ReaderCall.recycled ++
            (station.discards move).flatMap (·.recycle)) := by
        cases turn_of_step hmove with
        | cycle hmay hnext | loop hmay hnext => simp [hnext, calls, discards, byThread]
        | thread hadvance hsent => exact Fetcher.recycled_advance hadvance
        | beside hmove hsame => simp [hsame.recycled, calls, discards, byThread_of_beside hmove]
      refine (ih hrest).trans (List.perm_iff_count.2 fun ticket => ?_)
      simp only [hhere, Course.gather, hmove, Option.elim_some, List.flatMap_append,
        List.count_append]
      omega

theorem sent_settled (h : Course.follow step moves station = some last) :
    last.sent = station.sent ++ batchesIn .queued (Course.gather step settles moves station) := by
  rw [Course.gather_hom rfl (batchesIn_append .queued)]
  refine Course.follow_gathers (fun sofar next => next.sent = station.sent ++ sofar) ?_ h
    (List.append_nil _).symm
  intro move state next sofar hsofar hmove
  cases turn_of_step hmove with
  | cycle hmay hnext | loop hmay hnext => simp [hnext, hsofar, settles, byThread]
  | thread hadvance hsent => simp [hsent, hsofar, settles, byThread, Fetcher.settles]
  | beside hother hsame => simp [hsame.sent, hsofar, settles, byThread_of_beside hother]

/-- While nobody else uses the queue, its content grows by what the thread sends. -/
theorem items_follow {items : List (SplitBatch Record)}
    (halone : ∀ move ∈ moves, ∀ other, move ≠ .queue other)
    (h : Course.follow step moves station = some last)
    (hitems : station.depot.queue.items = items ++ station.sent) :
    last.depot.queue.items = items ++ last.sent := by
  refine Course.follow_preserves_of_never
    (fun station => station.depot.queue.items = items ++ station.sent) ?_ h
    (Course.never_of_forall (fun _ move => ∃ other, move = .queue other)
      (fun move hmem _ hother => hother.elim (halone move hmem)) station) hitems
  intro move state next hstate hmine hmove
  cases move with
  | cycle | loop =>
      simp only [step, Option.ite_none_right_eq_some, Option.some.injEq] at hmove
      obtain ⟨-, rfl⟩ := hmove
      exact hstate
  | thread disturbed =>
      obtain ⟨hadvance, hsent⟩ := step_thread hmove
      rw [(Fetcher.advanced hadvance).items, hsent, hstate, List.append_assoc]
  | nudge nudge =>
      obtain rfl := Option.some.inj hmove
      cases nudge <;> exact hstate
  | queue other => exact absurd ⟨other, rfl⟩ hmine
  | timeOut | ask _ | files _ =>
      obtain rfl := Option.some.inj hmove
      exact hstate

/-- The books on the batches that were brought back on a course: each is in one place, as the
ledger says, and is let go of only for a reason. -/
structure Placed (moves : List Move) (first last : Station ρ)
    (ledger : List (SplitBatch Record × Place)) : Prop where
  brought : ledger.map (·.1) = (diary moves first).filterMap ReaderCall.brought
  queued : batchesIn .queued ledger = last.sent
  givenBack : batchesIn .givenBack ledger = (diary moves first).filterMap ReaderCall.givenBack
  recycled : batchesIn .recycled ledger = Course.gather step discards moves first
  deferred : batchesIn .deferred ledger = last.fetcher.leftover.toList
  inHand : batchesIn .inHand ledger = last.fetcher.inHand.toList
  /-- Nothing else is in the queue if nobody else uses it. -/
  items : (∀ move ∈ moves, ∀ other, move ≠ .queue other) →
    last.depot.queue.items = first.depot.queue.items ++ batchesIn .queued ledger
  /-- No ticket falls due but those of the reader's calls and of the batches let go of. -/
  tickets : last.depot.recycled.Perm (first.depot.recycled ++
    ((diary moves first).flatMap ReaderCall.recycled ++
      (batchesIn .recycled ledger).flatMap (·.recycle)))
  excused : Course.Never step (fun station move => ∃ batch ∈ station.discards move,
    ¬ station.fetcher.MayDiscard station.depot batch) moves first

/-- The entry for what the thread has. -/
def pending (station : Station ρ) : List (SplitBatch Record × Place) :=
  station.fetcher.inHand.toList.map (·, .inHand) ++
    station.fetcher.leftover.toList.map (·, .deferred)

/-- The ledger of a course: what was settled, and then what the thread has. -/
def ledger (moves : List Move) (first last : Station ρ) : List (SplitBatch Record × Place) :=
  Course.gather step settles moves first ++ last.pending

theorem batchesIn_ledger (place : Place) (moves : List Move) (first last : Station ρ) :
    batchesIn place (ledger moves first last) =
      Course.gather step (fun station move => batchesIn place (station.settles move)) moves first ++
        batchesIn place last.pending := by
  rw [ledger, batchesIn_append, Course.gather_hom rfl (batchesIn_append place)]

theorem recycled_ledger (moves : List Move) (first last : Station ρ) :
    batchesIn .recycled (ledger moves first last) = Course.gather step discards moves first := by
  simp [batchesIn_ledger, settled_recycled, pending]

/-- Every batch that was brought back has exactly one fate at any time, whatever the reader, and
however cycles, loops, requests and uses of the queue follow each other: it is in the queue, was
given back to the reader, was let go of, is kept back, or is in the hands of the running cycle.
Batches enter the queue in the order in which they were brought back, and one is let go of only if
it is empty, the queue is closed, or the loop ends after a failure or at once. -/
theorem fetched_batches_have_one_fate {id : Nat} {reader : ρ} {depot : Depot}
    (h : Course.follow step moves (fresh id reader depot) = some last) :
    ∃ ledger, Placed moves (fresh id reader depot) last ledger := by
  have hfirst : (fresh id reader depot).fetcher.Coherent := Fetcher.coherent_new id reader
  have hlast : last.fetcher.Coherent :=
    Course.follow_preserves (fun station => station.fetcher.Coherent) coherent_step h hfirst
  have hsent : last.sent = batchesIn .queued (ledger moves (fresh id reader depot) last) := by
    simpa [ledger, pending, fresh] using sent_settled h
  refine ⟨ledger moves (fresh id reader depot) last, ?_⟩
  constructor
  case brought =>
    have hcustody := custody_follow hfirst h
    rw [Fetcher.toList_custody hlast] at hcustody
    simpa [ledger, pending, fresh, Fetcher.custody, Fetcher.inHand, Function.comp_def] using
      hcustody.symm
  case queued => exact hsent.symm
  case givenBack =>
    rw [diary_eq_gather h, batchesIn_ledger,
      Course.gather_hom List.filterMap_nil (fun _ _ => List.filterMap_append)]
    simp [settled_givenBack, pending]
  case recycled => exact recycled_ledger moves _ last
  case deferred => simp [batchesIn_ledger, settled_away (.inl rfl), pending]
  case inHand => simp [batchesIn_ledger, settled_away (.inr rfl), pending]
  case items =>
    intro halone
    rw [← hsent]
    exact items_follow halone h (List.append_nil _).symm
  case tickets =>
    rw [recycled_ledger]
    exact recycled_follow h
  case excused =>
    refine Course.never_of_never (fun station => station.fetcher.Coherent)
      (fun hcoherent _ hmove => coherent_step hcoherent hmove) ?_
      (Course.never_of_forall (fun _ _ => False) (fun _ _ _ => not_false) _) hfirst
    rintro move station hcoherent ⟨batch, hbatch, hunduly⟩
    cases move with
    | thread disturbed =>
        exact hunduly (Fetcher.mayDiscard_of_discards hcoherent (Option.mem_toList.1 hbatch))
    | _ => cases hbatch

/-- Three cycles over records that are fetched one by one, into a queue with room for one: a batch
is published, a batch is turned away by a wake-up, and a put is woken. -/
def threeCycles : List Move :=
  [.ask (.addSplits [.range ⟨"a", 0, 3⟩]), .cycle] ++ threads 10 ++
    [.cycle] ++ threads 5 ++ [.nudge .requestWake] ++ threads 3 ++
    [.cycle] ++ threads 8 ++ [.nudge .wakePut] ++ threads 2

/-- One batch in the queue and another one kept back, with all that the theorem asks for: the books
say where each of the batches is. -/
theorem three_cycles_placed :
    ∃ last : Station Backend,
      Course.follow step threeCycles
          (fresh 0 (.ranges (.withLimits 1 0)) { queue := .ofCapacity 1 }) = some last ∧
        last.sent.length = 1 ∧ last.fetcher.leftover.isSome = true ∧
        (diary threeCycles (fresh 0 (.ranges (.withLimits 1 0))
          { queue := .ofCapacity 1 } : Station Backend)).length = 5 ∧
        ∃ ledger, Placed threeCycles
          (fresh 0 (.ranges (.withLimits 1 0)) { queue := .ofCapacity 1 }) last ledger := by
  refine ⟨_, rfl, ?_, ?_, ?_, fetched_batches_have_one_fate rfl⟩
  · decide
  · decide
  · decide

end Station

end SplitFeed
