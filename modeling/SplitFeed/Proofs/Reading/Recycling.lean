/-
# Tickets of batches that came back

A batch that comes back may carry a ticket, to be run when somebody is done with the batch.  The
reader hands the batch out again and the ticket with it, or it runs the ticket when a removal leaves
nothing of a batch that waits.

There are two ways to lose a ticket: the batch has nothing left in it at the moment it comes back,
or it waits when the reader is closed.  Reader and tickets are in balance exactly on the courses
where neither happens to a batch with a ticket.
-/
import SplitFeed.Proofs.Reading.Lending

namespace SplitFeed

/-- The tickets that batches carry. -/
def SplitBatch.tickets (batches : List (SplitBatch Record)) : List Nat :=
  batches.flatMap (·.recycle)

theorem SplitBatch.tickets_append (first second : List (SplitBatch Record)) :
    tickets (first ++ second) = tickets first ++ tickets second :=
  List.flatMap_append ..

/-- A sieve leaves a batch its ticket. -/
@[simp]
theorem SplitBatch.recycle_retainSplits (keep : String → Bool) (batch : SplitBatch Record) :
    (batch.retainSplits keep).recycle = batch.recycle := rfl

theorem SplitBatch.tickets_map_retainSplits (keep : String → Bool)
    (batches : List (SplitBatch Record)) :
    tickets (batches.map (·.retainSplits keep)) = tickets batches := by
  simp [tickets, List.flatMap_map]

/-- A removal runs the tickets of the batches that it leaves nothing of. -/
theorem Docket.tickets_lose {κ : Type} [HasSplitId κ] (ids : List String) (docket : Docket κ) :
    (SplitBatch.tickets docket.replay).Perm
      ((docket.lose ids).1 ++ SplitBatch.tickets (docket.lose ids).2.replay) := by
  have hkept := SplitBatch.tickets_map_retainSplits (docket.lose ids).2.admits docket.replay
  rw [← hkept]
  refine .trans ?_ (.of_eq (SplitBatch.tickets_append _ _))
  exact (List.filter_append_perm SplitBatch.isEmpty _).symm.flatMap_right _

theorem Backend.tickets_changed {change : SplitsChange Split} {backend next : Backend}
    {recycled : List Nat} (h : Changed change backend recycled next) :
    (SplitBatch.tickets backend.replay).Perm (recycled ++ SplitBatch.tickets next.replay) := by
  cases h with
  | gainRanges | gainFiles => simp [replay]
  | loseRanges splits reader | loseFiles splits reader => exact Docket.tickets_lose _ _

namespace Lending

open SplitBatch (tickets)

variable {lending next first last : Lending} {move : Move} {moves : List Move}

/-- The tickets that the reader runs in a move. -/
def recycles (lending : Lending) : Move → List Nat
  | .change change => (SplitReader.change change lending.reader).2.1
  | .giveBack place => (lending.givenBack (.giveBack place)).flatMap fun stale =>
      (SplitReader.rewind stale lending.reader).2.1
  | _ => []

/-- The tickets that are lost in a move: that of a batch that comes back with nothing left in it,
and those of the batches that wait when the reader is closed. -/
def wasted (lending : Lending) : Move → List Nat
  | .giveBack place => tickets <| (lending.givenBack (.giveBack place)).filter fun stale =>
      (stale.retainSplits fun id => lending.reader.admits id).isEmpty
  | .close => tickets lending.reader.replay
  | _ => []

/-- A batch with a ticket comes back with nothing left in it, or it waits when the reader is
closed. -/
def Wastes (lending : Lending) : Move → Prop
  | .giveBack place => ∃ stale ∈ lending.givenBack (.giveBack place), stale.ticket.isSome ∧
      (stale.retainSplits fun id => lending.reader.admits id).isEmpty
  | .close => ∃ batch ∈ lending.reader.replay, batch.ticket.isSome
  | _ => False

theorem tickets_ne_nil {batches : List (SplitBatch Record)} :
    tickets batches ≠ [] ↔ ∃ batch ∈ batches, batch.ticket.isSome := by
  simp [SplitBatch.tickets, SplitBatch.recycle, Option.isSome_iff_ne_none]

theorem wasted_ne_nil : lending.wasted move ≠ [] ↔ lending.Wastes move := by
  cases move with
  | giveBack place =>
      simp only [wasted, tickets_ne_nil, Wastes, List.mem_filter]
      exact ⟨fun ⟨stale, hmem, hticket⟩ => ⟨stale, hmem.1, hticket, hmem.2⟩,
        fun ⟨stale, hmem, hticket, hempty⟩ => ⟨stale, ⟨hmem, hempty⟩, hticket⟩⟩
  | close => exact tickets_ne_nil
  | change _ | fetch _ _ | use _ _ | wake => simp [wasted, Wastes]

instance (lending : Lending) (move : Move) : Decidable (lending.Wastes move) :=
  decidable_of_iff _ wasted_ne_nil

/-- The tickets that waited and the one that came back go out again, are run, are lost or wait. -/
theorem tickets_step (h : step move lending = some next) :
    (tickets lending.reader.replay ++ tickets (lending.givenBack move)).Perm
      ((tickets (lending.again move) ++ (lending.recycles move ++ lending.wasted move)) ++
        tickets next.reader.replay) := by
  cases move with
  | change change =>
      have hquiet : lending.again (.change change) = [] := by simp [again, returned]
      rcases change_cases h with
        ⟨recycled, reader, -, hcall, hchanged, rfl⟩ | ⟨-, hnothing, hsame⟩
      · simpa [givenBack, hquiet, recycles, wasted, hcall, SplitBatch.tickets] using
          Backend.tickets_changed hchanged
      · simp [givenBack, hquiet, recycles, wasted, hnothing, hsame, SplitBatch.tickets]
  | fetch store disturbed =>
      rw [← again_replay h, SplitBatch.tickets_append]
      simp [givenBack, recycles, wasted, SplitBatch.tickets]
  | use place use =>
      obtain rfl := Option.some.inj h
      simp [givenBack, again, returned, recycles, wasted, SplitBatch.tickets]
  | giveBack place =>
      obtain ⟨stale, -, hgiven, rfl⟩ := giveBack_cases h
      have hrewind : (SplitReader.rewind stale lending.reader).2.1 = [] := rfl
      rw [Backend.replay_rewind, SplitBatch.tickets_append]
      by_cases hempty : (stale.retainSplits fun id => lending.reader.admits id).isEmpty = true
      · simpa [hgiven, again, returned, recycles, hrewind, wasted, hempty, SplitBatch.tickets] using
          List.perm_append_comm
      · simp [hgiven, again, returned, recycles, hrewind, wasted, hempty, SplitBatch.tickets]
  | wake =>
      obtain rfl := Option.some.inj h
      simp [givenBack, again, returned, recycles, wasted, SplitBatch.tickets]
  | close =>
      obtain rfl := Option.some.inj h
      have hnothing : (SplitReader.close lending.reader).2.replay = [] := by
        cases lending.reader <;> rfl
      simp [givenBack, again, returned, recycles, wasted, hnothing, SplitBatch.tickets]

/-- On a whole course, too, tickets go out again, are run, are lost or wait. -/
theorem tickets_follow (h : Course.follow step moves first = some last) :
    (tickets (first.reader.replay ++ Course.gather step givenBack moves first)).Perm
      ((tickets (last.reader.replay ++ Course.gather step again moves first) ++
        Course.gather step recycles moves first) ++ Course.gather step wasted moves first) := by
  have hgather (yield : Lending → Move → List (SplitBatch Record)) :
      tickets (Course.gather step yield moves first) =
        Course.gather step (fun lending move => tickets (yield lending move)) moves first :=
    Course.gather_hom rfl SplitBatch.tickets_append moves first
  have hbalance := Course.gather_balance_perm tickets_step h
  rw [SplitBatch.tickets_append, SplitBatch.tickets_append, hgather, hgather]
  refine hbalance.trans (List.perm_append_comm.trans ?_)
  rw [List.append_assoc, List.append_assoc]
  refine .append_left _ ((Course.gather_both_perm _ _ moves first).trans ?_)
  exact .append_left _ (Course.gather_both_perm _ _ moves first)

/-- The tickets of batches that come back to a reader go out again with a later fetch, are run once
or still wait with their batches, exactly on the courses on which no batch with a ticket comes back
with nothing left in it or waits when the reader is closed. -/
theorem tickets_balance_iff (h : Course.follow step moves first = some last) :
    (tickets (first.reader.replay ++ Course.gather step givenBack moves first)).Perm
        (tickets (last.reader.replay ++ Course.gather step again moves first) ++
          Course.gather step recycles moves first) ↔
      Course.Never step Wastes moves first := by
  have hall := tickets_follow h
  have hnever : Course.gather step wasted moves first = [] ↔
      Course.Never step Wastes moves first := by
    rw [Course.gather_eq_nil_iff]
    simp only [wasted_ne_nil]
  rw [← hnever]
  constructor
  · intro hperm
    -- both ledgers have the same left side, so what is lost can only be nothing
    have hlength := (hperm.symm.trans hall).length_eq
    simp only [List.length_append] at hlength
    exact List.length_eq_zero_iff.1 (by omega)
  · intro hnothing
    rwa [hnothing, List.append_nil] at hall

/-- Two batches with tickets come back; one of them is swept away by a removal, and the other one is
fetched again. -/
def thrifty : List Move :=
  [.change (.addition [.range ⟨"a", 0, 1⟩, .range ⟨"b", 0, 1⟩]), .fetch .empty [],
    .fetch .empty [], .use 0 (.attach 1), .use 1 (.attach 2), .giveBack 0, .giveBack 0,
    .change (.removal [.range ⟨"a", 0, 1⟩]), .fetch .empty []]

/-- One ticket is run, and the other one goes out again. -/
theorem thrifty_keeps_balance :
    ∃ last, Course.follow step thrifty { reader := .ranges (.withLimits 1 0) } = some last ∧
      Course.Never step Wastes thrifty { reader := .ranges (.withLimits 1 0) } ∧
        tickets (Course.gather step again thrifty { reader := .ranges (.withLimits 1 0) }) = [2] ∧
          Course.gather step recycles thrifty { reader := .ranges (.withLimits 1 0) } = [1] := by
  obtain ⟨last, hlast⟩ : ∃ last, Course.follow step thrifty
      { reader := .ranges (.withLimits 1 0) } = some last :=
    Option.isSome_iff_exists.1 (by decide +kernel)
  have hwaits : (Course.follow step thrifty { reader := .ranges (.withLimits 1 0) }).map
      (fun last => tickets last.reader.replay) = some [] := by decide +kernel
  rw [hlast, Option.map_some, Option.some.injEq] at hwaits
  refine ⟨last, hlast, (tickets_balance_iff hlast).1 ?_, by decide +kernel, by decide +kernel⟩
  rw [SplitBatch.tickets_append last.reader.replay, hwaits]
  decide +kernel

/-- A batch in which nothing happened comes back, one whose split was removed in the meantime, and
one that waits when the reader is closed. -/
def careless : List Move :=
  [.fetch .empty [], .use 0 (.attach 1), .giveBack 0,
    .change (.addition [.range ⟨"a", 0, 1⟩]), .fetch .empty [], .use 0 (.attach 2),
    .change (.removal [.range ⟨"a", 0, 1⟩]), .giveBack 0,
    .change (.addition [.range ⟨"b", 0, 1⟩]), .fetch .empty [], .use 0 (.attach 3),
    .giveBack 0, .close]

/-- All three tickets are lost: nothing waits, nothing went out again, and nothing was run. -/
theorem careless_loses_tickets :
    tickets (Course.gather step givenBack careless { reader := .ranges (.withLimits 1 0) }) =
        [1, 2, 3] ∧
      (Course.follow step careless { reader := .ranges (.withLimits 1 0) }).map
        (fun last => tickets (last.reader.replay ++
          Course.gather step again careless { reader := .ranges (.withLimits 1 0) }) ++
            Course.gather step recycles careless { reader := .ranges (.withLimits 1 0) }) =
        some [] := by
  decide +kernel

end Lending

end SplitFeed
