/-
# Walking a batch and taking it apart

There are two ways to get at what is left of a batch: to walk it, record by record and from group to
group, or to take it apart.  A walk sees nothing of the batch but what the cursor answers, so each
of its two loops is described by what it yields and what it leaves behind; both descriptions hold in
every reading position, and together they say that the two ways agree.

What is in the groups of a batch that was only filled so far is a matter of its own: they are the
runs of records that were added one after the other under the same id.
-/
import SplitFeed.Proofs.Batch.Positions
import Mathlib.Data.List.SplitBy

namespace SplitFeed

theorem IdSet.isEmpty_iff {ids : IdSet} : ids.isEmpty = true ↔ ids = ∅ := by
  rw [isEmpty, List.isEmpty_iff]
  constructor
  · intro hnil
    cases ids
    cases hnil
    rfl
  · rintro rfl
    rfl

namespace SplitBatch

variable {α : Type} {batch next : SplitBatch α} {id : String} {record : α} {records : List α}

/-! ### The two loops of a walk -/

theorem nextRecord_cons (h : batch.current = some (id, record :: records)) :
    batch.nextRecord = (some record, { batch with current := some (id, records) }) := by
  rw [nextRecord, h]

/-- Without records under the cursor, none is taken. -/
theorem nextRecord_nil (h : batch.current.elim [] (·.2) = []) :
    batch.nextRecord = (none, batch) := by
  unfold nextRecord
  split
  · next hcurrent => simp [hcurrent] at h
  · rfl

/-- A record that was taken is left no longer. -/
theorem recordCount_nextRecord_lt (h : batch.nextRecord = (some record, next)) :
    next.recordCount < batch.recordCount := by
  unfold nextRecord at h
  split at h
  · next hcurrent =>
      obtain ⟨-, rfl⟩ := Prod.mk.inj h
      simp [recordCount, groups, hcurrent]
  · cases h

/-- Takes records until none is left under the cursor. -/
def readOut (batch : SplitBatch α) : List α × SplitBatch α :=
  match _hnext : batch.nextRecord with
  | (none, last) => ([], last)
  | (some record, next) => (record :: next.readOut.1, next.readOut.2)
termination_by batch.recordCount
decreasing_by all_goals exact recordCount_nextRecord_lt _hnext

/-- All records under the cursor are read, and the cursor stays. -/
theorem readOut_eq (batch : SplitBatch α) :
    batch.readOut = (batch.current.elim [] (·.2),
      { batch with current := batch.current.map fun group => (group.1, []) }) := by
  obtain ⟨waiting, current, finished, ticket⟩ := batch
  rcases current with _ | ⟨id, records⟩
  · rw [readOut, nextRecord_nil rfl]
    rfl
  · induction records with
    | nil =>
        rw [readOut, nextRecord_nil rfl]
        rfl
    | cons record records ih =>
        rw [readOut, nextRecord_cons rfl]
        simp only [ih]
        rfl

theorem waiting_readOut (batch : SplitBatch α) : batch.readOut.2.waiting = batch.waiting := by
  rw [readOut_eq]

theorem waiting_nextSplit (h : batch.nextSplit = (some id, next)) :
    next.waiting.length < batch.waiting.length := by
  unfold nextSplit at h
  split at h
  · cases h
  · next hwaiting =>
      obtain ⟨-, rfl⟩ := Prod.mk.inj h
      simp [hwaiting]

/-- Moves from group to group until there is none left, and reads each out. -/
def walk (batch : SplitBatch α) : List (Group α) × SplitBatch α :=
  match _hnext : batch.nextSplit with
  | (none, last) => ([], last)
  | (some id, next) =>
    ((id, next.readOut.1) :: next.readOut.2.walk.1, next.readOut.2.walk.2)
termination_by batch.waiting.length
decreasing_by
  all_goals
    rw [waiting_readOut]
    exact waiting_nextSplit _hnext

/-- Exactly the waiting groups are walked, and nothing is left. -/
theorem walk_eq (batch : SplitBatch α) :
    batch.walk = (batch.waiting, { batch with waiting := [], current := none }) := by
  obtain ⟨waiting, current, finished, ticket⟩ := batch
  induction waiting generalizing current with
  | nil => rw [walk]; rfl
  | cons group waiting ih =>
      rw [walk]
      simp only [nextSplit, readOut_eq, ih]
      rfl

/-- Reads the group under the cursor to its end, and then walks the others. -/
def readThrough (batch : SplitBatch α) : List (Group α) × SplitBatch α :=
  let rest := batch.current.toList.map fun group => (group.1, batch.readOut.1)
  (rest ++ batch.readOut.2.walk.1, batch.readOut.2.walk.2)

theorem readThrough_eq (batch : SplitBatch α) :
    batch.readThrough = (batch.groups, { batch with waiting := [], current := none }) := by
  simp only [readThrough, walk_eq, readOut_eq, groups]
  cases batch.current <;> rfl

/-! ### The id under the cursor -/

/-- Only a move to another group brings a group under the cursor; other moves may take records of
it, or filter it out. -/
theorem current_apply {move : Move α} {group : Group α}
    (h : (move.apply batch).current = some group) (hmove : move ≠ .nextSplit) :
    ∃ records, batch.current = some (group.1, records) := by
  cases move with
  | nextSplit => exact absurd rfl hmove
  | addRecord id record => exact ⟨group.2, h⟩
  | addRecords id records => cases records <;> exact ⟨group.2, h⟩
  | finishSplit id => exact ⟨group.2, h⟩
  | nextRecord =>
      simp only [Move.apply, nextRecord] at h
      split at h
      · next id record records hcurrent =>
          obtain rfl := Option.some.inj h
          exact ⟨record :: records, hcurrent⟩
      · exact ⟨group.2, h⟩
  | siftSplits keep => exact ⟨group.2, (Option.filter_eq_some_iff.1 h).1⟩

/-- The id under the cursor is the one that the last move to another group answered. -/
theorem answered_of_current (moves : List (Move α)) {group : Group α}
    (h : (after moves).current = some group) :
    ∃ earlier later, moves = earlier ++ .nextSplit :: later ∧ (∀ move ∈ later, move ≠ .nextSplit) ∧
      (after earlier).nextSplit.1 = some group.1 := by
  induction moves using List.reverseRecOn generalizing group with
  | nil => cases h
  | append_singleton moves move ih =>
      rw [after_concat] at h
      by_cases hmove : move = .nextSplit
      · subst hmove
        refine ⟨moves, [], rfl, nofun, ?_⟩
        simp only [Move.apply, nextSplit] at h ⊢
        split at h
        · cases h
        · exact congrArg (Option.map Prod.fst) h
      · obtain ⟨records, hcurrent⟩ := current_apply h hmove
        obtain ⟨earlier, later, rfl, hlater, hanswer⟩ := ih hcurrent
        refine ⟨earlier, later ++ [move], by simp, ?_, hanswer⟩
        simpa [or_imp, forall_and] using ⟨hlater, hmove⟩

/-! ### Batches that were only filled -/

/-- The records of a group, each with the id that it came under. -/
def labelled (group : Group α) : List (String × α) := group.2.map (group.1, ·)

/-- The records that a move adds, each with the id that it comes under. -/
def Move.added : Move α → List (String × α)
  | addRecord id record => [(id, record)]
  | addRecords id records => records.map (id, ·)
  | finishSplit _ | nextSplit | nextRecord | siftSplits _ => []

/-- Whether a move does no more than to fill the batch. -/
def Move.fills : Move α → Bool
  | addRecord .. | addRecords .. | finishSplit _ => true
  | nextSplit | nextRecord | siftSplits _ => false

/-- The groups hold what was added, in order, and none of them could be joined with the next. -/
structure AreRuns (added : List (String × α)) (groups : List (Group α)) : Prop where
  all : groups.flatMap labelled = added
  nonempty : ∀ group ∈ groups, group.2 ≠ []
  parted : groups.IsChain (·.1 ≠ ·.1)

/-- The first group remains the first, perhaps with more records. -/
theorem head?_appendGroup (id : String) (records : List α) (group : Group α)
    (groups : List (Group α)) :
    ∃ more, (appendGroup id records (group :: groups)).head? = some (group.1, group.2 ++ more) := by
  cases groups with
  | nil =>
      unfold appendGroup
      split
      · exact ⟨records, rfl⟩
      · exact ⟨[], by simp⟩
  | cons next rest => exact ⟨[], by simp [appendGroup]⟩

theorem flatMap_appendGroup (id : String) (records : List α) (groups : List (Group α)) :
    (appendGroup id records groups).flatMap labelled =
      groups.flatMap labelled ++ records.map (id, ·) := by
  fun_induction appendGroup id records groups with
  | case1 => simp [labelled]
  | case2 last hsame => simp [labelled, hsame]
  | case3 last hother => simp [labelled]
  | case4 group next rest ih =>
      rw [List.flatMap_cons, ih, List.flatMap_cons (x := group), List.append_assoc]

/-- Records that are added under an id join the last run, or make a new one. -/
theorem areRuns_appendGroup {added : List (String × α)} {groups : List (Group α)}
    (h : AreRuns added groups) (hrecords : records ≠ []) :
    AreRuns (added ++ records.map (id, ·)) (appendGroup id records groups) where
  all := by rw [flatMap_appendGroup, h.all]
  nonempty := ne_nil_of_mem_appendGroup hrecords h.nonempty
  parted := by
    have hparted := h.parted
    clear h
    fun_induction appendGroup id records groups with
    | case1 => exact List.isChain_singleton _
    | case2 last hsame => exact List.isChain_singleton _
    | case3 last hother => exact List.isChain_pair.2 hother
    | case4 group next rest ih =>
        obtain ⟨hfirst, hrest⟩ := List.isChain_cons.1 hparted
        refine List.isChain_cons.2 ⟨fun other hother => ?_, ih hrest⟩
        obtain ⟨more, hhead⟩ := head?_appendGroup id records next rest
        obtain rfl := Option.some.inj (hhead.symm.trans hother)
        exact hfirst next rfl

/-- Such groups are the maximal runs of records with one id. -/
theorem splitBy_of_areRuns {added : List (String × α)} {groups : List (Group α)}
    (h : AreRuns added groups) :
    added.splitBy (fun first second => first.1 == second.1) = groups.map labelled := by
  rw [← h.all, List.flatMap_def]
  refine List.splitBy_flatten (fun hmem => ?_) (fun run hrun => ?_) ?_
  · obtain ⟨group, hgroup, hnil⟩ := List.mem_map.1 hmem
    exact h.nonempty group hgroup (List.map_eq_nil_iff.1 hnil)
  · obtain ⟨group, -, rfl⟩ := List.mem_map.1 hrun
    refine (List.isChain_map _).2 (List.Pairwise.isChain (List.pairwise_of_forall ?_))
    simp
  · refine (List.isChain_map _).2 (h.parted.imp_of_mem_imp fun group next hgroup hnext hne => ?_)
    have hfirst : labelled group ≠ [] := by simpa [labelled] using h.nonempty group hgroup
    have hsecond : labelled next ≠ [] := by simpa [labelled] using h.nonempty next hnext
    refine ⟨hfirst, hsecond, ?_⟩
    simpa [labelled] using hne

/-- A batch that was only filled is unread, and its groups are runs of what was added. -/
theorem areRuns_after {moves : List (Move α)} (hfills : ∀ move ∈ moves, move.fills = true) :
    AreRuns (moves.flatMap Move.added) (after moves).groups := by
  suffices hunread : (after moves).current = none ∧
      AreRuns (moves.flatMap Move.added) (after moves).waiting by
    rw [groups, hunread.1]
    exact hunread.2
  induction moves using List.reverseRecOn with
  | nil => exact ⟨rfl, rfl, List.forall_mem_nil _, .nil⟩
  | append_singleton moves move ih =>
      obtain ⟨hfirst, hlast⟩ := List.forall_mem_append.1 hfills
      obtain ⟨hcurrent, hruns⟩ := ih hfirst
      rw [after_concat, List.flatMap_append, List.flatMap_singleton]
      cases move with
      | addRecord id record =>
          exact ⟨hcurrent, areRuns_appendGroup hruns (List.cons_ne_nil record [])⟩
      | addRecords id records =>
          cases records with
          | nil => simpa [Move.added, Move.apply, addRecords] using ⟨hcurrent, hruns⟩
          | cons record records =>
              exact ⟨hcurrent, areRuns_appendGroup hruns (List.cons_ne_nil record records)⟩
      | finishSplit id => simpa [Move.added, Move.apply, finishSplit] using ⟨hcurrent, hruns⟩
      | nextSplit | nextRecord | siftSplits _ => cases hlast _ List.mem_cons_self

/-- Walking a batch and taking it apart agree, whatever was done with the batch before.  Its groups
are those that reading the group under the cursor to its end and walking the others yields, record
by record and under the same ids; the first of them, if the cursor is on a group, is the one that
the last move to a group answered.  The ended splits are those that a reader sees all along, and a
walk leaves nothing.  As many records are counted as are read, and the batch counts as empty exactly
if there are none and no split ended; only the group under the cursor can be without records.  And
if the batch was only filled so far, its groups are the maximal runs of records that were added one
after the other under the same id. -/
theorem parts_are_read (moves : List (Move α)) :
    let batch := after moves
    let parts := batch.intoParts
    let read := batch.readThrough.1
    parts.groups = read ∧
    (∀ group ∈ batch.current, ∃ earlier later, moves = earlier ++ .nextSplit :: later ∧
      (∀ move ∈ later, move ≠ .nextSplit) ∧ (after earlier).nextSplit.1 = some group.1) ∧
    parts.finished = batch.finished ∧ batch.readThrough.2.finished = parts.finished ∧
    batch.readThrough.2.nextSplit.1 = none ∧ batch.readThrough.2.nextRecord.1 = none ∧
    batch.recordCount = (read.flatMap (·.2)).length ∧
    (batch.isEmpty = true ↔ read.flatMap (·.2) = [] ∧ parts.finished = ∅) ∧
    (∀ group ∈ batch.readOut.2.walk.1, group.2 ≠ []) ∧
    ((∀ move ∈ moves, move.fills = true) → parts.groups.map labelled =
      (moves.flatMap Move.added).splitBy fun first second => first.1 == second.1) := by
  intro batch parts read
  have hread : batch.readThrough = (batch.groups, { batch with waiting := [], current := none }) :=
    readThrough_eq batch
  have hgroups : parts.groups = read := (congrArg Prod.fst hread).symm
  refine ⟨hgroups, fun group hgroup => answered_of_current moves hgroup, rfl, ?_, ?_, ?_, ?_, ?_,
    ?_, fun hfills => ?_⟩
  · rw [hread]
    rfl
  · rw [hread]
    rfl
  · rw [hread]
    rfl
  · rw [← hgroups]
    rfl
  · rw [← hgroups, isEmpty, Bool.and_eq_true, IdSet.isEmpty_iff, beq_iff_eq, recordCount,
      List.length_eq_zero_iff]
    rfl
  · rw [walk_eq, waiting_readOut]
    exact stocked_after moves
  · exact (splitBy_of_areRuns (areRuns_after hfills)).symm

end SplitBatch

end SplitFeed
