/-
# Filtering a batch

A filter goes over three parts of a batch that are kept apart: the groups that wait, the group under
the cursor, and the ended splits.  For whoever takes the batch apart it is one filter of what comes
out, in every reading position.  So filters of batches behave as filters of lists do: the same one
twice is the same as once, two may change places, and two are one that asks for both.

What becomes of the cursor concerns only those who go on reading.  A group under the cursor that is
filtered out is gone as a whole, and none takes its place before the cursor is moved on.
-/
import SplitFeed.Proofs.Batch.Walking
import SplitFeed.Proofs.News

namespace SplitFeed

theorem IdSet.filter_filter (keep other : String → Bool) (ids : IdSet) :
    (ids.filter keep).filter other = ids.filter fun id => keep id && other id := by
  simp only [IdSet.filter, IdSet.mk.injEq, List.filter_filter]
  exact List.filter_congr fun id _ => Bool.and_comm ..

namespace SplitBatch

variable {α : Type} {batch : SplitBatch α} {group : Group α} {move : Move α}
  {moves : List (Move α)} {keep other : String → Bool}

/-! ### The parts of a filtered batch -/

/-- The parts without the groups and ended splits whose id fails a test. -/
def Parts.retain (keep : String → Bool) (parts : Parts α) : Parts α :=
  { parts with
    groups := parts.groups.filter (keep ·.1)
    finished := parts.finished.filter keep }

theorem intoParts_retainSplits (keep : String → Bool) (batch : SplitBatch α) :
    (batch.retainSplits keep).intoParts = batch.intoParts.retain keep := by
  rw [intoParts, groups_retainSplits]
  rfl

/-- Two filters are one that asks for both. -/
theorem retainSplits_retainSplits (keep other : String → Bool) (batch : SplitBatch α) :
    (batch.retainSplits keep).retainSplits other =
      batch.retainSplits fun id => keep id && other id := by
  simp only [retainSplits, List.filter_filter, Option.filter_filter, IdSet.filter_filter,
    Bool.and_comm (keep _)]

theorem recordCount_retainSplits_le (keep : String → Bool) (batch : SplitBatch α) :
    (batch.retainSplits keep).recordCount ≤ batch.recordCount := by
  rw [recordCount, recordCount, groups_retainSplits]
  exact (List.filter_sublist.flatMap _).length_le

/-! ### Going on after a filter -/

/-- The batch after one move after the other. -/
def Move.applyAll (moves : List (Move α)) (batch : SplitBatch α) : SplitBatch α :=
  moves.foldl (fun batch move => move.apply batch) batch

/-- Whether a move filters out no group of a split. -/
def Move.Spares (id : String) : Move α → Prop
  | siftSplits keep => ∀ asked, keep asked id = true
  | addRecord .. | addRecords .. | finishSplit _ | nextSplit | nextRecord => True

/-- The cursor moves to a group next, which may have got more records. -/
def IsNext (group : Group α) (batch : SplitBatch α) : Prop :=
  ∃ more, batch.waiting.head? = some (group.1, group.2 ++ more)

theorem isNext_of_head? (h : batch.waiting.head? = some group) : batch.IsNext group :=
  ⟨[], by rw [h, List.append_nil]⟩

theorem nextSplit_of_isNext (h : batch.IsNext group) :
    batch.nextSplit.1 = some group.1 ∧
      ∃ more, batch.nextSplit.2.current = some (group.1, group.2 ++ more) := by
  obtain ⟨more, hhead⟩ := h
  obtain ⟨rest, hwaiting⟩ := List.head?_eq_some_iff.1 hhead
  rw [nextSplit, hwaiting]
  exact ⟨rfl, more, rfl⟩

/-- Records that come to the groups that wait leave the first of them the first. -/
theorem isNext_appendGroup {next : SplitBatch α} {id : String} {records : List α}
    (h : batch.IsNext group) (hwaiting : next.waiting = appendGroup id records batch.waiting) :
    next.IsNext group := by
  obtain ⟨more, hhead⟩ := h
  obtain ⟨rest, hfirst⟩ := List.head?_eq_some_iff.1 hhead
  rw [hfirst] at hwaiting
  obtain ⟨added, hadded⟩ := head?_appendGroup id records (group.1, group.2 ++ more) rest
  exact ⟨more ++ added, by rw [hwaiting, hadded, List.append_assoc]⟩

/-- Only a move of the cursor or a filter takes a group away from the front. -/
theorem isNext_apply (h : batch.IsNext group) (hmove : move ≠ .nextSplit)
    (hspares : move.Spares group.1) : (move.apply batch).IsNext group := by
  cases move with
  | nextSplit => exact absurd rfl hmove
  | addRecord id record => exact isNext_appendGroup h rfl
  | addRecords id records =>
      cases records with
      | nil => exact h
      | cons record records => exact isNext_appendGroup h rfl
  | finishSplit id => exact h
  | nextRecord =>
      simp only [Move.apply, nextRecord]
      split <;> exact h
  | siftSplits keep =>
      obtain ⟨more, hhead⟩ := h
      obtain ⟨rest, hwaiting⟩ := List.head?_eq_some_iff.1 hhead
      refine ⟨more, ?_⟩
      simp only [Move.apply, siftSplits, hwaiting, sift, hspares 0, if_true, List.head?_cons]

theorem isNext_applyAll (h : batch.IsNext group) (hmoves : ∀ move ∈ moves, move ≠ .nextSplit)
    (hspares : ∀ move ∈ moves, move.Spares group.1) : (Move.applyAll moves batch).IsNext group := by
  induction moves generalizing batch with
  | nil => exact h
  | cons move moves ih =>
      obtain ⟨hmove, hmoves⟩ := List.forall_mem_cons.1 hmoves
      obtain ⟨hspare, hspares⟩ := List.forall_mem_cons.1 hspares
      exact ih (isNext_apply h hmove hspare) hmoves hspares

/-- No group comes under the cursor unless the cursor is moved. -/
theorem current_applyAll (h : batch.current = none) (hmoves : ∀ move ∈ moves, move ≠ .nextSplit) :
    (Move.applyAll moves batch).current = none := by
  induction moves generalizing batch with
  | nil => exact h
  | cons move moves ih =>
      obtain ⟨hmove, hmoves⟩ := List.forall_mem_cons.1 hmoves
      refine ih (Option.eq_none_iff_forall_ne_some.2 fun group hcurrent => ?_) hmoves
      obtain ⟨records, hbefore⟩ := current_apply hcurrent hmove
      cases h.symm.trans hbefore

/-- Without a group under the cursor no record is taken. -/
theorem nextRecord_of_current (h : batch.current = none) : batch.nextRecord = (none, batch) :=
  nextRecord_nil (by rw [h]; rfl)

/-- A filter of a batch is a filter of its parts, in every reading position: whoever takes the
filtered batch apart gets the groups and the ended splits that pass the test, in the order and with
the records that they had.  The same filter twice is the same as once, two filters may change places
and are one that asks for both, and none adds records.  The cursor moves next to the first group
that waited and passes.  If the group under the cursor does not pass, no record is taken until then,
whatever else is done with the batch, and the cursor still moves next to that group unless another
filter takes it away; records may have come to it. -/
theorem filtered_by_parts (keep other : String → Bool) (batch : SplitBatch α) :
    let filtered := batch.retainSplits keep
    filtered.intoParts = batch.intoParts.retain keep ∧
    filtered.retainSplits keep = filtered ∧
    filtered.retainSplits other = (batch.retainSplits other).retainSplits keep ∧
    filtered.retainSplits other = batch.retainSplits (fun id => keep id && other id) ∧
    filtered.recordCount ≤ batch.recordCount ∧
    filtered.nextSplit.1 = (batch.waiting.find? (keep ·.1)).map (·.1) ∧
    filtered.nextSplit.2.current = batch.waiting.find? (keep ·.1) ∧
    ∀ group ∈ batch.current, keep group.1 = false → ∀ moves : List (Move α),
      (∀ move ∈ moves, move ≠ .nextSplit) →
        let later := Move.applyAll moves filtered
        later.nextRecord = (none, later) ∧
        ∀ first ∈ batch.waiting.find? (keep ·.1), (∀ move ∈ moves, move.Spares first.1) →
          later.nextSplit.1 = some first.1 ∧
            ∃ more, later.nextSplit.2.current = some (first.1, first.2 ++ more) := by
  intro filtered
  have hfirst : filtered.waiting.head? = batch.waiting.find? (keep ·.1) := List.head?_filter
  have hnext : filtered.nextSplit.1 = filtered.waiting.head?.map (·.1) ∧
      filtered.nextSplit.2.current = filtered.waiting.head? := by
    unfold nextSplit
    split <;> next hwaiting => rw [hwaiting]; exact ⟨rfl, rfl⟩
  refine ⟨intoParts_retainSplits keep batch, ?_, ?_, retainSplits_retainSplits keep other batch,
    recordCount_retainSplits_le keep batch, hfirst ▸ hnext.1, hfirst ▸ hnext.2, ?_⟩
  · simp only [filtered, retainSplits_retainSplits, Bool.and_self]
  · simp only [filtered, retainSplits_retainSplits, Bool.and_comm (keep _)]
  · intro group hgroup hfails moves hmoves later
    have hnone : filtered.current = none := by
      have hcurrent : batch.current = some group := hgroup
      simp [filtered, retainSplits, hcurrent, Option.filter, hfails]
    refine ⟨nextRecord_of_current (current_applyAll hnone hmoves), fun first hmem hspares => ?_⟩
    exact nextSplit_of_isNext
      (isNext_applyAll (isNext_of_head? (hfirst.trans hmem)) hmoves hspares)

/-- One of two records of a split was read, and those of another split wait. -/
def halfRead : SplitBatch Nat :=
  after [.addRecord "a" 1, .addRecord "a" 2, .addRecord "b" 3, .nextSplit, .nextRecord]

/-- The group is filtered out under the reader, who finds no record, also when more come to the
other group, and goes on with that. -/
theorem half_read_group_dropped :
    let later := Move.applyAll [.addRecord "b" 4] (halfRead.retainSplits (· == "b"))
    halfRead.current = some ("a", [2]) ∧ later.nextRecord = (none, later) ∧
      later.nextSplit.1 = some "b" := by
  obtain ⟨-, -, -, -, -, -, -, hdropped⟩ := filtered_by_parts (· == "b") (· == "a") halfRead
  obtain ⟨hrecord, hnext⟩ := hdropped ("a", [2]) rfl rfl [.addRecord "b" 4] (by simp)
  exact ⟨rfl, hrecord, (hnext ("b", [3]) rfl (by simp [Move.Spares])).1⟩

end SplitBatch

end SplitFeed
