/-
# Batches in every reading position

A batch is filled, read and filtered in any order.  Records come only to waiting groups and leave
only the group under the cursor, so whatever was done, no waiting group is without records.  The one
group that may be is the one under the cursor, once all of its records were taken; the batch keeps
it, and lists its id, until the cursor moves on or the group is filtered out.
-/
import SplitFeed.Batch
import Mathlib.Data.List.Induction

namespace SplitFeed

/-! ### Tests that may change their minds -/

/-- The members of a list that pass a test, which is told how often it was asked before. -/
def sift {β : Type} (keep : Nat → β → Bool) : Nat → List β → List β
  | _, [] => []
  | asked, item :: items =>
    if keep asked item then item :: sift keep (asked + 1) items else sift keep (asked + 1) items

section Sifting

variable {β : Type}

theorem sift_sublist (keep : Nat → β → Bool) (asked : Nat) (items : List β) :
    (sift keep asked items).Sublist items := by
  induction items generalizing asked with
  | nil => exact .slnil
  | cons item items ih =>
      rw [sift]
      split
      · exact (ih (asked + 1)).cons_cons item
      · exact (ih (asked + 1)).cons item

/-- A test that does not care how often it was asked makes a filter. -/
theorem sift_eq_filter (keep : β → Bool) (asked : Nat) (items : List β) :
    sift (fun _ => keep) asked items = items.filter keep := by
  induction items generalizing asked with
  | nil => rfl
  | cons item items ih => rw [sift, ih, List.filter_cons]

end Sifting

/-- The members of a set that pass a test, which is told how often it was asked before. -/
def IdSet.sift (keep : Nat → String → Bool) (asked : Nat) (ids : IdSet) : IdSet :=
  ⟨SplitFeed.sift keep asked ids.toList, ids.ascending.sublist (sift_sublist ..)⟩

namespace SplitBatch

variable {α : Type} {batch : SplitBatch α} {id : String}

/-- Keeps the groups and ended splits whose id passes a test that may answer otherwise each time.
It is asked about the ids in `consulted`, in that order. -/
def siftSplits (keep : Nat → String → Bool) (batch : SplitBatch α) : SplitBatch α :=
  let before := batch.waiting.length
  { batch with
    waiting := sift (fun asked group => keep asked group.1) 0 batch.waiting
    current := batch.current.filter (keep before ·.1)
    finished := batch.finished.sift keep (before + batch.current.toList.length) }

/-- A test that always answers the same sifts as it retains. -/
theorem siftSplits_eq_retainSplits (keep : String → Bool) (batch : SplitBatch α) :
    batch.siftSplits (fun _ => keep) = batch.retainSplits keep := by
  have hfinished (asked : Nat) :
      batch.finished.sift (fun _ => keep) asked = batch.finished.filter keep := by
    simp only [IdSet.sift, IdSet.filter, sift_eq_filter]
  simp only [siftSplits, retainSplits, hfinished, sift_eq_filter]

/-! ### What is done with a batch -/

/-- What can be done with a batch. -/
inductive Move (α : Type) where
  | addRecord (id : String) (record : α)
  | addRecords (id : String) (records : List α)
  | finishSplit (id : String)
  | nextSplit
  | nextRecord
  /-- The batch is filtered by a test that may answer otherwise each time. -/
  | siftSplits (keep : Nat → String → Bool)

/-- What becomes of the batch. -/
def Move.apply : Move α → SplitBatch α → SplitBatch α
  | addRecord id record, batch => batch.addRecord id record
  | addRecords id records, batch => batch.addRecords id records
  | finishSplit id, batch => batch.finishSplit id
  | nextSplit, batch => batch.nextSplit.2
  | nextRecord, batch => batch.nextRecord.2
  | siftSplits keep, batch => batch.siftSplits keep

/-- A batch that was empty, after moves. -/
def after (moves : List (Move α)) : SplitBatch α :=
  moves.foldl (fun batch move => move.apply batch) empty

theorem after_concat (moves : List (Move α)) (move : Move α) :
    after (moves ++ [move]) = move.apply (after moves) := by
  rw [after, List.foldl_append]
  rfl

/-- There are records in every waiting group. -/
def IsStocked (batch : SplitBatch α) : Prop := ∀ group ∈ batch.waiting, group.2 ≠ []

/-- Groups to which records are added stay, or become, groups with records. -/
theorem ne_nil_of_mem_appendGroup {records : List α} {groups : List (Group α)}
    (hrecords : records ≠ []) (hgroups : ∀ group ∈ groups, group.2 ≠ []) :
    ∀ group ∈ appendGroup id records groups, group.2 ≠ [] := by
  fun_induction appendGroup id records groups with
  | case1 => simpa using hrecords
  | case2 last hsame => simp [hrecords]
  | case3 last hother => simp_all
  | case4 group next rest ih =>
      obtain ⟨hfirst, hrest⟩ := List.forall_mem_cons.1 hgroups
      exact List.forall_mem_cons.2 ⟨hfirst, ih hrest⟩

theorem stocked_apply (h : batch.IsStocked) (move : Move α) : (move.apply batch).IsStocked := by
  cases move with
  | addRecord id record => exact ne_nil_of_mem_appendGroup (List.cons_ne_nil _ _) h
  | addRecords id records =>
      cases records with
      | nil => exact h
      | cons record records => exact ne_nil_of_mem_appendGroup (List.cons_ne_nil _ _) h
  | finishSplit id => exact h
  | nextSplit =>
      simp only [Move.apply, nextSplit]
      split
      · exact h
      · next group rest hwaiting => exact fun other hmem => h other (hwaiting ▸ .tail _ hmem)
  | nextRecord =>
      simp only [Move.apply, nextRecord]
      split <;> exact h
  | siftSplits keep => exact fun group hmem => h group ((sift_sublist ..).subset hmem)

/-- Whatever is done with a batch, no waiting group is ever without records. -/
theorem stocked_after (moves : List (Move α)) : (after moves).IsStocked := by
  induction moves using List.reverseRecOn with
  | nil => exact fun _ hmem => (List.not_mem_nil hmem).elim
  | append_singleton moves move ih =>
      rw [after_concat]
      exact stocked_apply ih move

/-! ### Which splits are listed -/

/-- The ids of the groups that have a record left, in reading order. -/
def unreadIds (batch : SplitBatch α) : List String :=
  (batch.groups.filter (!·.2.isEmpty)).map (·.1)

/-- All records of the group under the cursor were taken. -/
def IsReadOut (batch : SplitBatch α) : Prop := ∃ id, batch.current = some (id, [])

/-- Beside the groups with records, the batch lists the one under the cursor. -/
theorem splitIds_of_stocked (h : batch.IsStocked) :
    batch.splitIds = (batch.current.toList.filter (·.2.isEmpty)).map (·.1) ++ batch.unreadIds := by
  have hwaiting : batch.waiting.filter (!·.2.isEmpty) = batch.waiting :=
    List.filter_eq_self.2 fun group hmem => by simpa using h group hmem
  rw [splitIds, unreadIds, groups, List.filter_append, hwaiting]
  rcases batch.current with _ | ⟨id, _ | ⟨record, rest⟩⟩ <;> simp

/-- There is a record left exactly if some group has one. -/
theorem unreadIds_eq_nil : batch.unreadIds = [] ↔ batch.recordCount = 0 := by
  rw [unreadIds, recordCount, List.map_eq_nil_iff, List.filter_eq_nil_iff, List.length_eq_zero_iff,
    List.flatMap_eq_nil_iff]
  simp

/-- The list of splits is right exactly as long as the group under the cursor, if there is one, has
a record left: then the ids are those of the groups with records, in reading order, and there are
none exactly if there are no records.  Once all records under the cursor were taken, that group is
still listed, before all that are rightly there.  So it is for a batch after whatever was done with
it. -/
theorem splitIds_right_iff (moves : List (Move α)) :
    let batch := after moves
    (batch.splitIds = batch.unreadIds ∧ (batch.splitIds = [] ↔ batch.recordCount = 0) ↔
      ¬ batch.IsReadOut) ∧
    ∀ id, batch.current = some (id, []) → batch.splitIds = id :: batch.unreadIds := by
  intro batch
  have hlisted : batch.splitIds =
      (batch.current.toList.filter (·.2.isEmpty)).map (·.1) ++ batch.unreadIds :=
    splitIds_of_stocked (stocked_after moves)
  have hextra (id : String) (hcurrent : batch.current = some (id, [])) :
      batch.splitIds = id :: batch.unreadIds := by
    rw [hlisted, hcurrent]
    rfl
  refine ⟨⟨?_, fun hleft => ?_⟩, hextra⟩
  · rintro ⟨hright, -⟩ ⟨id, hcurrent⟩
    exact List.cons_ne_self id _ ((hextra id hcurrent).symm.trans hright)
  · have hright : batch.splitIds = batch.unreadIds := by
      rw [hlisted]
      rcases hcurrent : batch.current with _ | ⟨id, _ | ⟨record, rest⟩⟩
      · rfl
      · exact absurd ⟨id, hcurrent⟩ hleft
      · rfl
    exact ⟨hright, hright ▸ unreadIds_eq_nil⟩

/-- One record is added and read. -/
def spentMoves : List (Move Nat) := [.addRecord "a" 1, .nextSplit, .nextRecord]

/-- Its split is listed although no record is left. -/
theorem spent_split_listed :
    ¬ ((after spentMoves).splitIds = (after spentMoves).unreadIds ∧
      ((after spentMoves).splitIds = [] ↔ (after spentMoves).recordCount = 0)) := by
  decide

end SplitBatch

end SplitFeed
