/-
# What batches tell about a split

Of a single split, a batch tells its records in reading order and then, if the split ended, an
end mark.  That is the news of the split in the batch.  News are compared and put together as
lists, so that order, repetition and completeness are all said by one equation.
-/
import SplitFeed.Reader
import Mathlib.Data.List.Basic
import Mathlib.Data.List.ReduceOption

namespace SplitFeed

namespace IdSet

@[simp]
theorem contains_empty (id : String) : (∅ : IdSet).contains id = false := rfl

@[simp]
theorem contains_insert (id other : String) (ids : IdSet) :
    (ids.insert other).contains id = (id == other || ids.contains id) := by
  rw [Bool.eq_iff_iff]
  simp [contains]

@[simp]
theorem contains_filter (keep : String → Bool) (id : String) (ids : IdSet) :
    (ids.filter keep).contains id = (ids.contains id && keep id) := by
  rw [Bool.eq_iff_iff]
  simp [contains]

@[simp]
theorem contains_erase (id other : String) (ids : IdSet) :
    (ids.erase other).contains id = (ids.contains id && id != other) := by
  simp [erase]

theorem contains_of_isEmpty {ids : IdSet} (h : ids.isEmpty = true) (id : String) :
    ids.contains id = false := by
  simp only [isEmpty, List.isEmpty_iff] at h
  simp [contains, h]

/-- Inserting many ids makes a set of them and those that were there. -/
theorem contains_insertAll (id : String) (more : List String) (ids : IdSet) :
    (more.foldl (fun set other => set.insert other) ids).contains id =
      (more.contains id || ids.contains id) := by
  induction more generalizing ids with
  | nil => simp
  | cons other more ih =>
      rw [List.foldl_cons, ih, contains_insert, Bool.eq_iff_iff]
      simp
      tauto

end IdSet

namespace SplitBatch

/-- The records of one split among groups, in reading order. -/
def recordsIn (id : String) (groups : List (Group Record)) : List Record :=
  (groups.filter (·.1 == id)).flatMap (·.2)

/-- The news of a split in a batch: its records, and an end mark if the split ended. -/
def news (id : String) (batch : SplitBatch Record) : List (Option Record) :=
  (recordsIn id batch.groups).map some ++ (if batch.finished.contains id then [none] else [])

variable {id : String} {batch : SplitBatch Record}

@[simp]
theorem recordsIn_nil (id : String) : recordsIn id [] = [] := rfl

theorem recordsIn_append (id : String) (first second : List (Group Record)) :
    recordsIn id (first ++ second) = recordsIn id first ++ recordsIn id second := by
  simp [recordsIn]

theorem recordsIn_cons (id : String) (group : Group Record) (groups : List (Group Record)) :
    recordsIn id (group :: groups) =
      (if group.1 = id then group.2 else []) ++ recordsIn id groups := by
  by_cases h : group.1 = id <;> simp [recordsIn, h]

theorem recordsIn_appendGroup (id other : String) (records : List Record)
    (groups : List (Group Record)) :
    recordsIn id (appendGroup other records groups) =
      recordsIn id groups ++ (if other = id then records else []) := by
  fun_induction appendGroup other records groups with
  | case1 => simp [recordsIn_cons]
  | case2 last hsame => by_cases h : other = id <;> simp [recordsIn_cons, hsame, h]
  | case3 last hother => simp [recordsIn_cons]
  | case4 group next rest ih => rw [recordsIn_cons, ih, recordsIn_cons id group, List.append_assoc]

theorem recordsIn_filter (id : String) (keep : String → Bool) (groups : List (Group Record)) :
    recordsIn id (groups.filter (keep ·.1)) = if keep id then recordsIn id groups else [] := by
  induction groups with
  | nil => simp
  | cons group groups ih =>
      rw [List.filter_cons]
      by_cases hid : group.1 = id
      · subst hid
        split <;> simp_all [recordsIn_cons]
      · split <;> simp_all [recordsIn_cons]

@[simp]
theorem news_empty (id : String) : news id .empty = [] := rfl

/-- A batch that counts as empty tells nothing about any split. -/
theorem news_of_isEmpty (h : batch.isEmpty = true) (id : String) : batch.news id = [] := by
  simp only [isEmpty, recordCount, Bool.and_eq_true, beq_iff_eq, List.length_eq_zero_iff,
    List.flatMap_eq_nil_iff] at h
  have hrecords : recordsIn id batch.groups = [] := by
    simp only [recordsIn, List.flatMap_eq_nil_iff, List.mem_filter]
    exact fun group hgroup => h.1 group hgroup.1
  simp [news, hrecords, IdSet.contains_of_isEmpty h.2]

theorem groups_retainSplits {α : Type} (keep : String → Bool) (batch : SplitBatch α) :
    (batch.retainSplits keep).groups = batch.groups.filter (keep ·.1) := by
  rw [groups, groups, List.filter_append]
  cases hcurrent : batch.current with
  | none => simp [retainSplits, hcurrent]
  | some group =>
      by_cases hkeep : keep group.1 = true <;> simp [retainSplits, hcurrent, hkeep, Option.filter]

/-- Dropping splits from a batch leaves the news of the others as they are. -/
theorem news_retainSplits (id : String) (keep : String → Bool) (batch : SplitBatch Record) :
    (batch.retainSplits keep).news id = if keep id then batch.news id else [] := by
  have hfinished : (batch.retainSplits keep).finished = batch.finished.filter keep := rfl
  rw [news, groups_retainSplits, recordsIn_filter, hfinished, IdSet.contains_filter]
  cases keep id <;> simp [news]

/-- The news in a batch that one split's records make up. -/
theorem news_addRecords_empty (id other : String) (records : List Record) :
    ((empty : SplitBatch Record).addRecords other records).news id =
      if other = id then records.map some else [] := by
  cases records with
  | nil => simp [addRecords]
  | cons record records =>
      have hfinished : (addRecords other (record :: records) empty).finished = ∅ := rfl
      have hgroups : (addRecords other (record :: records) empty).groups =
        appendGroup other (record :: records) [] := rfl
      rw [news, hgroups, recordsIn_appendGroup, hfinished]
      by_cases h : other = id <;> simp [h]

/-- An end mark comes behind the other news of its split, unless it is there. -/
theorem news_finishSplit (id other : String) (h : batch.finished.contains other = false) :
    (batch.finishSplit other).news id =
      batch.news id ++ (if other = id then [none] else []) := by
  have hgroups : (batch.finishSplit other).groups = batch.groups := rfl
  have hfinished : (batch.finishSplit other).finished = batch.finished.insert other := rfl
  rw [news, hgroups, hfinished, IdSet.contains_insert, news]
  by_cases hsame : other = id
  · subst hsame
    simp [h]
  · have hne : (id == other) = false := by simpa using Ne.symm hsame
    simp [hne, hsame]

/-- Nobody has begun to read the batch: all of its groups are waiting. -/
def IsUnread (batch : SplitBatch Record) : Prop := batch.current = none

theorem groups_of_unread (h : batch.IsUnread) : batch.groups = batch.waiting := by
  rw [groups, h]
  rfl

/-- The records among the news of a split are those in the batch. -/
theorem reduceOption_news (id : String) (batch : SplitBatch Record) :
    (batch.news id).reduceOption = recordsIn id batch.groups := by
  rw [news, List.reduceOption_append]
  split <;> simp [List.reduceOption]

/-- A batch has one end mark of a split, or none. -/
theorem count_none_news (id : String) (batch : SplitBatch Record) :
    (batch.news id).count none = if batch.finished.contains id then 1 else 0 := by
  have hrecords : ((recordsIn id batch.groups).map some).count none = 0 :=
    List.count_eq_zero.2 (by simp)
  rw [news, List.count_append, hrecords]
  split <;> simp

/-- The end mark of a split is in a batch exactly if the split ended. -/
theorem none_mem_news : none ∈ batch.news id ↔ batch.finished.contains id = true := by
  cases h : batch.finished.contains id <;> simp [news, h]

/-- A batch in which something happened has news of some split. -/
theorem exists_news_of_not_isEmpty (h : batch.isEmpty = false) : ∃ id, batch.news id ≠ [] := by
  by_contra hnone
  simp only [not_exists, not_not, news, List.append_eq_nil_iff, List.map_eq_nil_iff] at hnone
  have hrecords : ∀ group ∈ batch.groups, group.2 = [] := by
    intro group hgroup
    have hgroups := (hnone group.1).1
    simp only [recordsIn, List.flatMap_eq_nil_iff, List.mem_filter, and_imp] at hgroups
    exact hgroups group hgroup (by simp)
  have hcount : batch.recordCount = 0 := by
    rw [recordCount, List.flatMap_eq_nil_iff.2 hrecords]
    rfl
  have hfinished : batch.finished.isEmpty = true := by
    cases hends : batch.finished.toList with
    | nil => simp [IdSet.isEmpty, hends]
    | cons id ids => simpa [IdSet.contains, hends] using (hnone id).2
  simp [isEmpty, hcount, hfinished] at h

end SplitBatch

/-! ### Entries -/

/-- The records of groups, each with the id of its split. -/
def entriesOf (groups : List (Group Record)) : List (String × Record) :=
  groups.flatMap fun group => group.2.map (group.1, ·)

theorem entriesOf_append (first second : List (Group Record)) :
    entriesOf (first ++ second) = entriesOf first ++ entriesOf second := by
  simp [entriesOf]

/-- The records of a split among groups. -/
theorem filter_entriesOf (id : String) (groups : List (Group Record)) :
    ((entriesOf groups).filter (·.1 == id)).map (·.2) = SplitBatch.recordsIn id groups := by
  induction groups with
  | nil => rfl
  | cons group groups ih =>
      rw [← List.singleton_append, entriesOf_append, List.filter_append, List.map_append, ih,
        List.singleton_append, SplitBatch.recordsIn_cons]
      congr 1
      by_cases hid : group.1 = id <;> simp [entriesOf, List.filter_map, Function.comp_def, hid]

/-! ### Stories -/

/-- News that end as a split's news do: some records and the end mark behind them, or nothing. -/
def IsStory (news : List (Option Record)) : Prop :=
  news = [] ∨ ∃ records : List Record, news = records.map some ++ [none]

namespace IsStory

variable {first second : List (Option Record)}

theorem tail {entry : Option Record} {news : List (Option Record)} (h : IsStory (entry :: news)) :
    IsStory news := by
  obtain hnil | ⟨records, heq⟩ := h
  · cases hnil
  · cases records with
    | nil => exact .inl (List.cons.inj heq).2
    | cons record records => exact .inr ⟨records, (List.cons.inj heq).2⟩

/-- What is left of a story is one. -/
theorem of_append (h : IsStory (first ++ second)) : IsStory second := by
  induction first with
  | nil => exact h
  | cons entry first ih => exact ih h.tail

theorem none_mem {news : List (Option Record)} (h : IsStory news) (hne : news ≠ []) :
    none ∈ news := by
  obtain hnil | ⟨records, rfl⟩ := h
  · exact absurd hnil hne
  · simp

/-- Nothing comes behind the end mark. -/
theorem eq_nil_of_none_mem (h : IsStory (first ++ second)) (hend : none ∈ first) :
    second = [] := by
  induction first with
  | nil => cases hend
  | cons entry first ih =>
      cases entry with
      | some record => exact ih h.tail (by simpa using hend)
      | none =>
          obtain hnil | ⟨records, heq⟩ := h
          · cases hnil
          · cases records with
            | nil => exact (List.append_eq_nil_iff.1 (List.cons.inj heq).2).2
            | cons record records => cases (List.cons.inj heq).1

end IsStory

end SplitFeed
