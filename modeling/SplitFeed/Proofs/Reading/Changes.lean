/-
# Changes that a reader takes note of

A reader of one sort refuses splits of the other sort, with everything that was to be changed along
with them.  A change whose splits are all of the reader's sort suits it and is taken note of:
`Changed` lists what becomes of the docket then.
-/
import SplitFeed.Backend

namespace SplitFeed

namespace SplitsChange

/-- Whether a change adds a split. -/
def adds (id : String) : SplitsChange Split → Bool
  | addition splits => splits.any (·.id == id)
  | removal _ => false

/-- Whether a change removes a split. -/
def removes (id : String) : SplitsChange Split → Bool
  | addition _ => false
  | removal splits => splits.any (·.id == id)

theorem tryMap_ok {τ : Type} {convert : Split → Except Failure τ} {change : SplitsChange Split}
    {converted : List τ} (h : change.splits.mapM convert = .ok converted) :
    change.tryMap convert = .ok (change.withSplits converted) := by
  rw [tryMap, h]
  rfl

end SplitsChange

namespace Docket

variable {κ : Type} [HasSplitId κ] {cursor : κ} {cursors : List κ} {docket : Docket κ}

/-- What is on a docket was there or was put there. -/
theorem mem_cursors_enter {new : κ} (h : cursor ∈ (docket.enter new).cursors) :
    cursor ∈ docket.cursors ∨ cursor = new := by
  simp only [enter] at h
  split at h
  · exact .inl h
  · simpa using h

theorem mem_cursors_gain (h : cursor ∈ (docket.gain cursors).cursors) :
    cursor ∈ docket.cursors ∨ cursor ∈ cursors := by
  induction cursors generalizing docket with
  | nil => exact .inl h
  | cons new cursors ih =>
      rcases ih h with hentered | hmem
      · rcases mem_cursors_enter hentered with hold | rfl
        · exact .inl hold
        · exact .inr List.mem_cons_self
      · exact .inr (List.mem_cons_of_mem _ hmem)

end Docket

/-- The sort of reader that a split is for. -/
def Split.sort : Split → ReaderSort
  | range _ => .ranges
  | file _ => .files

namespace Backend

/-- The sort of a reader. -/
def sort : Backend → ReaderSort
  | ranges _ => .ranges
  | files _ => .files

/-- Whether all splits of a change are for a reader's sort. -/
def Suits (sort : ReaderSort) (change : SplitsChange Split) : Prop :=
  ∀ split ∈ change.splits, split.sort = sort

theorem mapM_wantRange {splits : List Split} (h : ∀ split ∈ splits, split.sort = .ranges) :
    ∃ ranges, splits.mapM wantRange = .ok ranges ∧ splits = ranges.map .range := by
  induction splits with
  | nil => exact ⟨[], rfl, rfl⟩
  | cons split splits ih =>
      obtain ⟨ranges, hranges, rfl⟩ :=
        ih fun other hother => h other (List.mem_cons_of_mem _ hother)
      cases split with
      | range range =>
          refine ⟨range :: ranges, ?_, rfl⟩
          rw [List.mapM_cons, hranges]
          rfl
      | file file => cases h (.file file) List.mem_cons_self

theorem mapM_wantFile {splits : List Split} (h : ∀ split ∈ splits, split.sort = .files) :
    ∃ files, splits.mapM wantFile = .ok files ∧ splits = files.map .file := by
  induction splits with
  | nil => exact ⟨[], rfl, rfl⟩
  | cons split splits ih =>
      obtain ⟨files, hfiles, rfl⟩ := ih fun other hother => h other (List.mem_cons_of_mem _ hother)
      cases split with
      | file file =>
          refine ⟨file :: files, ?_, rfl⟩
          rw [List.mapM_cons, hfiles]
          rfl
      | range range => cases h (.range range) List.mem_cons_self

/-- What a change that suits a reader makes of its docket. -/
inductive Changed : SplitsChange Split → Backend → List Nat → Backend → Prop
  | gainRanges (splits : List RangeSplit) (reader : RangeReader) :
      Changed (.addition (splits.map .range)) (.ranges reader) []
        (.ranges { reader with
          docket := reader.docket.gain (splits.map fun split => { split, next := split.start }) })
  | loseRanges (splits : List RangeSplit) (reader : RangeReader) :
      Changed (.removal (splits.map .range)) (.ranges reader)
        (reader.docket.lose (splits.map (·.id))).1
        (.ranges { reader with docket := (reader.docket.lose (splits.map (·.id))).2 })
  | gainFiles (splits : List FileSplit) (reader : FileReader) :
      Changed (.addition (splits.map .file)) (.files reader) []
        (.files { reader with docket := reader.docket.gain (splits.map fun split => { split }) })
  | loseFiles (splits : List FileSplit) (reader : FileReader) :
      Changed (.removal (splits.map .file)) (.files reader)
        (reader.docket.lose (splits.map (·.id))).1
        (.files { reader with docket := (reader.docket.lose (splits.map (·.id))).2 })

/-- A change that suits a reader is taken note of. -/
theorem change_of_suits {change : SplitsChange Split} {backend : Backend}
    (h : Suits backend.sort change) :
    ∃ recycled next, SplitReader.change change backend = (.returned (), recycled, next) ∧
      Changed change backend recycled next := by
  cases backend with
  | ranges reader =>
      obtain ⟨ranges, hranges, hsplits⟩ := mapM_wantRange h
      have htry := SplitsChange.tryMap_ok hranges
      cases change with
      | addition splits =>
          obtain rfl : splits = ranges.map .range := hsplits
          refine ⟨_, _, ?_, .gainRanges ranges reader⟩
          simp only [SplitReader.change, Backend.change, htry]
          rfl
      | removal splits =>
          obtain rfl : splits = ranges.map .range := hsplits
          refine ⟨_, _, ?_, .loseRanges ranges reader⟩
          simp only [SplitReader.change, Backend.change, htry]
          rfl
  | files reader =>
      obtain ⟨files, hfiles, hsplits⟩ := mapM_wantFile h
      have htry := SplitsChange.tryMap_ok hfiles
      cases change with
      | addition splits =>
          obtain rfl : splits = files.map .file := hsplits
          refine ⟨_, _, ?_, .gainFiles files reader⟩
          simp only [SplitReader.change, Backend.change, htry]
          rfl
      | removal splits =>
          obtain rfl : splits = files.map .file := hsplits
          refine ⟨_, _, ?_, .loseFiles files reader⟩
          simp only [SplitReader.change, Backend.change, htry]
          rfl

theorem changed_of_returned {change : SplitsChange Split} {backend next : Backend}
    {recycled : List Nat} (hsuits : Suits backend.sort change)
    (h : SplitReader.change change backend = (.returned (), recycled, next)) :
    Changed change backend recycled next := by
  obtain ⟨recycled', next', hcall, hchanged⟩ := change_of_suits hsuits
  obtain ⟨rfl, rfl⟩ : _ ∧ _ := by simpa [hcall] using h
  exact hchanged

variable {change : SplitsChange Split} {backend next : Backend} {recycled : List Nat}

theorem sort_changed (h : Changed change backend recycled next) : next.sort = backend.sort := by
  cases h <;> rfl

theorem sort_fetch {store : FileStore} {disturbed : List Bool}
    {result : Called (SplitBatch Record)}
    (h : SplitReader.fetch store disturbed backend = (result, next)) :
    next.sort = backend.sort := by
  cases backend <;> cases h <;> rfl

theorem sort_rewind {stale : SplitBatch Record} {result : Called Unit}
    (h : SplitReader.rewind stale backend = (result, recycled, next)) :
    next.sort = backend.sort := by
  cases h
  cases backend <;> rfl

theorem sort_close {result : Called Unit} (h : SplitReader.close backend = (result, next)) :
    next.sort = backend.sort := by
  cases h
  cases backend <;> rfl

@[simp]
theorem sort_wake (backend : Backend) : (SplitReader.wake backend).sort = backend.sort := by
  cases backend <;> rfl

end Backend

end SplitFeed
