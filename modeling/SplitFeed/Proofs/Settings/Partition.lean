/-
# Ranges that partition the numbers

A source of generated numbers is cut into ranges of one length.  Each bound is a product of its own,
and so is the number of records that the run is told to expect.  The last bound is the largest of
them and equals that number, so either all of them fit or that bound does not; and where they fit,
the numbers of the ranges, one range after the other, are all numbers below the last bound.

A list of ranges takes memory, which is not counted here.
-/
import SplitFeed.Settings.Basic
import Mathlib.Algebra.Ring.Nat
import Mathlib.Data.List.Nodup
import Mathlib.Data.List.Range

namespace SplitFeed

/-- The numbers of a range, in ascending order. -/
def RangeSplit.span (range : RangeSplit) : List Nat :=
  List.range' range.start (range.stop - range.start)

theorem RangeSplit.mem_span {range : RangeSplit} {n : Nat} :
    n ∈ range.span ↔ range.start ≤ n ∧ n < range.stop := by
  rw [span, List.mem_range'_1]
  omega

namespace RangeSource

variable {source : RangeSource} {ranges : List RangeSplit}

/-- The range with a given index, if its bounds fit. -/
def piece (source : RangeSource) (index : Nat) : RangeSplit :=
  ⟨"range-" ++ toString index, index * source.recordsPerSplit,
    (index + 1) * source.recordsPerSplit⟩

/-- The ranges in ascending order, if all bounds fit. -/
def pieces (source : RangeSource) : List RangeSplit :=
  (List.range source.splits).map source.piece

/-! ### Which bounds fit -/

/-- The lower bound of a range fits if the upper bound does. -/
theorem rangeAt_eq (source : RangeSource) (index : Nat) :
    source.rangeAt index =
      if (index + 1) * source.recordsPerSplit < Word.size then .ok (source.piece index)
      else .error .product := by
  have hle : index * source.recordsPerSplit ≤ (index + 1) * source.recordsPerSplit :=
    Nat.mul_le_mul_right _ (Nat.le_succ index)
  unfold rangeAt Word.mul
  by_cases hstop : (index + 1) * source.recordsPerSplit < Word.size
  · rw [if_pos (Nat.lt_of_le_of_lt hle hstop), if_pos hstop, if_pos hstop]
    rfl
  · rw [if_neg hstop, if_neg hstop]
    split <;> rfl

/-- The first ranges fit exactly if the upper bound of the last of them does. -/
theorem mapM_rangeAt (source : RangeSource) (count : Nat) :
    (List.range count).mapM source.rangeAt =
      if count * source.recordsPerSplit < Word.size then
        .ok ((List.range count).map source.piece)
      else .error .product := by
  induction count with
  | zero =>
      rw [Nat.zero_mul, if_pos (by decide)]
      rfl
  | succ count ih =>
      have hle : count * source.recordsPerSplit ≤ (count + 1) * source.recordsPerSplit :=
        Nat.mul_le_mul_right _ (Nat.le_succ count)
      rw [List.range_succ, List.mapM_append, ih, List.mapM_cons, List.mapM_nil, rangeAt_eq]
      by_cases hlast : (count + 1) * source.recordsPerSplit < Word.size
      · rw [if_pos (Nat.lt_of_le_of_lt hle hlast), if_pos hlast, if_pos hlast, List.map_append]
        rfl
      · rw [if_neg hlast, if_neg hlast]
        split <;> rfl

theorem ranges_eq (source : RangeSource) :
    source.ranges =
      if source.splits * source.recordsPerSplit < Word.size then .ok source.pieces
      else .error .product :=
  mapM_rangeAt source source.splits

/-! ### What the ranges hold -/

/-- The ranges hold all numbers below the last bound, in ascending order and each once. -/
theorem flatMap_span (source : RangeSource) :
    source.pieces.flatMap RangeSplit.span =
      List.range (source.splits * source.recordsPerSplit) := by
  have hall (count : Nat) : ((List.range count).map source.piece).flatMap RangeSplit.span =
      List.range (count * source.recordsPerSplit) := by
    induction count with
    | zero => simp
    | succ count ih =>
        have hsize : (count + 1) * source.recordsPerSplit - count * source.recordsPerSplit =
            source.recordsPerSplit := by
          rw [Nat.succ_mul, Nat.add_sub_cancel_left]
        rw [List.range_succ, List.map_append, List.flatMap_append, ih, List.range_eq_range',
          List.range_eq_range', Nat.succ_mul, ← List.range'_append_1, Nat.zero_add]
        simp [RangeSplit.span, piece, hsize]
  exact hall source.splits

/-- Some ranges partition the numbers of a source: there is one for each index, named after it; they
are equally long, each begins where the one before it ends, no two have a number in common, and
together they hold exactly the numbers from zero up to the product of their number and length. -/
structure IsPartition (source : RangeSource) (ranges : List RangeSplit) : Prop where
  count : ranges.length = source.splits
  named : ranges.map (·.id) = (List.range source.splits).map fun index => "range-" ++ toString index
  distinct : (ranges.map (·.id)).Nodup
  sized : ∀ range ∈ ranges, range.stop = range.start + source.recordsPerSplit
  first : ∀ range ∈ ranges.head?, range.start = 0
  contiguous : ranges.IsChain (·.stop = ·.start)
  disjoint : ranges.Pairwise fun range other => range.span.Disjoint other.span
  covering : ∀ n, (∃ range ∈ ranges, range.start ≤ n ∧ n < range.stop) ↔
    n < source.splits * source.recordsPerSplit

theorem isPartition_pieces (source : RangeSource) : source.IsPartition source.pieces where
  count := by simp [pieces]
  named := by simp [pieces, piece]
  distinct := by
    rw [pieces, List.map_map]
    refine List.nodup_range.map fun index other hsame => ?_
    have hdigits : Nat.toDigits 10 index = Nat.toDigits 10 other := by
      rw [← Nat.toList_repr, ← Nat.toList_repr]
      exact congrArg String.toList ((String.append_right_inj "range-").1 hsame)
    rw [← Nat.ofDigitChars_toDigits (n := index) (by decide) (Nat.le_refl 10), hdigits,
      Nat.ofDigitChars_toDigits (by decide) (Nat.le_refl 10)]
  sized range hrange := by
    obtain ⟨index, -, rfl⟩ := List.mem_map.1 hrange
    exact Nat.succ_mul ..
  first range hrange := by
    cases hsplits : source.splits with
    | zero => simp [pieces, hsplits] at hrange
    | succ count =>
        obtain rfl : source.piece 0 = range := by
          simpa [pieces, hsplits, List.range_succ_eq_map] using hrange
        exact Nat.zero_mul _
  contiguous := (List.isChain_map _).2 ((List.isChain_range _ _).2 fun _ _ => rfl)
  disjoint := by
    have honce : (source.pieces.flatMap RangeSplit.span).Nodup :=
      source.flatMap_span ▸ List.nodup_range
    exact (List.nodup_flatMap.1 honce).2
  covering n := by
    rw [← List.mem_range, ← flatMap_span, List.mem_flatMap]
    simp only [RangeSplit.mem_span]

/-- All ranges together have as many records as there are numbers below the last bound. -/
theorem sum_sizes (source : RangeSource) :
    (source.pieces.map fun range => range.stop - range.start).sum =
      source.splits * source.recordsPerSplit := by
  have hlength := congrArg List.length source.flatMap_span
  simpa [List.length_flatMap, RangeSplit.span] using hlength

/-- The ranges of a source are refused exactly if there is one and the product of their number and
length does not fit into 64 bits; the memory that a list of them takes is not counted.  Otherwise
they are there, they partition the numbers below that product, and the number of records that a run
is told to expect is there as well: it is that product, and the number of records in all ranges
together. -/
theorem ranges_partition (source : RangeSource) :
    let settings := SourceSettings.ranges source
    let total := source.splits * source.recordsPerSplit
    let refused := 0 < source.splits ∧ Word.size ≤ total
    (source.ranges = .error .product ↔ refused) ∧ (settings.splits = .error .product ↔ refused) ∧
    (¬ refused → ∃ ranges, source.ranges = .ok ranges ∧ settings.splits = .ok (ranges.map .range) ∧
      source.IsPartition ranges ∧ source.expected = .ok total ∧
      (settings.describe).map (·.2) = .ok total ∧
      (ranges.map fun range => range.stop - range.start).sum = total) := by
  intro settings total refused
  have hrefused : refused ↔ ¬ total < Word.size := by
    refine ⟨fun h => Nat.not_lt.2 h.2, fun h => ⟨Nat.pos_of_ne_zero fun hnone => h ?_,
      Nat.not_lt.1 h⟩⟩
    simp only [total, hnone, Nat.zero_mul]
    decide
  have hranges : source.ranges = if total < Word.size then .ok source.pieces else .error .product :=
    ranges_eq source
  have hsplits : settings.splits =
      if total < Word.size then .ok (source.pieces.map .range) else .error .product := by
    simp only [settings, SourceSettings.splits, hranges]
    split <;> rfl
  have hexpected : source.expected = if total < Word.size then .ok total else .error .product := rfl
  rw [hranges, hsplits, hrefused, not_not]
  refine ⟨by split <;> simp_all, by split <;> simp_all, fun hfits => ?_⟩
  rw [if_pos hfits] at hexpected
  refine ⟨source.pieces, if_pos hfits, if_pos hfits, isPartition_pieces source, hexpected, ?_,
    sum_sizes source⟩
  simp only [settings, SourceSettings.describe, hexpected]
  rfl

end RangeSource

end SplitFeed
