/-
# Changes of mixed splits bounce off as a whole

A backend converts all splits of a change to its reader's sort before the reader hears of any.  The
conversion goes from front to back and ends at the first split that does not fit, so what carries
the module is one description of it: its result, and what the converter was asked meanwhile.

The converter is watched through one that answers the same and notes what it is asked.
-/
import SplitFeed.Proofs.Reading.Changes

namespace SplitFeed

namespace SplitsChange

variable {σ τ ε : Type} {convert : σ → Except ε τ} {splits before after : List σ} {wrong : σ}

/-- A converter that notes what it is asked. -/
def noting (convert : σ → Except ε τ) (split : σ) : ExceptT ε (StateM (List σ)) τ :=
  ExceptT.mk fun asked => (convert split, asked ++ [split])

/-- The splits up to the first one that a converter refuses, and that one. -/
def upToRefused (convert : σ → Except ε τ) : List σ → List σ
  | [] => []
  | split :: splits =>
    split :: match convert split with
      | .ok _ => upToRefused convert splits
      | .error _ => []

/-- What is noted goes on where the first part of a computation ended, unless that failed. -/
theorem run_bind {ν α β : Type} (first : ExceptT ε (StateM ν) α)
    (later : α → ExceptT ε (StateM ν) β) (noted : ν) :
    (first >>= later).run noted =
      match first.run noted with
      | (.ok result, noted) => (later result).run noted
      | (.error cause, noted) => (.error cause, noted) := by
  simp only [bind, ExceptT.bind, ExceptT.bindCont, ExceptT.run, ExceptT.mk, StateT.bind]
  rcases first noted with ⟨_ | _, _⟩ <;> rfl

/-- Noting what is asked changes no answer, and nothing is asked beyond the first refusal. -/
theorem mapM_noting (convert : σ → Except ε τ) (splits asked : List σ) :
    (splits.mapM (noting convert)).run asked =
      (splits.mapM convert, asked ++ upToRefused convert splits) := by
  induction splits generalizing asked with
  | nil => rw [upToRefused, List.append_nil]; rfl
  | cons split splits ih =>
      have hfirst : (noting convert split).run asked = (convert split, asked ++ [split]) := rfl
      rw [List.mapM_cons, List.mapM_cons, upToRefused, run_bind, hfirst]
      cases convert split with
      | error cause => rfl
      | ok converted =>
          simp only [run_bind, ih, List.append_assoc, List.singleton_append]
          cases splits.mapM convert <;> rfl

/-- A change is converted as if nobody watched. -/
theorem tryMap_noting (convert : σ → Except ε τ) (change : SplitsChange σ) :
    (change.tryMap (noting convert)).run [] =
      (change.tryMap convert, upToRefused convert change.splits) := by
  rw [tryMap, tryMap, run_bind, mapM_noting]
  cases change.splits.mapM convert <;> rfl

/-- A converter that refuses nothing is asked about everything. -/
theorem upToRefused_of_forall (h : ∀ split ∈ splits, ∃ converted, convert split = .ok converted) :
    upToRefused convert splits = splits := by
  induction splits with
  | nil => rfl
  | cons split splits ih =>
      obtain ⟨⟨converted, hfirst⟩, hrest⟩ := List.forall_mem_cons.1 h
      rw [upToRefused, hfirst, ih hrest]

/-- Otherwise the first split that is refused is the last one it is asked about. -/
theorem upToRefused_of_refused {cause : ε}
    (hbefore : ∀ split ∈ before, ∃ converted, convert split = .ok converted)
    (hwrong : convert wrong = .error cause) :
    upToRefused convert (before ++ wrong :: after) = before ++ [wrong] := by
  induction before with
  | nil => rw [List.nil_append, upToRefused, hwrong, List.nil_append]
  | cons split before ih =>
      obtain ⟨⟨converted, hfirst⟩, hrest⟩ := List.forall_mem_cons.1 hbefore
      rw [List.cons_append, upToRefused, hfirst, ih hrest, List.cons_append]

/-- The conversion fails for the cause for which that split is refused. -/
theorem mapM_of_refused {cause : ε}
    (hbefore : ∀ split ∈ before, ∃ converted, convert split = .ok converted)
    (hwrong : convert wrong = .error cause) :
    (before ++ wrong :: after).mapM convert = .error cause := by
  induction before with
  | nil =>
      rw [List.nil_append, List.mapM_cons, hwrong]
      rfl
  | cons split before ih =>
      obtain ⟨⟨converted, hfirst⟩, hrest⟩ := List.forall_mem_cons.1 hbefore
      rw [List.cons_append, List.mapM_cons, hfirst, ih hrest]
      rfl

/-- A change of which a split is refused is not converted. -/
theorem tryMap_of_refused {cause : ε} {change : SplitsChange σ}
    (hsplits : change.splits = before ++ wrong :: after)
    (hbefore : ∀ split ∈ before, ∃ converted, convert split = .ok converted)
    (hwrong : convert wrong = .error cause) :
    change.tryMap convert = .error cause := by
  rw [tryMap, hsplits, mapM_of_refused hbefore hwrong]
  rfl

end SplitsChange

namespace Backend

variable {change : SplitsChange Split} {backend : Backend} {split : Split}

/-- What the converter of a backend is asked while a change is converted. -/
def asked (change : SplitsChange Split) : Backend → List Split
  | ranges _ => ((change.tryMap (SplitsChange.noting wantRange)).run []).2
  | files _ => ((change.tryMap (SplitsChange.noting wantFile)).run []).2

/-- The reader itself takes note of the same kind of change, with the same splits in the same
order. -/
inductive HandsOn (change : SplitsChange Split) : Backend → List Nat → Backend → Prop
  | ranges (splits : List RangeSplit) (reader : RangeReader)
      (hsplits : change.splits = splits.map .range) :
      HandsOn change (.ranges reader) (reader.change (change.withSplits splits)).1
        (.ranges (reader.change (change.withSplits splits)).2)
  | files (splits : List FileSplit) (reader : FileReader)
      (hsplits : change.splits = splits.map .file) :
      HandsOn change (.files reader) (reader.change (change.withSplits splits)).1
        (.files (reader.change (change.withSplits splits)).2)

theorem wantRange_of_sort (h : split.sort = .ranges) : ∃ range, wantRange split = .ok range := by
  cases split with
  | range range => exact ⟨range, rfl⟩
  | file _ => cases h

theorem wantFile_of_sort (h : split.sort = .files) : ∃ file, wantFile split = .ok file := by
  cases split with
  | range _ => cases h
  | file file => exact ⟨file, rfl⟩

theorem wantRange_of_ne (h : split.sort ≠ .ranges) :
    wantRange split = .error (.wrongSort .ranges split) := by
  cases split with
  | range _ => exact absurd rfl h
  | file _ => rfl

theorem wantFile_of_ne (h : split.sort ≠ .files) :
    wantFile split = .error (.wrongSort .files split) := by
  cases split with
  | range _ => rfl
  | file _ => exact absurd rfl h

/-- A change whose splits are all of the reader's sort is converted to the end and handed on. -/
theorem handsOn_of_suits (h : Suits backend.sort change) :
    asked change backend = change.splits ∧ ∃ recycled next,
      SplitReader.change change backend = (.returned (), recycled, next) ∧
        HandsOn change backend recycled next := by
  cases backend with
  | ranges reader =>
      obtain ⟨ranges, hranges, hsplits⟩ := mapM_wantRange h
      have htry := SplitsChange.tryMap_ok hranges
      refine ⟨?_, _, _, ?_, .ranges ranges reader hsplits⟩
      · rw [asked, SplitsChange.tryMap_noting]
        exact SplitsChange.upToRefused_of_forall fun split hmem => wantRange_of_sort (h split hmem)
      · simp only [SplitReader.change, Backend.change, htry]
  | files reader =>
      obtain ⟨files, hfiles, hsplits⟩ := mapM_wantFile h
      have htry := SplitsChange.tryMap_ok hfiles
      refine ⟨?_, _, _, ?_, .files files reader hsplits⟩
      · rw [asked, SplitsChange.tryMap_noting]
        exact SplitsChange.upToRefused_of_forall fun split hmem => wantFile_of_sort (h split hmem)
      · simp only [SplitReader.change, Backend.change, htry]

/-- A change with a split of the other sort is converted up to the first of them, and
goes unheard. -/
theorem bounces_of_wrong {before after : List Split} {wrong : Split}
    (hsplits : change.splits = before ++ wrong :: after)
    (hbefore : ∀ split ∈ before, split.sort = backend.sort) (hwrong : wrong.sort ≠ backend.sort) :
    asked change backend = before ++ [wrong] ∧
      SplitReader.change change backend =
        (.failed (.wrongSort backend.sort wrong), [], backend) := by
  cases backend with
  | ranges reader =>
      have hfits := fun split hmem => wantRange_of_sort (hbefore split hmem)
      have hrefused := wantRange_of_ne hwrong
      have htry := SplitsChange.tryMap_of_refused hsplits hfits hrefused
      constructor
      · rw [asked, SplitsChange.tryMap_noting, hsplits]
        exact SplitsChange.upToRefused_of_refused hfits hrefused
      · simp only [SplitReader.change, Backend.change, htry, sort]
  | files reader =>
      have hfits := fun split hmem => wantFile_of_sort (hbefore split hmem)
      have hrefused := wantFile_of_ne hwrong
      have htry := SplitsChange.tryMap_of_refused hsplits hfits hrefused
      constructor
      · rw [asked, SplitsChange.tryMap_noting, hsplits]
        exact SplitsChange.upToRefused_of_refused hfits hrefused
      · simp only [SplitReader.change, Backend.change, htry, sort]

/-- A change that does not suit a reader has a first split of the other sort. -/
theorem exists_first_wrong {sort : ReaderSort} (h : ¬ Suits sort change) :
    ∃ before wrong after, change.splits = before ++ wrong :: after ∧
      (∀ split ∈ before, split.sort = sort) ∧ wrong.sort ≠ sort := by
  cases hfound : change.splits.find? (·.sort != sort) with
  | none =>
      refine absurd (fun split hmem => ?_) h
      simpa using List.find?_eq_none.1 hfound split hmem
  | some wrong =>
      obtain ⟨hwrong, before, after, hsplits, hbefore⟩ :=
        List.find?_eq_some_iff_append.1 hfound
      exact ⟨before, wrong, after, hsplits, by simpa using hbefore, by simpa using hwrong⟩

/-- A split of the wrong sort is named at the end of the complaint. -/
theorem message_wrongSort (sort : ReaderSort) (wrong : Split) :
    ∃ opening, (Failure.wrongSort sort wrong).message = opening ++ wrong.describe := by
  cases sort <;> exact ⟨_, rfl⟩

/-- A change is heard as a whole or not at all, by either sort of reader and in whatever state it
is.  If all splits are of the reader's sort, each is converted, and the reader takes note of the
same kind of change with the same splits in the same order.  Otherwise the converter is asked about
the splits up to the first one of the other sort and about no more, the call fails and names that
split, and the reader stays as it was, with all that it holds. -/
theorem change_all_or_nothing (change : SplitsChange Split) (backend : Backend) :
    (Suits backend.sort change →
      asked change backend = change.splits ∧ ∃ recycled next,
        SplitReader.change change backend = (.returned (), recycled, next) ∧
          HandsOn change backend recycled next) ∧
    (¬ Suits backend.sort change → ∃ before wrong after,
      change.splits = before ++ wrong :: after ∧
      (∀ split ∈ before, split.sort = backend.sort) ∧ wrong.sort ≠ backend.sort ∧
      asked change backend = before ++ [wrong] ∧
      SplitReader.change change backend =
        (.failed (.wrongSort backend.sort wrong), [], backend) ∧
      ∃ opening, (Failure.wrongSort backend.sort wrong).message = opening ++ wrong.describe) := by
  refine ⟨handsOn_of_suits, fun h => ?_⟩
  obtain ⟨before, wrong, after, hsplits, hbefore, hwrong⟩ := exists_first_wrong h
  obtain ⟨hasked, hcall⟩ := bounces_of_wrong hsplits hbefore hwrong
  exact ⟨before, wrong, after, hsplits, hbefore, hwrong, hasked, hcall, message_wrongSort _ wrong⟩

/-- Two of three splits are asked about. -/
example : asked (.removal [.range ⟨"a", 0, 1⟩, .file ⟨"b", "b"⟩, .range ⟨"c", 1, 2⟩])
    (.ranges (.withLimits 1 0)) = [.range ⟨"a", 0, 1⟩, .file ⟨"b", "b"⟩] := rfl

end Backend

end SplitFeed
