/-
# What a reader still has to tell

The outlook of a reader on a split are the news of that split which fetches have still to bring:
first those in batches that came back, then those of the cursors.  A fetch that returns moves news
from the front of the outlook into its batch, for every split at once, and loses and repeats none.

The news of a whole split are its records and its end mark.  What a file holds is read off its
text, so the outlook on a file that was just taken on is that of its text.
-/
import SplitFeed.Backend
import SplitFeed.Proofs.News
import SplitFeed.Proofs.Reading.Lines

namespace SplitFeed

namespace Split

/-- The records of a split, in order: the numbers of a range, the lines of a file. -/
def records (store : FileStore) : Split → List Record
  | range split =>
    (List.range' split.start (split.stop - split.start)).map (RangeReader.recordOf split.id)
  | file split => LineSource.recordsOf 0 ((store.text? split.path).getD [])

/-- All news of a split: its records and its end mark. -/
def news (store : FileStore) (split : Split) : List (Option Record) :=
  (split.records store).map some ++ [none]

/-- Whether a split can be read to its end: a range whose end is a number that fits, or a file
that has a text. -/
def IsReadable (store : FileStore) : Split → Prop
  | range split => split.stop < Word.size
  | file split => (store.text? split.path).isSome

instance (store : FileStore) (split : Split) : Decidable (split.IsReadable store) :=
  match split with
  | range split => inferInstanceAs (Decidable (split.stop < Word.size))
  | file split => inferInstanceAs (Decidable ((store.text? split.path).isSome = true))

/-- All news of the splits with a given id, one split after the other. -/
def due (store : FileStore) (id : String) (splits : List Split) : List (Option Record) :=
  (splits.filter (·.id == id)).flatMap (·.news store)

section Due

variable {store : FileStore} {id : String} {splits : List Split}

theorem isStory_news (store : FileStore) (split : Split) : IsStory (split.news store) :=
  .inr ⟨_, rfl⟩

theorem news_ne_nil (store : FileStore) (split : Split) : split.news store ≠ [] := by
  simp [news]

@[simp]
theorem due_nil (store : FileStore) (id : String) : due store id [] = [] := rfl

@[simp]
theorem due_append (store : FileStore) (id : String) (first second : List Split) :
    due store id (first ++ second) = due store id first ++ due store id second := by
  simp [due]

theorem due_cons (store : FileStore) (id : String) (split : Split) (splits : List Split) :
    due store id (split :: splits) = due store id [split] ++ due store id splits := by
  rw [← due_append, List.singleton_append]

/-- There is nothing due of an id exactly if no split has it. -/
theorem due_eq_nil : due store id splits = [] ↔ ∀ split ∈ splits, split.id ≠ id := by
  simp [due, news_ne_nil]

/-- An end mark is due of an id exactly if a split has it. -/
theorem none_mem_due : none ∈ due store id splits ↔ ∃ split ∈ splits, split.id = id := by
  simp [due, news]

/-- Of a split whose id no other split has, its own news are due. -/
theorem due_eq_news {split : Split} (honce : (splits.map Split.id).Nodup) (hmem : split ∈ splits) :
    due store split.id splits = split.news store := by
  induction splits with
  | nil => cases hmem
  | cons other splits ih =>
      rw [List.map_cons, List.nodup_cons] at honce
      rw [due_cons]
      rcases List.mem_cons.1 hmem with rfl | hrest
      · have hnone : due store split.id splits = [] :=
          due_eq_nil.2 fun later hlater hid => honce.1 (List.mem_map.2 ⟨later, hlater, hid⟩)
        rw [hnone]
        simp [due]
      · have hother : due store split.id [other] = [] :=
          due_eq_nil.2 fun later hlater hid => honce.1 (by
            rw [List.mem_singleton.1 hlater] at hid
            exact List.mem_map.2 ⟨split, hrest, hid.symm⟩)
        rw [hother, ih honce.2 hrest, List.nil_append]

/-- What is due of splits with different ids is a story. -/
theorem isStory_due (store : FileStore) (id : String) (honce : (splits.map Split.id).Nodup) :
    IsStory (due store id splits) := by
  by_cases h : ∃ split ∈ splits, split.id = id
  · obtain ⟨split, hmem, rfl⟩ := h
    rw [due_eq_news honce hmem]
    exact isStory_news store split
  · exact .inl (due_eq_nil.2 fun split hmem hid => h ⟨split, hmem, hid⟩)

/-- The order of splits with different ids does not matter. -/
theorem due_perm {others : List Split} (honce : (splits.map Split.id).Nodup)
    (hperm : splits.Perm others) : due store id others = due store id splits := by
  by_cases h : ∃ split ∈ splits, split.id = id
  · obtain ⟨split, hmem, rfl⟩ := h
    rw [due_eq_news honce hmem,
      due_eq_news ((hperm.map Split.id).nodup honce) (hperm.subset hmem)]
  · rw [due_eq_nil.2 fun split hmem hid => h ⟨split, hmem, hid⟩,
      due_eq_nil.2 fun split hmem hid => h ⟨split, hperm.symm.subset hmem, hid⟩]

end Due

end Split

namespace SplitBatch

@[simp]
theorem finished_addRecords (id : String) (records : List Record) (batch : SplitBatch Record) :
    (batch.addRecords id records).finished = batch.finished := by
  cases records <;> rfl

/-- The news that a fetch of one split's records brings. -/
theorem news_fetched (id other : String) (records : List Record) (ended : Bool) :
    (if ended then ((empty : SplitBatch Record).addRecords other records).finishSplit other
      else (empty : SplitBatch Record).addRecords other records).news id =
      if other = id then records.map some ++ (if ended then [none] else []) else [] := by
  cases ended with
  | false => simp [news_addRecords_empty]
  | true =>
      rw [if_pos rfl, news_finishSplit _ _ (by simp [empty]), news_addRecords_empty]
      split <;> simp

end SplitBatch

namespace Docket

variable {κ : Type} [HasSplitId κ]

/-- The news of a split that are still to come from a docket, when `tale` are those of a
cursor. -/
def outlook (tale : κ → List (Option Record)) (id : String) (docket : Docket κ) :
    List (Option Record) :=
  docket.replay.flatMap (·.news id) ++
    (docket.cursors.filter (splitId · == id)).flatMap tale

variable {tale : κ → List (Option Record)} {id : String} {docket : Docket κ}

/-- Handing out a batch that came back takes its news off the outlook. -/
theorem outlook_replay {stale : SplitBatch Record} {replay : List (SplitBatch Record)}
    (h : docket.replay = stale :: replay) :
    stale.news id ++ outlook tale id { docket with replay } = outlook tale id docket := by
  simp [outlook, h]

/-- Reading from the first cursor takes news off its tale. -/
theorem outlook_cursor {cursor : κ} (left : Option κ) {others : List κ}
    {batch : SplitBatch Record} {flag : WakeFlag} (hreplay : docket.replay = [])
    (hcursors : docket.cursors = cursor :: others)
    (hsame : ∀ rest ∈ left, splitId rest = splitId cursor)
    (hread : batch.news id ++ (if splitId cursor = id then left.toList.flatMap tale else []) =
      if splitId cursor = id then tale cursor else []) :
    batch.news id ++ outlook tale id { docket with flag, cursors := left.toList ++ others } =
      outlook tale id docket := by
  have hfilter : (left.toList.filter (splitId · == id)).flatMap tale =
      if splitId cursor = id then left.toList.flatMap tale else [] := by
    cases left with
    | none => simp
    | some rest =>
        have hrest := hsame rest rfl
        by_cases hid : splitId cursor = id <;> simp [hrest, hid]
  simp only [outlook, hreplay, hcursors, List.flatMap_nil, List.nil_append, List.filter_append,
    List.flatMap_append, hfilter, ← List.append_assoc, hread]
  by_cases hid : splitId cursor = id <;> simp [hid]

end Docket

/-! ### Reading ranges -/

namespace RangeCursor

/-- The news of a range that its cursor has still to read. -/
def tale (cursor : RangeCursor) : List (Option Record) :=
  ((List.range' cursor.next (cursor.split.stop - cursor.next)).map
    (RangeReader.recordOf cursor.split.id)).map some ++ [none]

end RangeCursor

namespace RangeReader

/-- Where a piece ends: not in front of its start, and at the end of the range at the latest. -/
theorem pieceEnd_spec (maxRecords : Nat) (cursor : RangeCursor)
    (hfits : cursor.split.stop < Word.size) :
    pieceEnd maxRecords cursor ≤ cursor.split.stop ∧
      (pieceEnd maxRecords cursor < cursor.split.stop →
        cursor.next ≤ pieceEnd maxRecords cursor) := by
  simp only [pieceEnd, Word.addUpTo, Word.greatest]
  omega

/-- The records of the next piece of a range. -/
def pieceRecords (maxRecords : Nat) (cursor : RangeCursor) : List Record :=
  (List.range' cursor.next (pieceEnd maxRecords cursor - cursor.next)).map
    (recordOf cursor.split.id)

theorem news_piece (id : String) (maxRecords : Nat) (cursor : RangeCursor) :
    (piece maxRecords cursor).1.news id =
      if cursor.split.id = id then
        (pieceRecords maxRecords cursor).map some ++
          (if cursor.split.stop ≤ pieceEnd maxRecords cursor then [none] else [])
      else [] := by
  have hfetched := SplitBatch.news_fetched id cursor.split.id (pieceRecords maxRecords cursor)
  by_cases hend : cursor.split.stop ≤ pieceEnd maxRecords cursor
  · simpa [piece, hend, pieceRecords] using hfetched true
  · simpa [piece, hend, pieceRecords] using hfetched false

theorem left_piece (maxRecords : Nat) (cursor : RangeCursor) :
    (piece maxRecords cursor).2 =
      if cursor.split.stop ≤ pieceEnd maxRecords cursor then none
      else some { cursor with next := pieceEnd maxRecords cursor } := by
  by_cases hend : cursor.split.stop ≤ pieceEnd maxRecords cursor <;> simp [piece, hend]

/-- A piece of a range is the front of what its cursor has still to read. -/
theorem tale_piece {id : String} (maxRecords : Nat) {cursor : RangeCursor}
    (hfits : splitId cursor = id → cursor.split.stop < Word.size) :
    (piece maxRecords cursor).1.news id ++
        (if splitId cursor = id then (piece maxRecords cursor).2.toList.flatMap RangeCursor.tale
          else []) =
      if splitId cursor = id then cursor.tale else [] := by
  rw [news_piece, left_piece]
  by_cases hsame : splitId cursor = id
  · obtain ⟨hle, hstart⟩ := pieceEnd_spec maxRecords cursor (hfits hsame)
    have hid : cursor.split.id = id := hsame
    rw [if_pos hid, if_pos hsame, if_pos hsame]
    by_cases hend : cursor.split.stop ≤ pieceEnd maxRecords cursor
    · have hstop : pieceEnd maxRecords cursor = cursor.split.stop := Nat.le_antisymm hle hend
      simp [RangeCursor.tale, pieceRecords, hstop]
    · have hnext := hstart (Nat.lt_of_not_le hend)
      have hlength : cursor.split.stop - cursor.next =
          (pieceEnd maxRecords cursor - cursor.next) +
            (cursor.split.stop - pieceEnd maxRecords cursor) := by omega
      have hmiddle : cursor.next + 1 * (pieceEnd maxRecords cursor - cursor.next) =
          pieceEnd maxRecords cursor := by omega
      rw [if_neg hend, if_neg hend, RangeCursor.tale, hlength, ← List.range'_append, hmiddle]
      simp [RangeCursor.tale, pieceRecords]
  · have hid : cursor.split.id ≠ id := hsame
    rw [if_neg hid, if_neg hsame, if_neg hsame]
    rfl

/-- A fetch that returns moves news from the outlook into its batch. -/
theorem outlook_fetch {id : String} {disturbed : List Bool} {reader next : RangeReader}
    {batch : SplitBatch Record} (h : reader.fetch disturbed = (.returned batch, next))
    (hfits : ∀ cursor ∈ reader.docket.cursors, splitId cursor = id →
      cursor.split.stop < Word.size) :
    batch.news id ++ next.docket.outlook RangeCursor.tale id =
        reader.docket.outlook RangeCursor.tale id ∧
      next.docket.replay = reader.docket.replay.tail := by
  simp only [fetch] at h
  generalize (if reader.delayMs = 0 then _ else _ : Bool × WakeFlag) = nap at h
  obtain ⟨woken, flag⟩ := nap
  split at h
  · cases h
  · split at h
    · next _ stale replay hreplay =>
        cases h
        exact ⟨Docket.outlook_replay hreplay, by simp [hreplay]⟩
    · next hreplay hcursors =>
        cases h
        exact ⟨by simp [Docket.outlook, hreplay, hcursors], by simp [hreplay]⟩
    · next cursor others hreplay hcursors =>
        cases woken with
        | true =>
            cases h
            exact ⟨by simp [Docket.outlook, hreplay, hcursors], by simp [hreplay]⟩
        | false =>
            cases h
            refine ⟨Docket.outlook_cursor _ hreplay hcursors ?_ (tale_piece reader.maxRecords ?_),
              by simp [hreplay]⟩
            · intro rest hrest
              rw [left_piece] at hrest
              split at hrest
              · cases hrest
              · cases hrest
                rfl
            · exact hfits cursor (by simp [hcursors])

end RangeReader

/-! ### Reading files -/

namespace FileCursor

/-- The news of a file that its cursor has still to read, when the files stay as they are. -/
def tale (store : FileStore) (cursor : FileCursor) : List (Option Record) :=
  let source := match cursor.lines with
    | some lines => Except.ok lines
    | none => LineSource.ofPath cursor.split.path store
  match source with
  | .ok lines => (lines.recordsFrom store cursor.lineNumber).map some ++ [none]
  | .error _ => [none]

end FileCursor

namespace FileReader

variable {store : FileStore} {cursor : FileCursor} {lines : LineSource}

theorem tale_opened
    (h : (match cursor.lines with
      | some lines => Except.ok lines
      | none => LineSource.ofPath cursor.split.path store) = .ok lines) :
    cursor.tale store = (lines.recordsFrom store cursor.lineNumber).map some ++ [none] := by
  simp only [FileCursor.tale, h]

/-- A haul that came to the end is all that its cursor had still to read. -/
theorem tale_end {haul : Haul} (id : String)
    (htale : cursor.tale store = (lines.recordsFrom store cursor.lineNumber).map some ++ [none])
    (hhaul : haul.records = lines.recordsFrom store cursor.lineNumber) :
    (((SplitBatch.empty : SplitBatch Record).addRecords cursor.split.id haul.records).finishSplit
        cursor.split.id).news id ++ (if splitId cursor = id then [] else []) =
      if splitId cursor = id then cursor.tale store else [] := by
  have hnews := SplitBatch.news_fetched id cursor.split.id haul.records true
  simp only [↓reduceIte] at hnews
  rw [hnews, htale, hhaul]
  simp [splitId]

/-- A haul that did not is the front of it. -/
theorem tale_front {haul : Haul} (id : String)
    (htale : cursor.tale store = (lines.recordsFrom store cursor.lineNumber).map some ++ [none])
    (hhaul : haul.records ++ haul.lines.recordsFrom store haul.lineNumber =
      lines.recordsFrom store cursor.lineNumber) :
    ((SplitBatch.empty : SplitBatch Record).addRecords cursor.split.id haul.records).news id ++
        (if splitId cursor = id then
          [{ cursor with lines := some haul.lines, lineNumber := haul.lineNumber }].flatMap
            (FileCursor.tale store) else []) =
      if splitId cursor = id then cursor.tale store else [] := by
  rw [SplitBatch.news_addRecords_empty, htale, ← hhaul]
  by_cases hid : cursor.split.id = id <;> simp [splitId, FileCursor.tale, hid]

/-- A fetch that returns moves news from the outlook into its batch. -/
theorem outlook_fetch (id : String) {disturbed : List Bool} {reader next : FileReader}
    {batch : SplitBatch Record} (h : reader.fetch store disturbed = (.returned batch, next)) :
    batch.news id ++ next.docket.outlook (FileCursor.tale store) id =
        reader.docket.outlook (FileCursor.tale store) id ∧
      next.docket.replay = reader.docket.replay.tail := by
  simp only [fetch] at h
  split at h
  · cases h
  · split at h
    · next _ stale replay hreplay =>
        cases h
        exact ⟨Docket.outlook_replay hreplay, by simp [hreplay]⟩
    · next hreplay hcursors =>
        cases h
        exact ⟨by simp [Docket.outlook, hreplay, hcursors], by simp [hreplay]⟩
    · next cursor others hreplay hcursors =>
        split at h
        · cases h
        · next lines hopened =>
            have htale := tale_opened hopened
            have hhaul := haul_records reader.limits store 0 0 disturbed reader.docket.flag lines
              cursor.lineNumber
            generalize haul reader.limits store 0 0 disturbed reader.docket.flag lines
              cursor.lineNumber = haul at h hhaul
            split at h
            · cases h
            · next hfine =>
                have hhaul := hhaul hfine
                cases hend : haul.reachedEnd with
                | true =>
                    simp only [hend, ↓reduceIte, List.append_nil] at h hhaul
                    cases h
                    refine ⟨?_, by simp [hreplay]⟩
                    exact Docket.outlook_cursor none hreplay hcursors (by simp)
                      (tale_end id htale hhaul)
                | false =>
                    simp only [hend, Bool.false_eq_true, ↓reduceIte] at h hhaul
                    cases h
                    refine ⟨?_, by simp [hreplay]⟩
                    exact Docket.outlook_cursor (some _) hreplay hcursors
                      (by simp [splitId]) (tale_front id htale hhaul)

end FileReader

/-! ### Either reader -/

namespace Backend

/-- The news of a split that fetches of a reader have still to bring. -/
def outlook (store : FileStore) (id : String) : Backend → List (Option Record)
  | ranges reader => reader.docket.outlook RangeCursor.tale id
  | files reader => reader.docket.outlook (FileCursor.tale store) id

/-- The batches that came back to a reader. -/
def replay : Backend → List (SplitBatch Record)
  | ranges reader => reader.docket.replay
  | files reader => reader.docket.replay

/-- The end of the range under an id is a number that fits. -/
def FitsAt (id : String) : Backend → Prop
  | ranges reader => ∀ cursor ∈ reader.docket.cursors, splitId cursor = id →
      cursor.split.stop < Word.size
  | files _ => True

/-- What a fetch makes of a reader of either sort. -/
inductive Reads (store : FileStore) (disturbed : List Bool) (result : Called (SplitBatch Record)) :
    Backend → Backend → Prop
  | ranges {reader after : RangeReader} (hread : reader.fetch disturbed = (result, after)) :
      Reads store disturbed result (.ranges reader) (.ranges after)
  | files {reader after : FileReader} (hread : reader.fetch store disturbed = (result, after)) :
      Reads store disturbed result (.files reader) (.files after)

theorem reads_of_fetch {store : FileStore} {disturbed : List Bool} {backend next : Backend}
    {result : Called (SplitBatch Record)}
    (h : SplitReader.fetch store disturbed backend = (result, next)) :
    Reads store disturbed result backend next := by
  obtain ⟨rfl, rfl⟩ := Prod.mk.inj h
  cases backend with
  | ranges reader => exact .ranges rfl
  | files reader => exact .files rfl

/-- A fetch that returns moves news from the outlook into its batch, a batch that came back
first. -/
theorem outlook_fetch (id : String) {store : FileStore} {disturbed : List Bool}
    {backend next : Backend} {batch : SplitBatch Record}
    (h : SplitReader.fetch store disturbed backend = (.returned batch, next))
    (hfits : backend.FitsAt id) :
    batch.news id ++ next.outlook store id = backend.outlook store id ∧
      next.replay = backend.replay.tail := by
  cases reads_of_fetch h with
  | ranges hread => exact RangeReader.outlook_fetch hread hfits
  | files hread => exact FileReader.outlook_fetch id hread

end Backend

/-! ### The records of a split in batches, and its end mark -/

theorem Split.reduceOption_news (store : FileStore) (split : Split) :
    (split.news store).reduceOption = split.records store := by
  rw [news, List.reduceOption_append]
  simp [List.reduceOption]

namespace SplitBatch

variable {batches : List (SplitBatch Record)} {store : FileStore} {split : Split}

/-- The records that batches tell of a split, one batch after the other. -/
def recordsOf (id : String) (batches : List (SplitBatch Record)) : List Record :=
  batches.flatMap fun batch => recordsIn id batch.groups

theorem reduceOption_flatMap_news (id : String) (batches : List (SplitBatch Record)) :
    (batches.flatMap (·.news id)).reduceOption = recordsOf id batches := by
  induction batches with
  | nil => rfl
  | cons batch batches ih =>
      rw [List.flatMap_cons, List.reduceOption_append, ih, reduceOption_news, recordsOf, recordsOf,
        List.flatMap_cons]

theorem count_none_flatMap_news (id : String) (batches : List (SplitBatch Record)) :
    (batches.flatMap (·.news id)).count none =
      (batches.filter (·.finished.contains id)).length := by
  induction batches with
  | nil => rfl
  | cons batch batches ih =>
      rw [List.flatMap_cons, List.count_append, ih, count_none_news, List.filter_cons]
      split
      · rw [List.length_cons, Nat.add_comm]
      · rw [Nat.zero_add]

/-- Batches that tell a front part of a split's news tell its records in order and none twice, and
its end mark at most once and only with all records before it. -/
theorem told_of_front (h : batches.flatMap (·.news split.id) <+: split.news store) :
    recordsOf split.id batches <+: split.records store ∧
      (batches.filter (·.finished.contains split.id)).length ≤ 1 ∧
      ((∃ batch ∈ batches, batch.finished.contains split.id = true) →
        recordsOf split.id batches = split.records store) := by
  refine ⟨?_, ?_, ?_⟩
  · rw [← reduceOption_flatMap_news, ← Split.reduceOption_news]
    exact h.filterMap _
  · have hnone : (split.news store).count none = 1 := by
      have hrecords : ((split.records store).map some).count none = 0 :=
        List.count_eq_zero.2 (by simp)
      rw [Split.news, List.count_append, hrecords]
      rfl
    rw [← count_none_flatMap_news, ← hnone]
    exact h.sublist.count_le none
  · rintro ⟨batch, hmem, hends⟩
    obtain ⟨rest, hrest⟩ := h
    have hstory : IsStory (batches.flatMap (·.news split.id) ++ rest) :=
      hrest ▸ Split.isStory_news store split
    have hmark : none ∈ batches.flatMap (·.news split.id) :=
      List.mem_flatMap.2 ⟨batch, hmem, none_mem_news.2 hends⟩
    rw [hstory.eq_nil_of_none_mem hmark, List.append_nil] at hrest
    rw [← reduceOption_flatMap_news, hrest, Split.reduceOption_news]

end SplitBatch

end SplitFeed
