/-
# Readers that keep a split

A reader keeps a split if it is open, the split was not taken away from it, and everything that it
has can be read to its end.  Others may be taken away from it.  No call into such a reader fails,
and its outlook on the split changes as it should: a fetch moves news off its front, a batch that
comes back is put in front again, and when the split is taken on, its news come behind.
-/
import SplitFeed.Proofs.Reading.Removal

namespace SplitFeed

namespace Docket

variable {κ : Type}

/-- An open docket that hands out a split, with cursors that are fine. -/
structure Keeps (fine : κ → Prop) (id : String) (docket : Docket κ) : Prop where
  isOpen : docket.closed = false
  admits : docket.admits id = true
  cursors : ∀ cursor ∈ docket.cursors, fine cursor

variable {fine : κ → Prop} {tale : κ → List (Option Record)} {id : String} {docket : Docket κ}
  {cursor : κ} {cursors : List κ} {stale : SplitBatch Record} {ids : List String}

theorem keeps_takeBack (h : docket.Keeps fine id) : (docket.takeBack stale).Keeps fine id := by
  simp only [takeBack]
  split
  · exact h
  · exact ⟨h.isOpen, h.admits, h.cursors⟩

theorem replay_takeBack_le (hreplay : docket.replay = []) :
    (docket.takeBack stale).replay.length ≤ 1 := by
  simp only [takeBack]
  split <;> simp [hreplay]

variable [HasSplitId κ]

/-- A batch that comes back when no other does is told first. -/
theorem outlook_takeBack (hadmits : docket.admits id = true) (hreplay : docket.replay = []) :
    (docket.takeBack stale).outlook tale id = stale.news id ++ docket.outlook tale id := by
  have hnews : (stale.retainSplits docket.admits).news id = stale.news id := by
    rw [SplitBatch.news_retainSplits, if_pos hadmits]
  simp only [takeBack]
  split
  · next hempty => rw [← hnews, SplitBatch.news_of_isEmpty hempty, List.nil_append]
  · simp [outlook, hreplay, hnews]

/-! ### Splits that are taken on -/

theorem keeps_enter (h : docket.Keeps fine id) (hcursor : fine cursor) :
    (docket.enter cursor).Keeps fine id := by
  have hadmits : (!(docket.removed.erase (splitId cursor)).contains id) = true := by
    have hbefore := h.admits
    simp only [admits, Bool.not_eq_true'] at hbefore
    simp [hbefore]
  simp only [enter]
  split
  · exact ⟨h.isOpen, hadmits, h.cursors⟩
  · refine ⟨h.isOpen, hadmits, fun other hother => ?_⟩
    rcases List.mem_append.1 hother with hold | hnew
    · exact h.cursors other hold
    · rw [List.mem_singleton.1 hnew]
      exact hcursor

theorem keeps_gain (h : docket.Keeps fine id) (hcursors : ∀ cursor ∈ cursors, fine cursor) :
    (docket.gain cursors).Keeps fine id := by
  induction cursors generalizing docket with
  | nil => exact h
  | cons cursor cursors ih =>
      exact ih (keeps_enter h (hcursors cursor List.mem_cons_self))
        fun other hother => hcursors other (List.mem_cons_of_mem _ hother)

@[simp]
theorem replay_enter (cursor : κ) (docket : Docket κ) :
    (docket.enter cursor).replay = docket.replay := by
  simp only [enter]
  split <;> rfl

@[simp]
theorem replay_gain (cursors : List κ) (docket : Docket κ) :
    (docket.gain cursors).replay = docket.replay := by
  induction cursors generalizing docket with
  | nil => rfl
  | cons cursor cursors ih => exact (ih (docket.enter cursor)).trans (replay_enter cursor docket)

/-- A split that is taken on changes nothing for another one. -/
theorem outlook_enter_other (hother : splitId cursor ≠ id) :
    (docket.enter cursor).outlook tale id = docket.outlook tale id := by
  simp only [enter]
  split
  · rfl
  · simp [outlook, hother]

/-- What it has to tell comes behind what there was, if it was not under way. -/
theorem outlook_enter_self (hid : splitId cursor = id)
    (hfree : ∀ other ∈ docket.cursors, splitId other ≠ id) :
    (docket.enter cursor).outlook tale id = docket.outlook tale id ++ tale cursor := by
  subst hid
  have hunder : docket.isUnderWay (splitId cursor) = false := by
    simpa [isUnderWay] using hfree
  simp [enter, hunder, outlook]

theorem outlook_gain_other (hothers : ∀ cursor ∈ cursors, splitId cursor ≠ id) :
    (docket.gain cursors).outlook tale id = docket.outlook tale id := by
  induction cursors generalizing docket with
  | nil => rfl
  | cons cursor cursors ih =>
      calc
        ((docket.enter cursor).gain cursors).outlook tale id
            = (docket.enter cursor).outlook tale id :=
              ih fun other hother => hothers other (List.mem_cons_of_mem _ hother)
        _ = docket.outlook tale id := outlook_enter_other (hothers cursor List.mem_cons_self)

/-- Splits that are taken on tell their news behind those of before, if these news begin one
story together. -/
theorem outlook_gain {later : List (Option Record)} (htale : ∀ cursor, none ∈ tale cursor)
    (hstory : IsStory (docket.outlook tale id ++
      ((cursors.filter (splitId · == id)).flatMap tale ++ later))) :
    (docket.gain cursors).outlook tale id =
      docket.outlook tale id ++ (cursors.filter (splitId · == id)).flatMap tale := by
  induction cursors generalizing docket with
  | nil => simp [gain]
  | cons cursor cursors ih =>
      by_cases hid : splitId cursor = id
      · rw [List.filter_cons_of_pos (by simpa using hid), List.flatMap_cons] at hstory ⊢
        rw [List.append_assoc (tale cursor)] at hstory
        have hothers : (cursors.filter (splitId · == id)).flatMap tale = [] :=
          (List.append_eq_nil_iff.1 (hstory.of_append.eq_nil_of_none_mem (htale cursor))).1
        have hfree : ∀ other ∈ docket.cursors, splitId other ≠ id := by
          intro other hother hsame
          have hnone : none ∈ docket.outlook tale id := by
            refine List.mem_append_right _ (List.mem_flatMap.2 ⟨other, ?_, htale other⟩)
            simpa using ⟨hother, hsame⟩
          have hempty := hstory.eq_nil_of_none_mem hnone
          rw [List.append_eq_nil_iff] at hempty
          exact List.not_mem_nil (hempty.1 ▸ htale cursor)
        have hlater : ∀ other ∈ cursors, splitId other ≠ id := by
          intro other hother hsame
          have hmem : other ∈ cursors.filter (splitId · == id) := by simpa using ⟨hother, hsame⟩
          exact List.not_mem_nil (List.flatMap_eq_nil_iff.1 hothers other hmem ▸ htale other)
        rw [hothers, List.append_nil]
        exact (outlook_gain_other hlater).trans (outlook_enter_self hid hfree)
      · rw [List.filter_cons_of_neg (by simpa using hid)] at hstory ⊢
        have henter : (docket.enter cursor).outlook tale id = docket.outlook tale id :=
          outlook_enter_other hid
        rw [← henter] at hstory ⊢
        exact ih hstory

/-! ### Splits that are taken away -/

theorem keeps_lose (h : docket.Keeps fine id) (hid : id ∉ ids) :
    (docket.lose ids).2.Keeps fine id where
  isOpen := h.isOpen
  admits := by simp [admits_lose, h.admits, hid]
  cursors cursor hcursor := h.cursors cursor (List.mem_filter.1 hcursor).1

/-- A sweep for other splits leaves the news of one as they are. -/
theorem news_swept (keep : String → Bool) (hkeep : keep id = true)
    (replay : List (SplitBatch Record)) :
    ((replay.map (·.retainSplits keep)).filter (!·.isEmpty)).flatMap (·.news id) =
      replay.flatMap (·.news id) := by
  induction replay with
  | nil => rfl
  | cons batch replay ih =>
      have hnews : (batch.retainSplits keep).news id = batch.news id := by
        rw [SplitBatch.news_retainSplits, if_pos hkeep]
      rw [List.map_cons, List.flatMap_cons, ← ih, ← hnews]
      by_cases hempty : (batch.retainSplits keep).isEmpty = true
      · simp [hempty, SplitBatch.news_of_isEmpty hempty]
      · simp [hempty]

/-- What is taken away makes no difference for another split. -/
theorem outlook_lose_other (hadmits : docket.admits id = true) (hid : id ∉ ids) :
    (docket.lose ids).2.outlook tale id = docket.outlook tale id := by
  have hkeep : (docket.lose ids).2.admits id = true := by simp [admits_lose, hadmits, hid]
  have hcursors : (docket.lose ids).2.cursors.filter (splitId · == id) =
      docket.cursors.filter (splitId · == id) := by
    simp only [lose, List.filter_filter]
    refine List.filter_congr fun cursor _ => ?_
    by_cases hsame : splitId cursor = id <;> simp [hsame, hid]
  have hreplay := news_swept (docket.lose ids).2.admits hkeep docket.replay
  simp only [outlook, hcursors]
  exact congrArg (· ++ _) hreplay

theorem replay_lose_le (ids : List String) (docket : Docket κ) :
    (docket.lose ids).2.replay.length ≤ docket.replay.length :=
  Nat.le_trans (List.length_filter_le _ _) (Nat.le_of_eq (List.length_map _))

end Docket

/-! ### Reading ranges -/

namespace RangeCursor

/-- A range can be read if its end is a number that fits. -/
def IsFine (cursor : RangeCursor) : Prop := cursor.split.stop < Word.size

end RangeCursor

namespace RangeReader

variable {id : String}

/-- A fetch of a reader that keeps a split returns. -/
theorem fetch_of_keeps {reader : RangeReader} (h : reader.docket.Keeps RangeCursor.IsFine id)
    (disturbed : List Bool) :
    ∃ batch next, reader.fetch disturbed = (.returned batch, next) ∧
      next.docket.Keeps RangeCursor.IsFine id := by
  simp only [fetch, h.isOpen, Bool.false_eq_true, ↓reduceIte]
  generalize (if reader.delayMs = 0 then _ else _ : Bool × WakeFlag) = nap
  obtain ⟨woken, flag⟩ := nap
  split
  · exact ⟨_, _, rfl, rfl, h.admits, h.cursors⟩
  · exact ⟨_, _, rfl, rfl, h.admits, h.cursors⟩
  · next cursor others hreplay hcursors =>
      cases woken with
      | true => exact ⟨_, _, rfl, rfl, h.admits, h.cursors⟩
      | false =>
          have hfine := h.cursors
          rw [hcursors] at hfine
          refine ⟨_, _, rfl, rfl, h.admits, ?_⟩
          intro other hother
          rcases List.mem_append.1 hother with hleft | hrest
          · rw [left_piece] at hleft
            split at hleft
            · cases hleft
            · rw [Option.toList_some, List.mem_singleton] at hleft
              subst hleft
              exact hfine cursor List.mem_cons_self
          · exact hfine other (List.mem_cons_of_mem _ hrest)

end RangeReader

/-! ### Reading files -/

namespace FileCursor

/-- A file can be read if it is open and its feed never fails, or if it has a text. -/
def IsFine (store : FileStore) (cursor : FileCursor) : Prop :=
  match cursor.lines with
  | some lines => lines.feed.Whole store
  | none => (store.text? cursor.split.path).isSome

/-- The lines of a file that can be read. -/
theorem opened_of_fine {store : FileStore} {cursor : FileCursor} (h : cursor.IsFine store) :
    ∃ lines, (match cursor.lines with
        | some lines => Except.ok lines
        | none => LineSource.ofPath cursor.split.path store) = .ok lines ∧
      lines.feed.Whole store := by
  unfold IsFine at h
  split at h
  · next lines hlines => exact ⟨lines, rfl, h⟩
  · next hlines =>
      obtain ⟨text, htext⟩ := Option.isSome_iff_exists.1 h
      obtain ⟨lines, hopened, hwhole, -⟩ := LineSource.ofPath_of_text htext
      exact ⟨lines, hopened, hwhole⟩

end FileCursor

/-- Reading a line from a feed that never fails does not fail, and leaves such a feed. -/
theorem LineSource.whole_readLine {store : FileStore} {source next : LineSource}
    {result : Except ReadError (List UInt8)} (hwhole : source.feed.Whole store)
    (h : source.readLine store = (result, next)) :
    (∀ error, result ≠ .error error) ∧ next.feed.Whole store := by
  obtain ⟨after, hread, hafter⟩ := readLine_whole hwhole
  obtain ⟨rfl, rfl⟩ := Prod.mk.inj (h.symm.trans hread)
  exact ⟨fun error => by simp, hafter⟩

namespace FileReader

variable {store : FileStore} {id : String}

/-- Hauling from a feed that never fails does not fail, and leaves such a feed. -/
theorem haul_whole (limits : FetchLimits) (records bytes : Nat) (disturbed : List Bool)
    (flag : WakeFlag) (lines : LineSource) (number : Nat) (hwhole : lines.feed.Whole store) :
    (haul limits store records bytes disturbed flag lines number).failure = none ∧
      (haul limits store records bytes disturbed flag lines number).lines.feed.Whole store := by
  fun_induction haul limits store records bytes disturbed flag lines number with
  | case1 | case6 => exact ⟨rfl, hwhole⟩
  | case2 records bytes disturbed flag lines number hroom woken flag' hnap hwoken error lines'
      hline => exact absurd rfl ((LineSource.whole_readLine hwhole hline).1 error)
  | case3 records bytes disturbed flag lines number hroom woken flag' hnap hwoken lines' hline =>
      exact ⟨rfl, (LineSource.whole_readLine hwhole hline).2⟩
  | case4 records bytes disturbed flag lines number hroom woken flag' hnap hwoken first rest lines'
      hline _ _ _ _ ih =>
      exact ih (LineSource.whole_readLine hwhole hline).2
  | case5 records bytes disturbed flag lines number hroom woken flag' hnap hwoken first rest lines'
      hline _ _ _ _ _ ih =>
      exact ih (LineSource.whole_readLine hwhole hline).2

/-- A fetch of a reader that keeps a split returns. -/
theorem fetch_of_keeps {reader : FileReader}
    (h : reader.docket.Keeps (FileCursor.IsFine store) id) (disturbed : List Bool) :
    ∃ batch next, reader.fetch store disturbed = (.returned batch, next) ∧
      next.docket.Keeps (FileCursor.IsFine store) id := by
  simp only [fetch, h.isOpen, Bool.false_eq_true, ↓reduceIte]
  split
  · exact ⟨_, _, rfl, rfl, h.admits, h.cursors⟩
  · exact ⟨_, _, rfl, rfl, h.admits, h.cursors⟩
  · next cursor others hreplay hcursors =>
      have hfine := h.cursors
      rw [hcursors] at hfine
      obtain ⟨lines, hopened, hwhole⟩ := FileCursor.opened_of_fine (hfine cursor List.mem_cons_self)
      have hrest : ∀ other ∈ others, other.IsFine store :=
        fun other hother => hfine other (List.mem_cons_of_mem _ hother)
      split
      · next error herror => cases hopened.symm.trans herror
      · next lines' hopened' =>
          obtain rfl : lines = lines' := by simpa using hopened.symm.trans hopened'
          obtain ⟨hfailure, hleft⟩ := haul_whole reader.limits 0 0 disturbed reader.docket.flag
            lines cursor.lineNumber hwhole
          simp only [hfailure]
          split
          · exact ⟨_, _, rfl, rfl, h.admits, hrest⟩
          · refine ⟨_, _, rfl, rfl, h.admits, ?_⟩
            intro other hother
            rcases List.mem_cons.1 hother with rfl | hmem
            · exact hleft
            · exact hrest other hmem

end FileReader

/-! ### Either reader -/

namespace Split

/-- A file that has just been taken on has all of its news to tell. -/
theorem tale_file {store : FileStore} {split : FileSplit}
    (h : (file split).IsReadable store) :
    FileCursor.tale store { split } = (file split).news store := by
  obtain ⟨text, htext⟩ := Option.isSome_iff_exists.1 h
  obtain ⟨lines, hopened, hwhole, hbytes⟩ := LineSource.ofPath_of_text htext
  simp only [FileCursor.tale, hopened]
  rw [LineSource.recordsFrom_whole 0 hwhole, hbytes]
  simp [news, records, htext]

end Split

namespace SplitsChange

/-- What is due of the splits that a change adds. -/
def news (store : FileStore) (id : String) : SplitsChange Split → List (Option Record)
  | addition splits => Split.due store id splits
  | removal _ => []

/-- A change that adds splits which can be read, or takes away others than a given one. -/
def Spares (store : FileStore) (id : String) : SplitsChange Split → Prop
  | addition splits => ∀ split ∈ splits, split.IsReadable store
  | removal splits => ∀ split ∈ splits, split.id ≠ id

end SplitsChange

namespace Backend

/-- A reader that was just built. -/
def IsNew : Backend → Prop
  | ranges reader => reader.docket = {}
  | files reader => reader.docket = {}

/-- A reader that keeps a split, and can read all it has. -/
def Keeps (store : FileStore) (id : String) : Backend → Prop
  | ranges reader => reader.docket.Keeps RangeCursor.IsFine id
  | files reader => reader.docket.Keeps (FileCursor.IsFine store) id

variable {store : FileStore} {id : String} {backend next : Backend}

theorem keeps_of_isNew (h : backend.IsNew) : backend.Keeps store id := by
  cases backend <;>
    exact ⟨by rw [h], by rw [h]; rfl, by rw [h]; exact fun _ hmem => (List.not_mem_nil hmem).elim⟩

theorem outlook_of_isNew (h : backend.IsNew) : backend.outlook store id = [] := by
  cases backend <;> simp only [outlook] <;> rw [h] <;> rfl

theorem replay_of_isNew (h : backend.IsNew) : backend.replay = [] := by
  cases backend <;> simp only [replay] <;> rw [h]

theorem fitsAt_of_keeps (h : backend.Keeps store id) (other : String) : backend.FitsAt other := by
  cases backend with
  | ranges reader => exact fun cursor hmem _ => h.cursors cursor hmem
  | files reader => trivial

/-- A fetch of a reader that keeps a split returns, and leaves one that keeps it. -/
theorem fetch_of_keeps (h : backend.Keeps store id) (disturbed : List Bool) :
    ∃ batch next, SplitReader.fetch store disturbed backend = (.returned batch, next) ∧
      next.Keeps store id := by
  cases backend with
  | ranges reader =>
      obtain ⟨batch, next, hread, hnext⟩ := RangeReader.fetch_of_keeps h disturbed
      exact ⟨batch, ranges next, by simp [SplitReader.fetch, fetch, hread], hnext⟩
  | files reader =>
      obtain ⟨batch, next, hread, hnext⟩ := FileReader.fetch_of_keeps h disturbed
      exact ⟨batch, files next, by simp [SplitReader.fetch, fetch, hread], hnext⟩

/-- A reader goes on keeping a split when it takes on splits that can be read or gives away
others, and no batches come back to it then. -/
theorem keeps_changed {change : SplitsChange Split} {recycled : List Nat}
    (h : Changed change backend recycled next) (hkeeps : backend.Keeps store id)
    (hspares : change.Spares store id) :
    next.Keeps store id ∧ next.replay.length ≤ backend.replay.length := by
  cases h with
  | gainRanges splits reader =>
      refine ⟨Docket.keeps_gain hkeeps ?_, by simp [replay]⟩
      intro cursor hcursor
      obtain ⟨split, hsplit, rfl⟩ := List.mem_map.1 hcursor
      exact hspares (.range split) (List.mem_map_of_mem hsplit)
  | gainFiles splits reader =>
      refine ⟨Docket.keeps_gain hkeeps ?_, by simp [replay]⟩
      intro cursor hcursor
      obtain ⟨split, hsplit, rfl⟩ := List.mem_map.1 hcursor
      exact hspares (.file split) (List.mem_map_of_mem hsplit)
  | loseRanges splits reader =>
      refine ⟨Docket.keeps_lose hkeeps fun hid => ?_, Docket.replay_lose_le _ _⟩
      obtain ⟨split, hsplit, hsame⟩ := List.mem_map.1 hid
      exact hspares (.range split) (List.mem_map_of_mem hsplit) hsame
  | loseFiles splits reader =>
      refine ⟨Docket.keeps_lose hkeeps fun hid => ?_, Docket.replay_lose_le _ _⟩
      obtain ⟨split, hsplit, hsame⟩ := List.mem_map.1 hid
      exact hspares (.file split) (List.mem_map_of_mem hsplit) hsame

/-- The news of splits that were taken on come behind, if they belong to one story. -/
theorem outlook_changed {change : SplitsChange Split} {recycled : List Nat}
    {later : List (Option Record)} (h : Changed change backend recycled next)
    (hkeeps : backend.Keeps store id) (hspares : change.Spares store id)
    (hstory : IsStory (backend.outlook store id ++ (change.news store id ++ later))) :
    next.outlook store id = backend.outlook store id ++ change.news store id := by
  cases h with
  | gainRanges splits reader =>
      have htales : ((splits.map fun split => ({ split, next := split.start } : RangeCursor)).filter
            (splitId · == id)).flatMap RangeCursor.tale =
          Split.due store id (splits.map .range) := by
        simp only [Split.due, List.filter_map, List.flatMap_map]
        rfl
      simp only [SplitsChange.news, ← htales] at hstory ⊢
      exact Docket.outlook_gain (fun cursor => by simp [RangeCursor.tale]) hstory
  | gainFiles splits reader =>
      have htales : ((splits.map fun split => ({ split } : FileCursor)).filter
            (splitId · == id)).flatMap (FileCursor.tale store) =
          Split.due store id (splits.map .file) := by
        simp only [Split.due, List.filter_map, List.flatMap_map]
        refine List.flatMap_congr fun split hsplit => Split.tale_file ?_
        exact hspares (.file split) (List.mem_map_of_mem (List.mem_filter.1 hsplit).1)
      simp only [SplitsChange.news, ← htales] at hstory ⊢
      refine Docket.outlook_gain (fun cursor => ?_) hstory
      simp only [FileCursor.tale]
      split <;> simp
  | loseRanges splits reader =>
      rw [SplitsChange.news, List.append_nil]
      refine Docket.outlook_lose_other hkeeps.admits fun hid => ?_
      obtain ⟨split, hsplit, hsame⟩ := List.mem_map.1 hid
      exact hspares (.range split) (List.mem_map_of_mem hsplit) hsame
  | loseFiles splits reader =>
      rw [SplitsChange.news, List.append_nil]
      refine Docket.outlook_lose_other hkeeps.admits fun hid => ?_
      obtain ⟨split, hsplit, hsame⟩ := List.mem_map.1 hid
      exact hspares (.file split) (List.mem_map_of_mem hsplit) hsame

/-- A batch goes back to a reader and becomes what it tells next. -/
theorem rewind_of_keeps {stale : SplitBatch Record} {result : Called Unit} {recycled : List Nat}
    (h : SplitReader.rewind stale backend = (result, recycled, next))
    (hkeeps : backend.Keeps store id) (hreplay : backend.replay = []) :
    result = .returned () ∧ next.Keeps store id ∧ next.replay.length ≤ 1 ∧
      next.outlook store id = stale.news id ++ backend.outlook store id := by
  cases h
  cases backend <;>
    exact ⟨rfl, Docket.keeps_takeBack hkeeps, Docket.replay_takeBack_le hreplay,
      Docket.outlook_takeBack hkeeps.admits hreplay⟩

theorem keeps_wake (h : backend.Keeps store id) : (SplitReader.wake backend).Keeps store id := by
  cases backend <;> exact ⟨h.isOpen, h.admits, h.cursors⟩

@[simp]
theorem outlook_wake (store : FileStore) (id : String) (backend : Backend) :
    (SplitReader.wake backend).outlook store id = backend.outlook store id := by
  cases backend <;> rfl

@[simp]
theorem replay_wake (backend : Backend) : (SplitReader.wake backend).replay = backend.replay := by
  cases backend <;> rfl

end Backend

end SplitFeed
