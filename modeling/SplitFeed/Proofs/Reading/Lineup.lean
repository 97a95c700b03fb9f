/-
# All that a reader still has to tell, in order

Tidings are the news of all splits together, each with the id of its split.  The lineup of a reader
are the tidings that fetches have still to bring: first those in batches that came back, then those
of the cursors, one split after the other.  A fetch that returns takes the tidings of its batch off
the front of the lineup, splits that are taken on join it at the end, and a batch that comes back
goes to its front.

What the lineup says of a single split is the outlook on it.
-/
import SplitFeed.Proofs.Reading.Keeping

namespace SplitFeed

/-- A record of a split, or its end mark. -/
abbrev Tiding := String × Option Record

namespace Tiding

/-- What tidings say of one split. -/
def newsOf (id : String) (tidings : List Tiding) : List (Option Record) :=
  (tidings.filter (·.1 == id)).map (·.2)

variable {id : String} {tidings : List Tiding}

@[simp]
theorem newsOf_nil (id : String) : newsOf id [] = [] := rfl

theorem newsOf_append (id : String) (first second : List Tiding) :
    newsOf id (first ++ second) = newsOf id first ++ newsOf id second := by
  simp [newsOf]

theorem newsOf_flatMap {α : Type} (id : String) (tell : α → List Tiding) (items : List α) :
    newsOf id (items.flatMap tell) = items.flatMap fun item => newsOf id (tell item) := by
  simp [newsOf, List.filter_flatMap, List.map_flatMap]

theorem newsOf_told (id other : String) (news : List (Option Record)) :
    newsOf id (news.map (other, ·)) = if other = id then news else [] := by
  by_cases hid : other = id <;> simp [newsOf, List.filter_map, Function.comp_def, hid]

/-- Tidings that say nothing of any split are none. -/
theorem eq_nil_of_newsOf (h : ∀ id, newsOf id tidings = []) : tidings = [] := by
  cases tidings with
  | nil => rfl
  | cons tiding rest => simpa [newsOf] using h tiding.1

end Tiding

/-- The tidings of a whole split. -/
def Split.tidings (store : FileStore) (split : Split) : List Tiding :=
  (split.news store).map (split.id, ·)

theorem Split.newsOf_tidings (store : FileStore) (id : String) (splits : List Split) :
    Tiding.newsOf id (splits.flatMap (·.tidings store)) = due store id splits := by
  rw [Tiding.newsOf_flatMap, due]
  induction splits with
  | nil => rfl
  | cons split splits ih =>
      rw [List.flatMap_cons, ih, tidings, Tiding.newsOf_told, List.filter_cons]
      by_cases hid : split.id = id <;> simp [hid]

/-! ### Records and end marks among tidings -/

/-- The records of a split, each with the id of the split. -/
def Split.entries (files : FileStore) (split : Split) : List (String × Record) :=
  (split.records files).map (split.id, ·)

namespace Tiding

/-- The records that tidings tell of. -/
def entries (tidings : List Tiding) : List (String × Record) :=
  tidings.filterMap fun tiding => tiding.2.map (tiding.1, ·)

/-- The ids of the splits whose end marks are among tidings. -/
def ended (tidings : List Tiding) : List String :=
  tidings.filterMap fun tiding => if tiding.2 = none then some tiding.1 else none

variable {tidings : List Tiding}

@[simp]
theorem entries_nil : entries [] = [] := rfl

@[simp]
theorem ended_nil : ended [] = [] := rfl

theorem entries_append (first second : List Tiding) :
    entries (first ++ second) = entries first ++ entries second :=
  List.filterMap_append ..

theorem ended_append (first second : List Tiding) :
    ended (first ++ second) = ended first ++ ended second :=
  List.filterMap_append ..

theorem entries_perm {first second : List Tiding} (h : first.Perm second) :
    (entries first).Perm (entries second) :=
  h.filterMap _

theorem ended_perm {first second : List Tiding} (h : first.Perm second) :
    (ended first).Perm (ended second) :=
  h.filterMap _

theorem entries_eq_nil_iff : entries tidings = [] ↔ ∀ tiding ∈ tidings, tiding.2 = none := by
  simp [entries, List.filterMap_eq_nil_iff]

/-- A tiding is a record or an end mark. -/
theorem eq_nil_of_entries_ended (hentries : entries tidings = []) (hended : ended tidings = []) :
    tidings = [] := by
  refine List.eq_nil_iff_forall_not_mem.2 fun tiding hmem => ?_
  have hnone := entries_eq_nil_iff.1 hentries tiding hmem
  simpa [hnone] using List.filterMap_eq_nil_iff.1 hended tiding hmem

/-- Splits tell of their records. -/
theorem entries_tidings (files : FileStore) (splits : List Split) :
    entries (splits.flatMap (·.tidings files)) = splits.flatMap (·.entries files) := by
  induction splits with
  | nil => rfl
  | cons split splits ih =>
      have hself : entries (split.tidings files) = split.entries files := by
        simp [entries, Split.tidings, Split.news, Split.entries, List.filterMap_map,
          Function.comp_def]
      rw [List.flatMap_cons, List.flatMap_cons, entries_append, ih, hself]

/-- They tell of their ends. -/
theorem ended_tidings (files : FileStore) (splits : List Split) :
    ended (splits.flatMap (·.tidings files)) = splits.map Split.id := by
  induction splits with
  | nil => rfl
  | cons split splits ih =>
      have hself : ended (split.tidings files) = [split.id] := by
        simp [ended, Split.tidings, Split.news, List.filterMap_map, Function.comp_def]
      rw [List.flatMap_cons, ended_append, ih, hself]
      rfl

end Tiding

/-! ### Batches and dockets -/

namespace SplitBatch

/-- The tidings in a batch: its records in reading order, and the end marks behind them. -/
def tidings (batch : SplitBatch Record) : List Tiding :=
  (batch.groups.flatMap fun group => group.2.map fun record => (group.1, some record)) ++
    batch.finished.toList.map (·, none)

variable {id : String} {batch : SplitBatch Record}

theorem newsOf_tidings (id : String) (batch : SplitBatch Record) :
    Tiding.newsOf id batch.tidings = batch.news id := by
  rw [tidings, Tiding.newsOf_append, Tiding.newsOf_flatMap, news]
  congr 1
  · induction batch.groups with
    | nil => rfl
    | cons group groups ih =>
        have hgroup : (group.2.map fun record => (group.1, some record)) =
            (group.2.map some).map (group.1, ·) := by simp
        rw [List.flatMap_cons, ih, hgroup, Tiding.newsOf_told, recordsIn_cons, List.map_append]
        split <;> rfl
  · have honce : batch.finished.toList.Nodup := batch.finished.ascending.imp String.ne_of_lt
    simp only [Tiding.newsOf, List.filter_map, List.map_map, Function.comp_def, IdSet.contains]
    rw [List.map_const', ← List.countP_eq_length_filter]
    have hcount : batch.finished.toList.countP (· == id) = batch.finished.toList.count id := rfl
    rw [hcount, honce.count]
    by_cases hends : id ∈ batch.finished.toList <;> simp [hends]

/-- A batch that counts as empty has no tidings. -/
theorem tidings_of_isEmpty (h : batch.isEmpty = true) : batch.tidings = [] :=
  Tiding.eq_nil_of_newsOf fun id => (newsOf_tidings id batch).trans (news_of_isEmpty h id)

/-- A sweep that takes nothing away leaves the tidings as they are. -/
theorem tidings_retainSplits {keep : String → Bool} (hkeep : ∀ id, keep id = true)
    (batch : SplitBatch Record) : (batch.retainSplits keep).tidings = batch.tidings := by
  have hfinished : (batch.retainSplits keep).finished.toList = batch.finished.toList := by
    simp [retainSplits, hkeep]
  rw [tidings, groups_retainSplits, hfinished, List.filter_eq_self.2 fun _ _ => hkeep _, tidings]

/-- The batch tells of one split only. -/
def IsAbout (id : String) (batch : SplitBatch Record) : Prop :=
  batch.tidings = (batch.news id).map (id, ·)

/-- A fetch of one split's records tells of that split only. -/
theorem isAbout_fetched (id : String) (records : List Record) (ended : Bool) :
    IsAbout id (if ended then ((empty : SplitBatch Record).addRecords id records).finishSplit id
      else (empty : SplitBatch Record).addRecords id records) := by
  have hnews := news_fetched id id records ended
  rw [if_pos rfl] at hnews
  rw [IsAbout, hnews]
  cases ended <;> cases records <;>
    simp [tidings, groups, addRecords, appendGroup, finishSplit, empty, IdSet.insert,
      IdSet.insertInto, EmptyCollection.emptyCollection, IdSet.empty]

end SplitBatch

namespace Docket

variable {κ : Type} [HasSplitId κ]

/-- The tidings of cursors, when `tale` are the news of a cursor. -/
def told (tale : κ → List (Option Record)) (cursors : List κ) : List Tiding :=
  cursors.flatMap fun cursor => (tale cursor).map (splitId cursor, ·)

/-- The tidings that are still to come from a docket. -/
def lineup (tale : κ → List (Option Record)) (docket : Docket κ) : List Tiding :=
  docket.replay.flatMap (·.tidings) ++ told tale docket.cursors

/-- What a fetch that returns does to a docket: it hands out a batch that came back, does nothing,
or reads from the first cursor. -/
inductive Fetches (tale : κ → List (Option Record)) (docket : Docket κ) :
    SplitBatch Record → Docket κ → Prop
  | again {stale replay} (hreplay : docket.replay = stale :: replay) :
      Fetches tale docket stale { docket with replay }
  | nothing (flag : WakeFlag) : Fetches tale docket .empty { docket with flag }
  | read {cursor others batch} (left : Option κ) (flag : WakeFlag) (hreplay : docket.replay = [])
      (hcursors : docket.cursors = cursor :: others)
      (hsame : ∀ rest ∈ left, splitId rest = splitId cursor)
      (habout : batch.IsAbout (splitId cursor))
      (hread : batch.news (splitId cursor) ++ left.toList.flatMap tale = tale cursor) :
      Fetches tale docket batch { docket with flag, cursors := left.toList ++ others }

variable {tale : κ → List (Option Record)} {docket next : Docket κ} {batch : SplitBatch Record}
  {cursor : κ} {cursors : List κ}

theorem newsOf_told (id : String) (cursors : List κ) :
    Tiding.newsOf id (told tale cursors) =
      (cursors.filter (splitId · == id)).flatMap tale := by
  rw [told, Tiding.newsOf_flatMap]
  induction cursors with
  | nil => rfl
  | cons cursor cursors ih =>
      rw [List.flatMap_cons, ih, Tiding.newsOf_told, List.filter_cons]
      by_cases hid : splitId cursor = id <;> simp [hid]

theorem newsOf_lineup (id : String) (docket : Docket κ) :
    Tiding.newsOf id (docket.lineup tale) = docket.outlook tale id := by
  rw [lineup, Tiding.newsOf_append, Tiding.newsOf_flatMap, newsOf_told, outlook]
  simp only [SplitBatch.newsOf_tidings]

/-- A fetch takes the tidings of its batch off the front of the lineup. -/
theorem lineup_fetches (h : docket.Fetches tale batch next) :
    batch.tidings ++ next.lineup tale = docket.lineup tale := by
  cases h with
  | again hreplay => simp [lineup, hreplay]
  | nothing flag => rfl
  | @read cursor others _ left flag hreplay hcursors hsame habout hread =>
      have hleft : told tale left.toList =
          (left.toList.flatMap tale).map (splitId cursor, ·) := by
        cases left with
        | none => rfl
        | some rest => simp [told, hsame rest rfl]
      have hothers (first : List κ) :
          told tale (first ++ others) = told tale first ++ told tale others := by
        simp [told]
      have hcursor : told tale docket.cursors =
          (tale cursor).map (splitId cursor, ·) ++ told tale others := by
        rw [hcursors]
        rfl
      simp only [lineup, hreplay, hcursor, hothers, hleft, ← hread, List.map_append,
        List.flatMap_nil, List.nil_append, List.append_assoc]
      rw [habout]

/-- Splits that are taken on join the lineup, if the news of each begin one story together with
those that were there. -/
theorem lineup_gain (htale : ∀ cursor, none ∈ tale cursor)
    (hstory : ∀ id, ∃ later,
      IsStory (Tiding.newsOf id (docket.lineup tale ++ told tale cursors) ++ later)) :
    (docket.gain cursors).lineup tale = docket.lineup tale ++ told tale cursors := by
  induction cursors generalizing docket with
  | nil => simp [gain, told]
  | cons cursor cursors ih =>
      have hcons : told tale (cursor :: cursors) =
          (tale cursor).map (splitId cursor, ·) ++ told tale cursors := rfl
      -- A cursor for the same split would have told an end mark before.
      have hunder : docket.isUnderWay (splitId cursor) = false := by
        obtain ⟨later, hlater⟩ := hstory (splitId cursor)
        rw [hcons, Tiding.newsOf_append, newsOf_lineup, Tiding.newsOf_append, Tiding.newsOf_told,
          if_pos rfl, List.append_assoc] at hlater
        rw [← Bool.not_eq_true, isUnderWay, List.any_eq_true]
        rintro ⟨other, hother, hsame⟩
        have hnone : none ∈ docket.outlook tale (splitId cursor) :=
          List.mem_append_right _ (List.mem_flatMap.2
            ⟨other, List.mem_filter.2 ⟨hother, hsame⟩, htale other⟩)
        have hempty := hlater.eq_nil_of_none_mem hnone
        simp only [List.append_eq_nil_iff] at hempty
        exact List.not_mem_nil (hempty.1.1 ▸ htale cursor)
      have henter : (docket.enter cursor).lineup tale =
          docket.lineup tale ++ (tale cursor).map (splitId cursor, ·) := by
        simp [enter, hunder, lineup, told]
      have hafter := @ih (docket.enter cursor) fun id => by
        rw [henter, List.append_assoc, ← hcons]
        exact hstory id
      rw [henter, List.append_assoc, ← hcons] at hafter
      exact hafter

/-- A batch that comes back when no other does goes to the front of the lineup. -/
theorem lineup_takeBack {stale : SplitBatch Record} (hadmits : ∀ id, docket.admits id = true)
    (hreplay : docket.replay = []) :
    (docket.takeBack stale).lineup tale = stale.tidings ++ docket.lineup tale := by
  have htidings := SplitBatch.tidings_retainSplits hadmits stale
  simp only [takeBack]
  split
  · next hempty => rw [← htidings, SplitBatch.tidings_of_isEmpty hempty, List.nil_append]
  · simp [lineup, hreplay, htidings]

/-- Where nothing is taken away, the lineup stays. -/
theorem lineup_lose (hadmits : ∀ id, docket.admits id = true) :
    (docket.lose []).2.lineup tale = docket.lineup tale := by
  have hkeep (id : String) : (docket.lose []).2.admits id = true := by
    simp [admits_lose, hadmits]
  have hcursors : (docket.lose []).2.cursors = docket.cursors := by simp [lose]
  have hreplay (replay : List (SplitBatch Record)) :
      ((replay.map (·.retainSplits (docket.lose []).2.admits)).filter (!·.isEmpty)).flatMap
        (·.tidings) = replay.flatMap (·.tidings) := by
    induction replay with
    | nil => rfl
    | cons batch replay ih =>
        have htidings := SplitBatch.tidings_retainSplits hkeep batch
        rw [List.map_cons, List.flatMap_cons, ← ih, ← htidings]
        by_cases hempty : (batch.retainSplits (docket.lose []).2.admits).isEmpty = true
        · simp [hempty, SplitBatch.tidings_of_isEmpty hempty]
        · simp [hempty]
  simp only [lineup, hcursors]
  exact congrArg (· ++ _) (hreplay docket.replay)

end Docket

/-! ### The two sorts of reader -/

namespace RangeReader

theorem isAbout_piece (maxRecords : Nat) (cursor : RangeCursor) :
    (piece maxRecords cursor).1.IsAbout (splitId cursor) := by
  have hfetched := SplitBatch.isAbout_fetched cursor.split.id (pieceRecords maxRecords cursor)
  by_cases hend : cursor.split.stop ≤ pieceEnd maxRecords cursor
  · simpa [piece, hend, pieceRecords, splitId] using hfetched true
  · simpa [piece, hend, pieceRecords, splitId] using hfetched false

theorem fetches_of_returned {disturbed : List Bool} {reader next : RangeReader}
    {batch : SplitBatch Record} (h : reader.fetch disturbed = (.returned batch, next))
    (hfine : ∀ cursor ∈ reader.docket.cursors, cursor.IsFine) :
    reader.docket.Fetches RangeCursor.tale batch next.docket := by
  simp only [fetch] at h
  generalize (if reader.delayMs = 0 then _ else _ : Bool × WakeFlag) = nap at h
  obtain ⟨woken, flag⟩ := nap
  split at h
  · cases h
  · split at h
    · next _ stale replay hreplay =>
        cases h
        exact .again hreplay
    · cases h
      exact .nothing _
    · next cursor others hreplay hcursors =>
        cases woken with
        | true =>
            cases h
            exact .nothing _
        | false =>
            cases h
            have htale := @tale_piece (splitId cursor) reader.maxRecords cursor
              fun _ => hfine cursor (by simp [hcursors])
            rw [if_pos rfl, if_pos rfl] at htale
            refine .read _ flag hreplay hcursors ?_ (isAbout_piece _ _) htale
            intro rest hrest
            rw [left_piece] at hrest
            split at hrest
            · cases hrest
            · cases hrest
              rfl

end RangeReader

namespace FileReader

theorem fetches_of_returned {store : FileStore} {disturbed : List Bool} {reader next : FileReader}
    {batch : SplitBatch Record} (h : reader.fetch store disturbed = (.returned batch, next)) :
    reader.docket.Fetches (FileCursor.tale store) batch next.docket := by
  simp only [fetch] at h
  split at h
  · cases h
  · split at h
    · next _ stale replay hreplay =>
        cases h
        exact .again hreplay
    · cases h
      exact .nothing _
    · next cursor others hreplay hcursors =>
        split at h
        · cases h
        · next lines hopened =>
            have htale := tale_opened hopened
            have hhaul := haul_records reader.limits store 0 0 disturbed reader.docket.flag lines
              cursor.lineNumber
            generalize haul reader.limits store 0 0 disturbed reader.docket.flag lines
              cursor.lineNumber = haul at h hhaul
            have habout := SplitBatch.isAbout_fetched cursor.split.id haul.records
            split at h
            · cases h
            · next hfine =>
                have hhaul := hhaul hfine
                cases hend : haul.reachedEnd with
                | true =>
                    simp only [hend, ↓reduceIte, List.append_nil] at h hhaul
                    cases h
                    have htold := tale_end (splitId cursor) htale hhaul
                    rw [if_pos rfl, if_pos rfl] at htold
                    exact .read none _ hreplay hcursors (by simp) (habout true) htold
                | false =>
                    simp only [hend, Bool.false_eq_true, ↓reduceIte] at h hhaul
                    cases h
                    have htold := tale_front (splitId cursor) htale hhaul
                    rw [if_pos rfl, if_pos rfl] at htold
                    exact .read (some _) _ hreplay hcursors (by simp [splitId]) (habout false) htold

end FileReader

/-! ### Either reader -/

namespace SplitsChange

/-- The tidings of the splits that a change adds. -/
def tidings (store : FileStore) : SplitsChange Split → List Tiding
  | addition splits => splits.flatMap (·.tidings store)
  | removal _ => []

theorem newsOf_tidings (store : FileStore) (id : String) (change : SplitsChange Split) :
    Tiding.newsOf id (change.tidings store) = change.news store id := by
  cases change with
  | addition splits => exact Split.newsOf_tidings store id splits
  | removal _ => rfl

end SplitsChange

namespace Backend

/-- The tidings that fetches of a reader have still to bring. -/
def lineup (store : FileStore) : Backend → List Tiding
  | ranges reader => reader.docket.lineup RangeCursor.tale
  | files reader => reader.docket.lineup (FileCursor.tale store)

variable {store : FileStore} {backend next : Backend}

theorem newsOf_lineup (store : FileStore) (id : String) (backend : Backend) :
    Tiding.newsOf id (backend.lineup store) = backend.outlook store id := by
  cases backend <;> exact Docket.newsOf_lineup id _

@[simp]
theorem lineup_wake (store : FileStore) (backend : Backend) :
    (SplitReader.wake backend).lineup store = backend.lineup store := by
  cases backend <;> rfl

theorem lineup_fetch {disturbed : List Bool} {batch : SplitBatch Record} {id : String}
    (h : SplitReader.fetch store disturbed backend = (.returned batch, next))
    (hkeeps : backend.Keeps store id) :
    batch.tidings ++ next.lineup store = backend.lineup store := by
  cases reads_of_fetch h with
  | ranges hread =>
      exact Docket.lineup_fetches (RangeReader.fetches_of_returned hread hkeeps.cursors)
  | files hread => exact Docket.lineup_fetches (FileReader.fetches_of_returned hread)

theorem lineup_rewind {stale : SplitBatch Record} {result : Called Unit} {recycled : List Nat}
    (h : SplitReader.rewind stale backend = (result, recycled, next))
    (hkeeps : ∀ id, backend.Keeps store id) (hreplay : backend.replay = []) :
    next.lineup store = stale.tidings ++ backend.lineup store := by
  cases h
  cases backend <;> exact Docket.lineup_takeBack (fun id => (hkeeps id).admits) hreplay

/-- The tidings of splits that were taken on come behind, if the news of each begin one story
together with those that were there.  What is taken away from nobody makes no difference. -/
theorem lineup_changed {change : SplitsChange Split} {recycled : List Nat}
    (h : Changed change backend recycled next) (hkeeps : ∀ id, backend.Keeps store id)
    (hspares : ∀ id, change.Spares store id)
    (hstory : ∀ id, ∃ later,
      IsStory (Tiding.newsOf id (backend.lineup store ++ change.tidings store) ++ later)) :
    next.lineup store = backend.lineup store ++ change.tidings store := by
  cases h with
  | gainRanges splits reader =>
      have htold : Docket.told RangeCursor.tale
          (splits.map fun split => { split, next := split.start }) =
            (SplitsChange.addition (splits.map .range)).tidings store := by
        simp only [Docket.told, SplitsChange.tidings, List.flatMap_map]
        rfl
      rw [← htold] at hstory ⊢
      exact Docket.lineup_gain (fun cursor => by simp [RangeCursor.tale]) hstory
  | gainFiles splits reader =>
      have htold : Docket.told (FileCursor.tale store) (splits.map fun split => { split }) =
          (SplitsChange.addition (splits.map .file)).tidings store := by
        simp only [Docket.told, SplitsChange.tidings, List.flatMap_map]
        refine List.flatMap_congr fun split hsplit => ?_
        have hreadable := hspares "" (.file split) (List.mem_map_of_mem hsplit)
        rw [Split.tale_file hreadable]
        rfl
      rw [← htold] at hstory ⊢
      refine Docket.lineup_gain (fun cursor => ?_) hstory
      simp only [FileCursor.tale]
      split <;> simp
  | loseRanges splits reader | loseFiles splits reader =>
      obtain rfl : splits = [] := List.eq_nil_iff_forall_not_mem.2 fun split hmem =>
        hspares _ _ (List.mem_map_of_mem hmem) rfl
      rw [SplitsChange.tidings, List.append_nil]
      exact Docket.lineup_lose fun id => (hkeeps id).admits

end Backend

end SplitFeed
