/-
# Where the records of splits are

As long as nothing is taken away from a reader, and what is fetched from it is given back unread or
not at all, no record and no end mark gets lost or doubled.  Each record of the splits that were
taken on is in a batch on loan, in a batch that waits to be handed out again, or still to be read;
each end mark is in one of those batches, or its split is under way.

The order of the tidings changes as batches come back, so the balance is one of permutations.
-/
import SplitFeed.Proofs.Reading.Lending
import SplitFeed.Proofs.Reading.Lineup
import SplitFeed.Proofs.Reading.Ready
import Mathlib.Data.List.Perm.Basic

namespace SplitFeed

/-! ### What cursors have still to read -/

/-- The records of a range that its cursor has still to read. -/
def RangeCursor.unread (cursor : RangeCursor) : List Record :=
  (List.range' cursor.next (cursor.split.stop - cursor.next)).map
    (RangeReader.recordOf cursor.split.id)

/-- The records of a file that its cursor has still to read, when the files stay as they are. -/
def FileCursor.unread (store : FileStore) (cursor : FileCursor) : List Record :=
  let source := match cursor.lines with
    | some lines => Except.ok lines
    | none => LineSource.ofPath cursor.split.path store
  match source with
  | .ok lines => lines.recordsFrom store cursor.lineNumber
  | .error _ => []

theorem RangeCursor.tale_eq (cursor : RangeCursor) :
    cursor.tale = cursor.unread.map some ++ [none] := rfl

theorem FileCursor.tale_eq (store : FileStore) (cursor : FileCursor) :
    cursor.tale store = (cursor.unread store).map some ++ [none] := by
  cases hlines : cursor.lines with
  | some lines => simp [tale, unread, hlines]
  | none =>
      cases hopened : LineSource.ofPath cursor.split.path store <;>
        simp [tale, unread, hlines, hopened]

namespace SplitBatch

variable {batch : SplitBatch Record}

theorem entries_tidings (batch : SplitBatch Record) :
    Tiding.entries batch.tidings = entriesOf batch.groups := by
  simp [Tiding.entries, tidings, entriesOf, List.filterMap_flatMap, List.filterMap_map]

theorem ended_tidings (batch : SplitBatch Record) :
    Tiding.ended batch.tidings = batch.finished.toList := by
  simp [Tiding.ended, tidings, List.filterMap_flatMap, List.filterMap_map]

theorem entries_batches (batches : List (SplitBatch Record)) :
    Tiding.entries (batches.flatMap (·.tidings)) = batches.flatMap (entriesOf ·.groups) := by
  simp only [Tiding.entries, List.filterMap_flatMap]
  exact List.flatMap_congr fun batch _ => entries_tidings batch

theorem ended_batches (batches : List (SplitBatch Record)) :
    Tiding.ended (batches.flatMap (·.tidings)) = batches.flatMap (·.finished.toList) := by
  simp only [Tiding.ended, List.filterMap_flatMap]
  exact List.flatMap_congr fun batch _ => ended_tidings batch

end SplitBatch

namespace Docket

variable {κ : Type} [HasSplitId κ] {left : κ → List Record} {tale : κ → List (Option Record)}
  {cursors : List κ} {docket : Docket κ} {stale : SplitBatch Record}

/-- The records that the cursors have still to read. -/
def unread (left : κ → List Record) (docket : Docket κ) : List (String × Record) :=
  docket.cursors.flatMap fun cursor => (left cursor).map (splitId cursor, ·)

theorem entries_told (htale : ∀ cursor, tale cursor = (left cursor).map some ++ [none])
    (docket : Docket κ) : Tiding.entries (told tale docket.cursors) = docket.unread left := by
  simp only [Tiding.entries, told, unread, List.filterMap_flatMap]
  refine List.flatMap_congr fun cursor _ => ?_
  simp [htale, List.filterMap_map, Function.comp_def]

theorem ended_told (htale : ∀ cursor, tale cursor = (left cursor).map some ++ [none])
    (cursors : List κ) : Tiding.ended (told tale cursors) = cursors.map splitId := by
  induction cursors with
  | nil => rfl
  | cons cursor cursors ih =>
      have hself : Tiding.ended ((tale cursor).map (splitId cursor, ·)) = [splitId cursor] := by
        simp [Tiding.ended, htale, List.filterMap_map, Function.comp_def]
      have htold : told tale (cursor :: cursors) =
          (tale cursor).map (splitId cursor, ·) ++ told tale cursors := rfl
      rw [htold, Tiding.ended_append, hself, ih]
      rfl

/-- Splits that are not under way are put on the docket behind the others. -/
theorem cursors_gain (honce : (docket.cursors.map splitId ++ cursors.map splitId).Nodup) :
    (docket.gain cursors).cursors = docket.cursors ++ cursors := by
  induction cursors generalizing docket with
  | nil => exact (List.append_nil _).symm
  | cons cursor cursors ih =>
      have hunder : docket.isUnderWay (splitId cursor) = false := by
        rw [← Bool.not_eq_true, isUnderWay, List.any_eq_true]
        rintro ⟨other, hother, hsame⟩
        exact (List.nodup_append.1 honce).2.2 _ (List.mem_map_of_mem hother) _
          List.mem_cons_self (beq_iff_eq.1 hsame)
      have henter : (docket.enter cursor).cursors = docket.cursors ++ [cursor] := by
        simp [enter, hunder]
      have hgain : docket.gain (cursor :: cursors) = (docket.enter cursor).gain cursors := rfl
      rw [hgain, ih, henter, List.append_assoc]
      · rfl
      · rw [henter, List.map_append, List.append_assoc]
        exact honce

/-- Their tidings join the lineup at its end. -/
theorem lineup_gain_of_nodup
    (honce : (docket.cursors.map splitId ++ cursors.map splitId).Nodup) :
    (docket.gain cursors).lineup tale = docket.lineup tale ++ told tale cursors := by
  simp [lineup, cursors_gain honce, told]

omit [HasSplitId κ] in
/-- A batch that comes back brings its tidings back. -/
theorem replay_takeBack (hadmits : ∀ id, docket.admits id = true) :
    (docket.takeBack stale).replay.flatMap (·.tidings) =
        docket.replay.flatMap (·.tidings) ++ stale.tidings ∧
      (docket.takeBack stale).cursors = docket.cursors := by
  have htidings := SplitBatch.tidings_retainSplits hadmits stale
  simp only [takeBack]
  split
  · next hempty => simp [← htidings, SplitBatch.tidings_of_isEmpty hempty]
  · simp [htidings]

theorem lineup_takeBack_perm (hadmits : ∀ id, docket.admits id = true) :
    ((docket.takeBack stale).lineup tale).Perm (stale.tidings ++ docket.lineup tale) := by
  rw [lineup, (replay_takeBack hadmits).1, (replay_takeBack hadmits).2, lineup,
    ← List.append_assoc]
  exact List.perm_append_comm.append_right _

end Docket

namespace Backend

variable {store : FileStore} {backend next : Backend}

/-- The records that the cursors of a reader have still to read, when the files stay as they
are. -/
def unread (store : FileStore) : Backend → List (String × Record)
  | ranges reader => reader.docket.unread RangeCursor.unread
  | files reader => reader.docket.unread (FileCursor.unread store)

/-- The ids of the splits with a cursor. -/
def underWay : Backend → List String
  | ranges reader => reader.docket.cursors.map splitId
  | files reader => reader.docket.cursors.map splitId

theorem entries_lineup (store : FileStore) (backend : Backend) :
    Tiding.entries (backend.lineup store) =
      backend.replay.flatMap (entriesOf ·.groups) ++ backend.unread store := by
  cases backend with
  | ranges reader =>
      rw [lineup, Docket.lineup, Tiding.entries_append, SplitBatch.entries_batches,
        Docket.entries_told RangeCursor.tale_eq]
      rfl
  | files reader =>
      rw [lineup, Docket.lineup, Tiding.entries_append, SplitBatch.entries_batches,
        Docket.entries_told (FileCursor.tale_eq store)]
      rfl

theorem ended_lineup (store : FileStore) (backend : Backend) :
    Tiding.ended (backend.lineup store) =
      backend.replay.flatMap (·.finished.toList) ++ backend.underWay := by
  cases backend with
  | ranges reader =>
      rw [lineup, Docket.lineup, Tiding.ended_append, SplitBatch.ended_batches,
        Docket.ended_told RangeCursor.tale_eq]
      rfl
  | files reader =>
      rw [lineup, Docket.lineup, Tiding.ended_append, SplitBatch.ended_batches,
        Docket.ended_told (FileCursor.tale_eq store)]
      rfl

/-- Splits that can be read and are not under way join the lineup when they are taken on. -/
theorem lineup_added {splits : List Split} {recycled : List Nat}
    (h : Changed (.addition splits) backend recycled next)
    (hreadable : ∀ split ∈ splits, split.IsReadable store)
    (honce : (backend.underWay ++ splits.map Split.id).Nodup) :
    next.lineup store = backend.lineup store ++ splits.flatMap (·.tidings store) := by
  cases h with
  | gainRanges splits reader =>
      have htold : Docket.told RangeCursor.tale
          (splits.map fun split => { split, next := split.start }) =
            (splits.map Split.range).flatMap (·.tidings store) := by
        simp only [Docket.told, List.flatMap_map]
        rfl
      rw [← htold]
      apply Docket.lineup_gain_of_nodup
      simpa [underWay, splitId, Split.id, Function.comp_def] using honce
  | gainFiles splits reader =>
      have htold : Docket.told (FileCursor.tale store) (splits.map fun split => { split }) =
          (splits.map Split.file).flatMap (·.tidings store) := by
        simp only [Docket.told, List.flatMap_map]
        refine List.flatMap_congr fun split hsplit => ?_
        rw [Split.tale_file (hreadable (.file split) (List.mem_map_of_mem hsplit))]
        rfl
      rw [← htold]
      apply Docket.lineup_gain_of_nodup
      simpa [underWay, splitId, Split.id, Function.comp_def] using honce

theorem lineup_rewind_perm (hkeeps : ∀ id, backend.Keeps store id) (stale : SplitBatch Record) :
    ((backend.rewind stale).lineup store).Perm (stale.tidings ++ backend.lineup store) := by
  cases backend <;> exact Docket.lineup_takeBack_perm fun id => (hkeeps id).admits

theorem lineup_of_isNew (h : backend.IsNew) : backend.lineup store = [] := by
  cases backend <;> simp only [lineup] <;> rw [h] <;> rfl

theorem isOpen_of_keeps {id : String} (h : backend.Keeps store id) : backend.isClosed = false := by
  cases backend <;> exact h.isOpen

end Backend

/-! ### The balance -/

namespace Lending

variable {store : FileStore} {taken : List Split} {lending next : Lending} {move : Move}

/-- The splits that a reader takes on in a move. -/
def added (lending : Lending) : Move → List Split
  | .change (.addition splits) => if lending.Hears (.addition splits) then splits else []
  | _ => []

/-- A move that adds splits which cannot be read, takes something away, reads from other files or in
a batch on loan, or closes the reader. -/
def Strays (store : FileStore) (lending : Lending) : Move → Prop
  | .change (.addition splits) => ∃ split ∈ lending.added (.change (.addition splits)),
      ¬ split.IsReadable store
  | .fetch files _ => files ≠ store
  | .giveBack _ | .wake => False
  | .change (.removal _) | .use _ _ | .close => True

/-- The records and the end marks of splits are each in one place, once. -/
structure Conserves (store : FileStore) (taken : List Split) (lending : Lending) : Prop where
  records : (lending.out.flatMap (entriesOf ·.groups) ++
    (lending.reader.replay.flatMap (entriesOf ·.groups) ++ lending.reader.unread store)).Perm
      (taken.flatMap (·.entries store))
  marks : (lending.out.flatMap (·.finished.toList) ++
    (lending.reader.replay.flatMap (·.finished.toList) ++ lending.reader.underWay)).Perm
      (taken.map Split.id)

/-- The reader can read all it has, and the tidings on loan and those that are still to come are the
tidings of the splits that were taken on. -/
structure Stocked (store : FileStore) (taken : List Split) (lending : Lending) : Prop where
  keeps : ∀ id, lending.reader.Keeps store id
  tidings : (lending.out.flatMap (·.tidings) ++ lending.reader.lineup store).Perm
    (taken.flatMap (·.tidings store))

theorem conserves_of_stocked (h : lending.Stocked store taken) : lending.Conserves store taken where
  records := by
    have hentries := Tiding.entries_perm h.tidings
    rwa [Tiding.entries_append, SplitBatch.entries_batches, Backend.entries_lineup,
      Tiding.entries_tidings] at hentries
  marks := by
    have hended := Tiding.ended_perm h.tidings
    rwa [Tiding.ended_append, SplitBatch.ended_batches, Backend.ended_lineup,
      Tiding.ended_tidings] at hended

/-- What is under way was taken on, so splits with other ids are new to the reader. -/
theorem nodup_underWay (h : lending.Stocked store taken) {splits : List Split}
    (honce : ((taken ++ splits).map Split.id).Nodup) :
    (lending.reader.underWay ++ splits.map Split.id).Nodup := by
  have hmarks := (conserves_of_stocked h).marks.append_right (splits.map Split.id)
  rw [List.map_append] at honce
  rw [← List.append_assoc, List.append_assoc] at hmarks
  exact (List.nodup_append.1 (hmarks.symm.nodup honce)).2.1

/-- One move keeps the balance. -/
theorem stocked_step (h : lending.Stocked store taken) (hmove : ¬ lending.Strays store move)
    (hstep : step move lending = some next)
    (honce : ((taken ++ lending.added move).map Split.id).Nodup) :
    next.Stocked store (taken ++ lending.added move) := by
  cases move with
  | change change =>
      cases change with
      | removal splits => exact (hmove trivial).elim
      | addition splits =>
          rcases change_cases hstep with
            ⟨recycled, reader, hheard, -, hchanged, rfl⟩ | ⟨hunheard, -, hsame⟩
          · have hadded : lending.added (.change (.addition splits)) = splits := if_pos hheard
            have hreadable : ∀ split ∈ splits, split.IsReadable store := by
              intro split hsplit
              by_contra hunreadable
              exact hmove ⟨split, hadded.symm ▸ hsplit, hunreadable⟩
            rw [hadded] at honce ⊢
            refine ⟨fun id => (Backend.keeps_changed hchanged (h.keeps id) hreadable).1, ?_⟩
            rw [Backend.lineup_added hchanged hreadable (nodup_underWay h honce),
              ← List.append_assoc, List.flatMap_append]
            exact h.tidings.append_right _
          · have hadded : lending.added (.change (.addition splits)) = [] := if_neg hunheard
            rw [hadded, List.append_nil, hsame]
            exact h
  | fetch files disturbed =>
      obtain rfl : files = store := not_not.1 hmove
      rcases fetch_cases hstep with ⟨batch, reader, hfetch, rfl⟩ | ⟨cause, reader, hfetch, rfl⟩
      · refine ⟨fun id => ?_, ?_⟩
        · obtain ⟨batch', next, hfetch', hnext⟩ := Backend.fetch_of_keeps (h.keeps id) disturbed
          obtain rfl : next = reader := (Prod.mk.inj (hfetch'.symm.trans hfetch)).2
          exact hnext
        · have hlineup := Backend.lineup_fetch hfetch (h.keeps "")
          have htidings := h.tidings
          rw [← hlineup] at htidings
          simpa [added] using htidings
      · obtain ⟨batch, next, hreturned, -⟩ := Backend.fetch_of_keeps (h.keeps "") disturbed
        cases hreturned.symm.trans hfetch
  | use place use => exact (hmove trivial).elim
  | giveBack place =>
      obtain ⟨stale, hstale, -, rfl⟩ := giveBack_cases hstep
      refine ⟨fun id => ?_, ?_⟩
      · have hkeeps := h.keeps id
        cases hreader : lending.reader <;> rw [hreader] at hkeeps <;>
          exact Docket.keeps_takeBack hkeeps
      · obtain ⟨hplace, hget⟩ := List.getElem?_eq_some_iff.1 hstale
        have hout : (stale.tidings ++ (lending.out.eraseIdx place).flatMap (·.tidings)).Perm
            (lending.out.flatMap (·.tidings)) := by
          rw [← List.flatMap_cons, ← hget]
          exact (List.getElem_cons_eraseIdx_perm hplace).flatMap_right _
        calc
          (lending.out.eraseIdx place).flatMap (·.tidings) ++
                (lending.reader.rewind stale).lineup store
              |>.Perm ((lending.out.eraseIdx place).flatMap (·.tidings) ++
                (stale.tidings ++ lending.reader.lineup store)) :=
                  (Backend.lineup_rewind_perm h.keeps stale).append_left _
          _ |>.Perm (lending.out.flatMap (·.tidings) ++ lending.reader.lineup store) := by
                rw [← List.append_assoc]
                exact (List.perm_append_comm.trans hout).append_right _
          _ |>.Perm ((taken ++ lending.added (.giveBack place)).flatMap (·.tidings store)) := by
                simpa [added] using h.tidings
  | wake =>
      obtain rfl := Option.some.inj hstep
      refine ⟨fun id => Backend.keeps_wake (h.keeps id), ?_⟩
      simpa [added] using h.tidings
  | close => exact (hmove trivial).elim

/-- Whatever is fetched and given back, in whatever order, the records and the end marks of the
splits that a new reader has taken on are each in one place, once.  The next fetch returns; as long
as batches wait to be handed out again, it returns the first of them and reads nothing. -/
theorem conserves_of_fresh {reader : Backend} (hnew : reader.IsNew) {moves : List Move}
    {last : Lending} (h : Course.follow step moves { reader } = some last)
    (hnever : Course.Never step (Strays store) moves { reader })
    (honce : ((Course.gather step added moves { reader }).map Split.id).Nodup) :
    last.Conserves store (Course.gather step added moves { reader }) ∧
      ∀ disturbed, ∃ batch next,
        SplitReader.fetch store disturbed last.reader = (.returned batch, next) ∧
          ∀ stale replay, last.reader.replay = stale :: replay →
            batch = stale ∧ next = last.reader.withReplay replay := by
  have hfirst : Stocked store [] { reader } := by
    refine ⟨fun id => Backend.keeps_of_isNew hnew, ?_⟩
    rw [Backend.lineup_of_isNew hnew]
    exact .nil
  -- the ids that a move adds are new only if all ids of the course differ, so the balance is
  -- carried along under that condition
  have hstep {move : Move} {lending next : Lending} {taken : List Split}
      (htaken : (taken.map Split.id).Nodup → Stocked store taken lending)
      (hmove : ¬ lending.Strays store move) (hstep : step move lending = some next)
      (honce : ((taken ++ lending.added move).map Split.id).Nodup) :
      Stocked store (taken ++ lending.added move) next := by
    refine stocked_step (htaken ?_) hmove hstep honce
    rw [List.map_append] at honce
    exact (List.nodup_append.1 honce).1
  have hstocked := Course.follow_gathers_of_never
    (fun taken lending => (taken.map Split.id).Nodup → Stocked store taken lending) hstep h hnever
    (fun _ => hfirst) honce
  refine ⟨conserves_of_stocked hstocked, fun disturbed => ?_⟩
  obtain ⟨batch, next, hfetch, -⟩ := Backend.fetch_of_keeps (hstocked.keeps "") disturbed
  refine ⟨batch, next, hfetch, fun stale replay hreplay => ?_⟩
  have hopen := Backend.isOpen_of_keeps (hstocked.keeps "")
  have hagain : SplitReader.fetch store disturbed last.reader =
      (.returned stale, last.reader.withReplay replay) := Backend.fetch_of_replay hopen hreplay
  obtain ⟨hbatch, rfl⟩ := Prod.mk.inj (hfetch.symm.trans hagain)
  exact ⟨Called.returned.inj hbatch, rfl⟩

/-- A range of three numbers and an empty one. -/
def threeAndNone : List Split := [.range ⟨"a", 0, 3⟩, .range ⟨"b", 0, 0⟩]

/-- The first range is read in two pieces, which come back in the wrong order. -/
def swapped : List Move :=
  [.change (.addition threeAndNone), .fetch .empty [], .wake, .fetch .empty [], .giveBack 1,
    .giveBack 0, .fetch .empty []]

/-- One piece is on loan then, the other one waits, and the empty range is under way. -/
theorem swapped_conserves :
    ∃ last, Course.follow step swapped { reader := .ranges (.withLimits 2 0) } = some last ∧
      last.Conserves .empty threeAndNone ∧ last.out.map (·.news "a") = [[some ⟨2, "a:2"⟩, none]] ∧
        last.reader.replay.map (·.news "a") = [[some ⟨0, "a:0"⟩, some ⟨1, "a:1"⟩]] ∧
          last.reader.underWay = ["b"] := by
  have hreadable : ∀ split ∈ threeAndNone, split.IsReadable .empty := by decide
  have hnever (lending : Lending) : Course.Never step (Strays .empty) swapped lending := by
    refine Course.never_of_forall _ (fun move hmove state => ?_) lending
    simp only [swapped, List.mem_cons, List.not_mem_nil, or_false] at hmove
    rcases hmove with rfl | rfl | rfl | rfl | rfl | rfl | rfl
    · rintro ⟨split, hsplit, hunreadable⟩
      refine hunreadable (hreadable split ?_)
      simp only [added] at hsplit
      split at hsplit
      · exact hsplit
      · cases hsplit
    all_goals simp [Strays]
  have hadded : Course.gather step added swapped { reader := .ranges (.withLimits 2 0) } =
      threeAndNone := by decide +kernel
  obtain ⟨last, hlast⟩ : ∃ last, Course.follow step swapped
      { reader := .ranges (.withLimits 2 0) } = some last :=
    Option.isSome_iff_exists.1 (by decide +kernel)
  have hnew : (Backend.ranges (.withLimits 2 0)).IsNew := rfl
  have hconserves := conserves_of_fresh hnew hlast (hnever _) (by rw [hadded]; decide)
  rw [hadded] at hconserves
  have hplaces : (Course.follow step swapped { reader := .ranges (.withLimits 2 0) }).map
      (fun last => (last.out.map (·.news "a"), last.reader.replay.map (·.news "a"),
        last.reader.underWay)) = some ([[some ⟨2, "a:2"⟩, none]],
          [[some ⟨0, "a:0"⟩, some ⟨1, "a:1"⟩]], ["b"]) := by
    decide +kernel
  rw [hlast, Option.map_some, Option.some.injEq, Prod.mk.injEq, Prod.mk.injEq] at hplaces
  exact ⟨last, hlast, hconserves.1, hplaces⟩

end Lending

end SplitFeed
