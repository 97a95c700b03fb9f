/-
# The roll of a reader

The roll of a reader names the splits that it has something to say of, in the order in which it
will be done with them: first those whose end marks wait in batches that came back, then those
under way.  A fetch moves end marks off its front, a batch that comes back puts them there again,
splits that are taken on come behind, and those that are taken away leave it.

`Leads` says the same of ids alone: what several changes, heard in order, make of a roll, as long
as nothing is taken on that is on it already.
-/
import SplitFeed.Proofs.Reading.Keeping

namespace SplitFeed

/-! ### Rolls of dockets -/

namespace Docket

variable {κ : Type} [HasSplitId κ]

/-- The splits with an end mark in a batch that came back, and the splits under way. -/
def roll (docket : Docket κ) : List String :=
  docket.replay.flatMap (·.finished.toList) ++ docket.cursors.map splitId

/-- Whatever is on the roll may be handed out. -/
def Admitting (docket : Docket κ) : Prop := ∀ id ∈ docket.roll, docket.admits id = true

variable {docket : Docket κ} {cursor : κ} {cursors : List κ} {ids : List String}
  {stale : SplitBatch Record}

theorem roll_enter (hfresh : splitId cursor ∉ docket.roll) :
    (docket.enter cursor).roll = docket.roll ++ [splitId cursor] := by
  have hunder : docket.isUnderWay (splitId cursor) = false := by
    simp only [isUnderWay, List.any_eq_false, beq_iff_eq]
    intro other hother hsame
    exact hfresh (List.mem_append_right _ (List.mem_map.2 ⟨other, hother, hsame⟩))
  simp [enter, hunder, roll]

theorem admits_enter (id : String) :
    (docket.enter cursor).admits id = (docket.admits id || id == splitId cursor) := by
  have hremoved : (docket.enter cursor).removed = docket.removed.erase (splitId cursor) := by
    simp only [enter]
    split <;> rfl
  rw [admits, hremoved, IdSet.contains_erase, admits, Bool.eq_iff_iff]
  by_cases hsame : id = splitId cursor <;> simp [hsame]

theorem admitting_enter (h : docket.Admitting) (hfresh : splitId cursor ∉ docket.roll) :
    (docket.enter cursor).Admitting := by
  intro id hid
  rw [roll_enter hfresh, List.mem_append, List.mem_singleton] at hid
  rw [admits_enter]
  rcases hid with hold | rfl
  · simp [h id hold]
  · simp

/-- Splits that are new to the roll come behind it. -/
theorem roll_gain (h : docket.Admitting) (honce : (docket.roll ++ cursors.map splitId).Nodup) :
    (docket.gain cursors).roll = docket.roll ++ cursors.map splitId ∧
      (docket.gain cursors).Admitting := by
  induction cursors generalizing docket with
  | nil => exact ⟨by simp [gain], h⟩
  | cons cursor cursors ih =>
      have hfresh : splitId cursor ∉ docket.roll := by
        intro hmem
        simp only [List.map_cons, List.nodup_append, List.mem_cons] at honce
        exact honce.2.2 _ hmem _ (.inl rfl) rfl
      have hroll := roll_enter hfresh
      rw [List.map_cons, List.append_cons] at honce
      obtain ⟨hgain, hadmitting⟩ := ih (admitting_enter h hfresh) (hroll ▸ honce)
      refine ⟨?_, hadmitting⟩
      rw [hroll, List.append_assoc] at hgain
      exact hgain

theorem finished_of_isEmpty {batch : SplitBatch Record} (h : batch.isEmpty = true) :
    batch.finished.toList = [] := by
  simp only [SplitBatch.isEmpty, Bool.and_eq_true, IdSet.isEmpty, List.isEmpty_iff] at h
  exact h.2

/-- A sweep leaves the end marks that pass. -/
theorem finished_swept (keep : String → Bool) (replay : List (SplitBatch Record)) :
    ((replay.map (·.retainSplits keep)).filter (!·.isEmpty)).flatMap (·.finished.toList) =
      (replay.flatMap (·.finished.toList)).filter keep := by
  induction replay with
  | nil => rfl
  | cons batch replay ih =>
      rw [List.map_cons, List.flatMap_cons, List.filter_append, ← ih]
      have hkept : (batch.retainSplits keep).finished.toList = batch.finished.toList.filter keep :=
        rfl
      by_cases hempty : (batch.retainSplits keep).isEmpty = true
      · simp [hempty, ← hkept, finished_of_isEmpty hempty]
      · simp [hempty, ← hkept]

/-- Splits that are taken away leave the roll. -/
theorem roll_lose (h : docket.Admitting) :
    (docket.lose ids).2.roll = docket.roll.filter (fun id => !ids.contains id) ∧
      (docket.lose ids).2.Admitting := by
  have hroll : (docket.lose ids).2.roll = docket.roll.filter fun id => !ids.contains id := by
    have hreplay := finished_swept (docket.lose ids).2.admits docket.replay
    have hcursors : (docket.lose ids).2.cursors.map splitId =
        (docket.cursors.map splitId).filter fun id => !ids.contains id := by
      simp [lose, List.filter_map, Function.comp_def]
    rw [roll, hcursors, roll, List.filter_append]
    refine congrArg (· ++ _) (hreplay.trans (List.filter_congr fun id hid => ?_))
    rw [admits_lose, h id (List.mem_append_left _ hid), Bool.and_true]
  refine ⟨hroll, fun id hid => ?_⟩
  rw [hroll, List.mem_filter] at hid
  rw [admits_lose, hid.2, h id hid.1]
  rfl

/-- A batch that comes back when no other does puts its end marks in front again. -/
theorem roll_takeBack (hreplay : docket.replay = [])
    (hadmits : ∀ id ∈ stale.finished.toList, docket.admits id = true) :
    (docket.takeBack stale).roll = stale.finished.toList ++ docket.roll := by
  have hkept : (stale.retainSplits docket.admits).finished.toList = stale.finished.toList :=
    List.filter_eq_self.2 hadmits
  simp only [takeBack]
  split
  · next hempty => rw [← hkept, finished_of_isEmpty hempty, List.nil_append]
  · simp [roll, hreplay, hkept]

omit [HasSplitId κ] in
theorem admits_takeBack (id : String) : (docket.takeBack stale).admits id = docket.admits id := by
  simp only [takeBack]
  split <;> rfl

end Docket

/-! ### Rolls of the built-in readers -/

/-- What a fetch makes of a docket, by the end marks that it brings back. -/
structure Docket.Fetched {κ : Type} [HasSplitId κ] (ended : List String)
    (docket next : Docket κ) : Prop where
  roll : ended ++ next.roll = docket.roll
  replay : next.replay = docket.replay.tail
  removed : next.removed = docket.removed

theorem SplitBatch.finished_finishSplit (id : String) (records : List Record) :
    ((SplitBatch.empty.addRecords id records).finishSplit id).finished.toList = [id] := by
  cases records <;> rfl

/-- A fetch moves the end mark of a range off the roll. -/
theorem RangeReader.fetched {disturbed : List Bool} {reader next : RangeReader}
    {batch : SplitBatch Record} (h : reader.fetch disturbed = (.returned batch, next)) :
    Docket.Fetched batch.finished.toList reader.docket next.docket := by
  have hquiet : (SplitBatch.empty : SplitBatch Record).finished.toList = [] := rfl
  simp only [fetch] at h
  generalize (if reader.delayMs = 0 then _ else _ : Bool × WakeFlag) = nap at h
  obtain ⟨woken, flag⟩ := nap
  split at h
  · cases h
  · split at h
    · next _ stale replay hreplay =>
        cases h
        exact ⟨by simp [Docket.roll, hreplay], by simp [hreplay], rfl⟩
    · next hreplay hcursors =>
        cases h
        exact ⟨by simp [Docket.roll, hreplay, hcursors, hquiet], by simp [hreplay], rfl⟩
    · next cursor others hreplay hcursors =>
        cases woken with
        | true =>
            cases h
            exact ⟨by simp [Docket.roll, hreplay, hcursors, hquiet], by simp [hreplay], rfl⟩
        | false =>
            cases h
            refine ⟨?_, by simp [hreplay], rfl⟩
            simp only [Docket.roll, hreplay, hcursors, List.flatMap_nil, List.nil_append,
              List.map_append, List.map_cons, left_piece, ← List.append_assoc]
            by_cases hend : cursor.split.stop ≤ pieceEnd reader.maxRecords cursor
            · simp [piece, hend, SplitBatch.finished_finishSplit, splitId]
            · simp [piece, hend, SplitBatch.finished_addRecords, hquiet, splitId]

/-- A fetch moves the end mark of a file off the roll. -/
theorem FileReader.fetched {store : FileStore} {disturbed : List Bool} {reader next : FileReader}
    {batch : SplitBatch Record} (h : reader.fetch store disturbed = (.returned batch, next)) :
    Docket.Fetched batch.finished.toList reader.docket next.docket := by
  have hquiet : (SplitBatch.empty : SplitBatch Record).finished.toList = [] := rfl
  simp only [fetch] at h
  split at h
  · cases h
  · split at h
    · next _ stale replay hreplay =>
        cases h
        exact ⟨by simp [Docket.roll, hreplay], by simp [hreplay], rfl⟩
    · next hreplay hcursors =>
        cases h
        exact ⟨by simp [Docket.roll, hreplay, hcursors, hquiet], by simp [hreplay], rfl⟩
    · next cursor others hreplay hcursors =>
        split at h
        · cases h
        · split at h
          · cases h
          · split at h
            · cases h
              refine ⟨?_, by simp [hreplay], rfl⟩
              simp [Docket.roll, hreplay, hcursors, SplitBatch.finished_finishSplit, splitId]
            · cases h
              refine ⟨?_, by simp [hreplay], rfl⟩
              simp [Docket.roll, hreplay, hcursors, SplitBatch.finished_addRecords, hquiet, splitId]

/-- A reader of files that fails to fetch has the roll of before. -/
theorem FileReader.fetched_of_failed {store : FileStore} {disturbed : List Bool}
    {reader next : FileReader} {cause : Failure}
    (h : reader.fetch store disturbed = (.failed cause, next)) :
    next.docket.roll = reader.docket.roll ∧ next.docket.replay = reader.docket.replay ∧
      next.docket.removed = reader.docket.removed := by
  simp only [fetch] at h
  split at h
  · cases h
    exact ⟨rfl, rfl, rfl⟩
  · split at h
    · cases h
    · cases h
    · next cursor others hreplay hcursors =>
        split at h
        · cases h
          exact ⟨rfl, rfl, rfl⟩
        · split at h
          · cases h
            exact ⟨by simp [Docket.roll, hreplay, hcursors, splitId], rfl, rfl⟩
          · split at h <;> cases h

/-! ### What several changes make of a roll -/

/-- Changes, heard in order, lead from one roll to another; nothing is added that is on the roll
at its turn. -/
inductive Leads : List (SplitsChange Split) → List String → List String → Prop
  | done (ids : List String) : Leads [] ids ids
  | gain {splits rest ids last} (honce : (ids ++ splits.map Split.id).Nodup)
      (hrest : Leads rest (ids ++ splits.map Split.id) last) :
      Leads (.addition splits :: rest) ids last
  | lose {splits rest ids last}
      (hrest : Leads rest (ids.filter fun id => !(splits.map Split.id).contains id) last) :
      Leads (.removal splits :: rest) ids last

namespace Leads

variable {changes more : List (SplitsChange Split)} {ids mid last ended : List String}

theorem append (hfirst : Leads changes ids mid) (hsecond : Leads more mid last) :
    Leads (changes ++ more) ids last := by
  induction hfirst with
  | done => exact hsecond
  | gain honce _ ih => exact .gain honce (ih hsecond)
  | lose _ ih => exact .lose (ih hsecond)

/-- One change leads to where the others go on. -/
theorem rest {change : SplitsChange Split} (hone : Leads [change] ids mid)
    (hall : Leads (change :: changes) ids last) : Leads changes mid last := by
  cases hone with
  | gain _ hnone | lose hnone =>
      cases hnone
      cases hall
      assumption

theorem nodup (h : Leads changes ids last) (honce : ids.Nodup) : last.Nodup := by
  induction h with
  | done => exact honce
  | gain hnew _ ih => exact ih hnew
  | lose _ ih => exact ih (honce.filter _)

/-- What is on the roll in the end was there or was added. -/
theorem mem_or_adds (h : Leads changes ids last) {id : String} (hid : id ∈ last) :
    id ∈ ids ∨ ∃ change ∈ changes, change.adds id = true := by
  induction h with
  | done => exact .inl hid
  | @gain splits rest _ _ _ _ ih =>
      rcases ih hid with hmem | ⟨change, hmem, hadds⟩
      · rcases List.mem_append.1 hmem with hold | hnew
        · exact .inl hold
        · obtain ⟨split, hsplit, rfl⟩ := List.mem_map.1 hnew
          exact .inr ⟨_, List.mem_cons_self, List.any_eq_true.2 ⟨split, hsplit, by simp⟩⟩
      · exact .inr ⟨change, List.mem_cons_of_mem _ hmem, hadds⟩
  | lose _ ih =>
      rcases ih hid with hmem | ⟨change, hmem, hadds⟩
      · exact .inl (List.mem_filter.1 hmem).1
      · exact .inr ⟨change, List.mem_cons_of_mem _ hmem, hadds⟩

/-- Some of the ids in front stay in front and are never added; what comes behind them is what the
changes make of the roll without the ids in front. -/
theorem split_front (h : Leads changes (ended ++ ids) last) :
    ∃ kept rest, last = kept ++ rest ∧ kept.Sublist ended ∧ Leads changes ids rest ∧
      ∀ id ∈ kept, ∀ change ∈ changes, change.adds id = false := by
  generalize hroll : ended ++ ids = roll at h
  induction h generalizing ended ids with
  | done => exact ⟨ended, ids, hroll.symm, .refl _, .done _, by simp⟩
  | @gain splits later _ _ honce _ ih =>
      subst hroll
      obtain ⟨kept, rest, hlast, hsub, hleads, hnever⟩ := ih (List.append_assoc ..).symm
      refine ⟨kept, rest, hlast, hsub, .gain ?_ hleads, ?_⟩
      · rw [List.append_assoc] at honce
        exact (List.nodup_append.1 honce).2.1
      · intro id hid change hchange
        rcases List.mem_cons.1 hchange with rfl | hlater
        · simp only [SplitsChange.adds, List.any_eq_false, beq_iff_eq]
          intro split hsplit hsame
          have hfront : id ∈ ended ++ ids := List.mem_append_left _ (hsub.subset hid)
          exact (List.nodup_append.1 honce).2.2 id hfront split.id
            (List.mem_map_of_mem hsplit) hsame.symm
        · exact hnever id hid change hlater
  | @lose splits later _ _ _ ih =>
      subst hroll
      obtain ⟨kept, rest, hlast, hsub, hleads, hnever⟩ := ih (List.filter_append ..).symm
      refine ⟨kept, rest, hlast, hsub.trans List.filter_sublist, .lose hleads, ?_⟩
      intro id hid change hchange
      rcases List.mem_cons.1 hchange with rfl | hlater
      · rfl
      · exact hnever id hid change hlater

/-- What is left of a roll when the ids in front are done with is what the changes make of the rest,
unless one of these ids was added again. -/
theorem done_with_front (h : Leads changes (ended ++ ids) last) (honce : (ended ++ ids).Nodup) :
    ∃ rest, Leads changes ids rest ∧ rest.Sublist last ∧
      (rest = last.filter (fun id => !ended.contains id) ↔
        ∀ id ∈ last, id ∈ ended → ∀ change ∈ changes, change.adds id = false) := by
  obtain ⟨kept, rest, rfl, hsub, hleads, hnever⟩ := h.split_front
  refine ⟨rest, hleads, List.sublist_append_right _ _, ?_⟩
  have hkept : kept.filter (fun id => !ended.contains id) = [] := by
    simpa using fun id hid => hsub.subset hid
  rw [List.filter_append, hkept, List.nil_append]
  constructor
  · intro hrest id hid hended change hchange
    rcases List.mem_append.1 hid with hfront | hback
    · exact hnever id hfront change hchange
    · rw [hrest, List.mem_filter] at hback
      simp [hended] at hback
  · intro hadds
    refine (List.filter_eq_self.2 fun id hid => ?_).symm
    simp only [Bool.not_eq_true', List.contains_eq_mem, decide_eq_false_iff_not]
    intro hended
    have hnew : id ∉ ids := fun hmem => (List.nodup_append.1 honce).2.2 id hended id hmem rfl
    obtain ⟨change, hchange, hadd⟩ := (hleads.mem_or_adds hid).resolve_left hnew
    simp [hadds id (List.mem_append_right _ hid) hended change hchange] at hadd

end Leads

/-! ### Either reader -/

namespace Backend

/-- The splits that a reader has something to say of. -/
def roll : Backend → List String
  | ranges reader => reader.docket.roll
  | files reader => reader.docket.roll

/-- Whether a reader may hand out a split. -/
def admits (id : String) : Backend → Bool
  | ranges reader => reader.docket.admits id
  | files reader => reader.docket.admits id

/-- Whatever is on a reader's roll may be handed out. -/
def Admitting (backend : Backend) : Prop := ∀ id ∈ backend.roll, backend.admits id = true

/-- The reader after it has heard of changes, one after the other. -/
def heard (changes : List (SplitsChange Split)) (backend : Backend) : Backend :=
  changes.foldl (fun reader change => (SplitReader.change change reader).2.2) backend

variable {changes : List (SplitsChange Split)} {change : SplitsChange Split}
  {backend next : Backend} {recycled : List Nat} {ids last : List String}
  {store : FileStore} {disturbed : List Bool} {batch : SplitBatch Record}

/-- A change that is taken note of does to the roll what it does to ids. -/
theorem leads_changed (h : Changed change backend recycled next) (hadmitting : backend.Admitting)
    (hleads : Leads (change :: changes) backend.roll last) :
    Leads [change] backend.roll next.roll ∧ next.Admitting := by
  cases h with
  | gainRanges splits reader =>
      cases hleads with
      | gain honce _ =>
          have hids : (splits.map fun split => ({ split, next := split.start } : RangeCursor)).map
              splitId = (splits.map Split.range).map Split.id := by simp [splitId, Split.id]
          obtain ⟨hroll, hadmitting⟩ := Docket.roll_gain hadmitting (hids ▸ honce)
          refine ⟨.gain honce ?_, hadmitting⟩
          rw [← hids, roll, roll, hroll]
          exact .done _
  | gainFiles splits reader =>
      cases hleads with
      | gain honce _ =>
          have hids : (splits.map fun split => ({ split } : FileCursor)).map splitId =
              (splits.map Split.file).map Split.id := by simp [splitId, Split.id]
          obtain ⟨hroll, hadmitting⟩ := Docket.roll_gain hadmitting (hids ▸ honce)
          refine ⟨.gain honce ?_, hadmitting⟩
          rw [← hids, roll, roll, hroll]
          exact .done _
  | loseRanges splits reader | loseFiles splits reader =>
      obtain ⟨hroll, hadmitting⟩ := Docket.roll_lose hadmitting
      refine ⟨.lose ?_, hadmitting⟩
      rw [List.map_map, roll, roll, hroll]
      exact .done _

/-- Changes bring no batches back. -/
theorem replay_changed_le (h : Changed change backend recycled next) :
    next.replay.length ≤ backend.replay.length := by
  cases h with
  | gainRanges | gainFiles => simp [replay]
  | loseRanges | loseFiles => exact Docket.replay_lose_le _ _

/-- Changes that suit a reader lead from its roll to the one it has when it has heard of them. -/
theorem roll_heard (hsuits : ∀ change ∈ changes, Suits backend.sort change)
    (hadmitting : backend.Admitting) (hleads : Leads changes backend.roll last) :
    (heard changes backend).roll = last := by
  induction changes generalizing backend with
  | nil =>
      cases hleads
      rfl
  | cons change changes ih =>
      obtain ⟨recycled, next, hcall, hchanged⟩ := change_of_suits (hsuits change List.mem_cons_self)
      obtain ⟨hone, hnext⟩ := leads_changed hchanged hadmitting hleads
      have hheard : heard (change :: changes) backend = heard changes next := by
        rw [heard, List.foldl_cons, hcall, heard]
      rw [hheard]
      refine ih (fun other hother => ?_) hnext (hone.rest hleads)
      rw [sort_changed hchanged]
      exact hsuits other (List.mem_cons_of_mem _ hother)

theorem heard_append (first second : List (SplitsChange Split)) (backend : Backend) :
    heard (first ++ second) backend = heard second (heard first backend) :=
  List.foldl_append

/-- A list is converted only if all that is on it can be. -/
theorem exists_of_mapM_ok {σ τ : Type} {convert : σ → Except Failure τ} {splits : List σ}
    {converted : List τ} (h : splits.mapM convert = .ok converted) :
    ∀ split ∈ splits, ∃ result, convert split = .ok result := by
  induction splits generalizing converted with
  | nil => exact fun split hmem => (List.not_mem_nil hmem).elim
  | cons split splits ih =>
      rw [List.mapM_cons] at h
      cases hfirst : convert split with
      | error failure => simp [hfirst, bind, Except.bind] at h
      | ok result =>
          cases hrest : splits.mapM convert with
          | error failure => simp [hfirst, hrest, bind, Except.bind] at h
          | ok results => exact List.forall_mem_cons.2 ⟨⟨result, hfirst⟩, ih hrest⟩

/-- A change with a split of the wrong sort is refused. -/
theorem refused_of_not_suits (h : ¬ Suits backend.sort change) :
    ∃ cause, SplitReader.change change backend = (.failed cause, [], backend) := by
  cases backend with
  | ranges reader =>
      cases hconvert : change.splits.mapM wantRange with
      | error failure =>
          refine ⟨failure, ?_⟩
          simp [SplitReader.change, Backend.change, SplitsChange.tryMap, hconvert, bind,
            Except.bind]
      | ok converted =>
          refine absurd (fun split hsplit => ?_) h
          obtain ⟨range, hrange⟩ := exists_of_mapM_ok hconvert split hsplit
          cases split with
          | range _ => rfl
          | file _ => cases hrange
  | files reader =>
      cases hconvert : change.splits.mapM wantFile with
      | error failure =>
          refine ⟨failure, ?_⟩
          simp [SplitReader.change, Backend.change, SplitsChange.tryMap, hconvert, bind,
            Except.bind]
      | ok converted =>
          refine absurd (fun split hsplit => ?_) h
          obtain ⟨file, hfile⟩ := exists_of_mapM_ok hconvert split hsplit
          cases split with
          | file _ => rfl
          | range _ => cases hfile

/-- It goes unheard. -/
theorem change_of_not_suits (h : ¬ Suits backend.sort change) :
    (SplitReader.change change backend).2.2 = backend := by
  obtain ⟨cause, hcall⟩ := refused_of_not_suits h
  rw [hcall]

/-- Hearing of changes does not make a reader one of another sort. -/
theorem sort_heard (changes : List (SplitsChange Split)) (backend : Backend) :
    (heard changes backend).sort = backend.sort := by
  induction changes generalizing backend with
  | nil => rfl
  | cons change changes ih =>
      have hchange : (SplitReader.change change backend).2.2.sort = backend.sort := by
        by_cases hsuits : Suits backend.sort change
        · obtain ⟨recycled, next, hcall, hchanged⟩ := change_of_suits hsuits
          rw [hcall]
          exact sort_changed hchanged
        · rw [change_of_not_suits hsuits]
      exact (ih _).trans hchange

/-- A fetch moves end marks off the front of the roll, those that came back first. -/
theorem fetched (h : SplitReader.fetch store disturbed backend = (.returned batch, next)) :
    batch.finished.toList ++ next.roll = backend.roll ∧ next.replay = backend.replay.tail ∧
      ∀ id, next.admits id = backend.admits id := by
  cases reads_of_fetch h with
  | ranges hread =>
      have hfetched := RangeReader.fetched hread
      exact ⟨hfetched.roll, hfetched.replay, fun id => by
        simp only [admits, Docket.admits, hfetched.removed]⟩
  | files hread =>
      have hfetched := FileReader.fetched hread
      exact ⟨hfetched.roll, hfetched.replay, fun id => by
        simp only [admits, Docket.admits, hfetched.removed]⟩

/-- A fetch that fails leaves the roll as it is. -/
theorem fetched_of_failed {cause : Failure}
    (h : SplitReader.fetch store disturbed backend = (.failed cause, next)) :
    next.roll = backend.roll ∧ next.replay = backend.replay ∧
      ∀ id, next.admits id = backend.admits id := by
  cases reads_of_fetch h with
  | ranges hread =>
      obtain rfl := RangeReader.eq_of_fetchFailed hread
      exact ⟨rfl, rfl, fun _ => rfl⟩
  | files hread =>
      obtain ⟨hroll, hreplay, hremoved⟩ := FileReader.fetched_of_failed hread
      exact ⟨hroll, hreplay, fun id => by simp only [admits, Docket.admits, hremoved]⟩

/-- A batch that comes back when no other does puts its end marks in front again. -/
theorem roll_rewind (hreplay : backend.replay = [])
    (hadmits : ∀ id ∈ batch.finished.toList, backend.admits id = true) :
    (backend.rewind batch).roll = batch.finished.toList ++ backend.roll := by
  cases backend <;> exact Docket.roll_takeBack hreplay hadmits

theorem replay_rewind_le (hreplay : backend.replay = []) :
    (backend.rewind batch).replay.length ≤ 1 := by
  cases backend <;> exact Docket.replay_takeBack_le hreplay

@[simp]
theorem roll_wake (backend : Backend) : (SplitReader.wake backend).roll = backend.roll := by
  cases backend <;> rfl

@[simp]
theorem admits_wake (id : String) (backend : Backend) :
    (SplitReader.wake backend).admits id = backend.admits id := by
  cases backend <;> rfl

theorem roll_of_isNew (h : backend.IsNew) : backend.roll = [] := by
  cases backend <;> simp only [roll] <;> rw [h] <;> rfl

theorem admits_rewind (id : String) : (backend.rewind batch).admits id = backend.admits id := by
  cases backend <;> exact Docket.admits_takeBack id

end Backend

end SplitFeed
