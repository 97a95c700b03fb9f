/-
# Readers that know nothing of a split any more

A docket is rid of a split if no cursor is for it and no batch to be handed out again has news of
it.  A removal gets the docket rid of a split; fetching, taking batches back that have no news of
it and changes that do not add it keep it so.  The built-in readers inherit this from their
dockets.
-/
import SplitFeed.Proofs.Reading.Changes
import SplitFeed.Proofs.Reading.Outlook

namespace SplitFeed

namespace Docket

variable {κ : Type} [HasSplitId κ]

/-- Nothing on the docket is about a split. -/
structure RidOf (id : String) (docket : Docket κ) : Prop where
  cursors : ∀ cursor ∈ docket.cursors, splitId cursor ≠ id
  replay : ∀ batch ∈ docket.replay, batch.news id = []

variable {id : String} {docket : Docket κ}

theorem ridOf_enter {cursor : κ} (h : docket.RidOf id) (hne : splitId cursor ≠ id) :
    (docket.enter cursor).RidOf id := by
  unfold enter
  split
  · exact ⟨h.cursors, h.replay⟩
  · refine ⟨?_, h.replay⟩
    intro other hother
    rcases List.mem_append.1 hother with hold | hnew
    · exact h.cursors other hold
    · rw [List.mem_singleton.1 hnew]
      exact hne

theorem ridOf_gain {cursors : List κ} (h : docket.RidOf id)
    (hne : ∀ cursor ∈ cursors, splitId cursor ≠ id) : (docket.gain cursors).RidOf id := by
  induction cursors generalizing docket with
  | nil => exact h
  | cons cursor cursors ih =>
      exact ih (ridOf_enter h (hne cursor List.mem_cons_self))
        fun other hother => hne other (List.mem_cons_of_mem _ hother)

theorem admits_lose (ids : List String) (docket : Docket κ) (id : String) :
    (docket.lose ids).2.admits id = (!ids.contains id && docket.admits id) := by
  simp [lose, admits, IdSet.contains_insertAll]

/-- What a sweep leaves is the batches of before without the removed splits. -/
theorem mem_replay_lose {ids : List String} {batch : SplitBatch Record}
    (h : batch ∈ (docket.lose ids).2.replay) :
    ∃ earlier ∈ docket.replay,
      batch = earlier.retainSplits (docket.lose ids).2.admits := by
  simp only [lose, List.mem_filter, List.mem_map] at h
  obtain ⟨⟨earlier, hmem, rfl⟩, -⟩ := h
  exact ⟨earlier, hmem, rfl⟩

/-- A removal gets the docket rid of what it removes. -/
theorem ridOf_lose_self {ids : List String} (hid : id ∈ ids) : (docket.lose ids).2.RidOf id := by
  constructor
  · intro cursor hcursor heq
    simp only [lose, List.mem_filter] at hcursor
    simp [heq, hid] at hcursor
  · intro batch hbatch
    obtain ⟨earlier, -, rfl⟩ := mem_replay_lose hbatch
    rw [SplitBatch.news_retainSplits, admits_lose]
    simp [hid]

theorem ridOf_lose {ids : List String} (h : docket.RidOf id) : (docket.lose ids).2.RidOf id := by
  constructor
  · intro cursor hcursor
    simp only [lose, List.mem_filter] at hcursor
    exact h.cursors cursor hcursor.1
  · intro batch hbatch
    obtain ⟨earlier, hmem, rfl⟩ := mem_replay_lose hbatch
    rw [SplitBatch.news_retainSplits, h.replay earlier hmem]
    simp

theorem ridOf_takeBack {stale : SplitBatch Record} (h : docket.RidOf id)
    (hstale : stale.news id = []) : (docket.takeBack stale).RidOf id := by
  simp only [takeBack]
  split
  · exact h
  · refine ⟨h.cursors, ?_⟩
    intro batch hbatch
    rcases List.mem_append.1 hbatch with hold | hnew
    · exact h.replay batch hold
    · rw [List.mem_singleton.1 hnew, SplitBatch.news_retainSplits, hstale]
      simp

theorem ridOf_wake (h : docket.RidOf id) : docket.wake.RidOf id := ⟨h.cursors, h.replay⟩

theorem ridOf_close : docket.close.RidOf id :=
  ⟨fun _ h => (List.not_mem_nil h).elim, fun _ h => (List.not_mem_nil h).elim⟩

/-- A docket is rid of a split when it has nothing to tell of it. -/
theorem outlook_eq_nil {tale : κ → List (Option Record)} (htale : ∀ cursor, tale cursor ≠ []) :
    docket.outlook tale id = [] ↔ docket.RidOf id := by
  simp only [outlook, List.append_eq_nil_iff, List.flatMap_eq_nil_iff, List.mem_filter,
    beq_iff_eq, and_imp]
  constructor
  · rintro ⟨hreplay, hcursors⟩
    exact ⟨fun cursor hmem hid => htale cursor (hcursors cursor hmem hid), hreplay⟩
  · intro h
    exact ⟨h.replay, fun cursor hmem hid => absurd hid (h.cursors cursor hmem)⟩

end Docket

/-- Only a closed reader of ranges fails to fetch. -/
theorem RangeReader.eq_of_fetchFailed {disturbed : List Bool} {reader next : RangeReader}
    {cause : Failure} (h : reader.fetch disturbed = (.failed cause, next)) : next = reader := by
  simp only [RangeReader.fetch] at h
  generalize (if reader.delayMs = 0 then _ else _ : Bool × WakeFlag) = nap at h
  obtain ⟨woken, flag⟩ := nap
  split at h
  · cases h
    rfl
  · split at h
    · cases h
    · cases h
    · cases woken <;> cases h

/-- A reader of files that fails to fetch keeps its cursors and its batches. -/
theorem FileReader.ridOf_fetchFailed {id : String} {store : FileStore} {disturbed : List Bool}
    {reader next : FileReader} {cause : Failure}
    (h : reader.fetch store disturbed = (.failed cause, next)) (hrid : reader.docket.RidOf id) :
    next.docket.RidOf id := by
  simp only [FileReader.fetch] at h
  split at h
  · cases h
    exact hrid
  · split at h
    · cases h
    · cases h
    · next cursor others hreplay hcursors =>
        split at h
        · cases h
          exact hrid
        · split at h
          · cases h
            refine ⟨?_, hrid.replay⟩
            intro other hother
            rcases List.mem_cons.1 hother with rfl | hmem
            · exact hrid.cursors cursor (by simp [hcursors])
            · exact hrid.cursors other (by simp [hcursors, hmem])
          · split at h <;> cases h

namespace Backend

/-- Nothing that the reader holds is about a split. -/
def RidOf (id : String) : Backend → Prop
  | ranges reader => reader.docket.RidOf id
  | files reader => reader.docket.RidOf id

/-! ### Getting rid of a split -/

variable {id : String} {change : SplitsChange Split} {backend next : Backend}
  {recycled : List Nat}

/-- A removal gets the reader rid of a split. -/
theorem ridOf_removal (h : Changed change backend recycled next)
    (hremoves : change.removes id = true) : next.RidOf id := by
  cases h with
  | gainRanges | gainFiles => simp [SplitsChange.removes] at hremoves
  | loseRanges splits reader | loseFiles splits reader =>
      apply Docket.ridOf_lose_self
      simpa [SplitsChange.removes, Split.id] using hremoves

/-- A change that does not add a split leaves the reader rid of it. -/
theorem ridOf_changed (h : Changed change backend recycled next) (hrid : backend.RidOf id)
    (hadds : change.adds id = false) : next.RidOf id := by
  cases h with
  | gainRanges splits reader | gainFiles splits reader =>
      apply Docket.ridOf_gain hrid
      intro cursor hcursor
      obtain ⟨split, hsplit, rfl⟩ := List.mem_map.1 hcursor
      simp only [SplitsChange.adds, List.any_map, List.any_eq_false] at hadds
      simpa [splitId, Split.id] using hadds split hsplit
  | loseRanges splits reader | loseFiles splits reader => exact Docket.ridOf_lose hrid

theorem outlook_eq_nil (store : FileStore) : backend.outlook store id = [] ↔ backend.RidOf id := by
  cases backend with
  | ranges reader => exact Docket.outlook_eq_nil fun cursor => by simp [RangeCursor.tale]
  | files reader =>
      refine Docket.outlook_eq_nil fun cursor => ?_
      simp only [FileCursor.tale]
      split <;> simp

theorem fitsAt_of_ridOf (h : backend.RidOf id) : backend.FitsAt id := by
  cases backend with
  | ranges reader => exact fun cursor hcursor hid => absurd hid (h.cursors cursor hcursor)
  | files reader => trivial

/-- A reader that is rid of a split fetches nothing of it. -/
theorem ridOf_fetch {store : FileStore} {disturbed : List Bool} {batch : SplitBatch Record}
    (h : SplitReader.fetch store disturbed backend = (.returned batch, next))
    (hrid : backend.RidOf id) : batch.news id = [] ∧ next.RidOf id := by
  have hoff := (outlook_fetch id h (fitsAt_of_ridOf hrid)).1
  rw [(outlook_eq_nil store).2 hrid, List.append_eq_nil_iff, outlook_eq_nil] at hoff
  exact hoff

/-- The same holds when the fetch fails. -/
theorem ridOf_fetchFailed {store : FileStore} {disturbed : List Bool} {cause : Failure}
    (h : SplitReader.fetch store disturbed backend = (.failed cause, next))
    (hrid : backend.RidOf id) : next.RidOf id := by
  cases reads_of_fetch h with
  | ranges hread =>
      obtain rfl := RangeReader.eq_of_fetchFailed hread
      exact hrid
  | files hread => exact FileReader.ridOf_fetchFailed hread hrid

theorem ridOf_close {result : Called Unit} (h : SplitReader.close backend = (result, next)) :
    next.RidOf id := by
  cases h
  cases backend <;> exact Docket.ridOf_close

theorem ridOf_wake (h : backend.RidOf id) : (SplitReader.wake backend).RidOf id := by
  cases backend <;> exact Docket.ridOf_wake h

theorem ridOf_rewind {stale : SplitBatch Record} {result : Called Unit}
    (h : SplitReader.rewind stale backend = (result, recycled, next)) (hrid : backend.RidOf id)
    (hstale : stale.news id = []) : next.RidOf id := by
  cases h
  cases backend <;> exact Docket.ridOf_takeBack hrid hstale

end Backend

end SplitFeed
