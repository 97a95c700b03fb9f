/-
# Batches as readers hand them out

A batch that comes from a reader is neat: nobody has begun to read it, and with the end mark of a
split it brings records of that split.  Only splits that may end bare do without them: a file, whose
end is seen by reading on, and a range in which there is nothing.

Readers hand out neat batches only, as long as nobody makes them take others back.
-/
import SplitFeed.Proofs.Reading.Keeping

namespace SplitFeed

/-- Whether the end mark of a split may come without records. -/
def Split.MayEndBare : Split → Prop
  | range split => split.stop ≤ split.start
  | file _ => True

namespace SplitBatch

/-- Nobody has begun to read the batch, and it ends no split without records of it, unless that
split may end bare. -/
structure IsNeat (bare : String → Prop) (batch : SplitBatch Record) : Prop where
  unread : batch.IsUnread
  ends : ∀ id, batch.finished.contains id = true → bare id ∨ recordsIn id batch.groups ≠ []

variable {bare : String → Prop} {batch : SplitBatch Record}

theorem neat_empty : (empty : SplitBatch Record).IsNeat bare :=
  ⟨rfl, fun _ hends => by cases hends⟩

theorem neat_addRecords (id : String) (records : List Record) :
    ((empty : SplitBatch Record).addRecords id records).IsNeat bare := by
  cases records with
  | nil => exact neat_empty
  | cons record records => exact ⟨rfl, fun _ hends => by cases hends⟩

theorem neat_finishSplit {id : String} {records : List Record} (h : bare id ∨ records ≠ []) :
    (((empty : SplitBatch Record).addRecords id records).finishSplit id).IsNeat bare := by
  cases records with
  | nil =>
      refine ⟨rfl, fun other hends => ?_⟩
      obtain rfl : other = id := by simpa [finishSplit, addRecords, empty] using hends
      exact .inl (h.resolve_right fun hsome => hsome rfl)
  | cons record records =>
      refine ⟨rfl, fun other hends => .inr ?_⟩
      obtain rfl : other = id := by simpa [finishSplit, addRecords, empty] using hends
      change recordsIn other (appendGroup other (record :: records) []) ≠ []
      simp [recordsIn_appendGroup]

/-- Whole splits may be taken out of a neat batch. -/
theorem neat_retainSplits (keep : String → Bool) (h : batch.IsNeat bare) :
    (batch.retainSplits keep).IsNeat bare where
  unread := by
    have hunread : batch.current = none := h.unread
    simp [IsUnread, retainSplits, hunread]
  ends id hends := by
    have hfinished : (batch.finished.filter keep).contains id = true := hends
    rw [IdSet.contains_filter, Bool.and_eq_true] at hfinished
    rw [groups_retainSplits, recordsIn_filter, if_pos hfinished.2]
    exact h.ends id hfinished.1

end SplitBatch

namespace Docket

variable {κ : Type}

/-- The cursors are fine, and the batches that came back neat. -/
structure IsNeat (fine : κ → Prop) (bare : String → Prop) (docket : Docket κ) : Prop where
  cursors : ∀ cursor ∈ docket.cursors, fine cursor
  replay : ∀ batch ∈ docket.replay, batch.IsNeat bare

variable {fine : κ → Prop} {bare : String → Prop} {docket : Docket κ}

theorem neat_takeBack {stale : SplitBatch Record} (h : docket.IsNeat fine bare)
    (hstale : stale.IsNeat bare) : (docket.takeBack stale).IsNeat fine bare := by
  simp only [takeBack]
  split
  · exact h
  · refine ⟨h.cursors, fun batch hmem => ?_⟩
    rcases List.mem_append.1 hmem with hold | hnew
    · exact h.replay batch hold
    · rw [List.mem_singleton.1 hnew]
      exact SplitBatch.neat_retainSplits _ hstale

variable [HasSplitId κ]

theorem neat_gain {cursors : List κ} (h : docket.IsNeat fine bare)
    (hfine : ∀ cursor ∈ cursors, fine cursor) : (docket.gain cursors).IsNeat fine bare where
  cursors cursor hmem := (mem_cursors_gain hmem).elim (h.cursors cursor) (hfine cursor)
  replay := by
    rw [replay_gain]
    exact h.replay

theorem neat_lose (ids : List String) (h : docket.IsNeat fine bare) :
    (docket.lose ids).2.IsNeat fine bare where
  cursors cursor hmem := h.cursors cursor (List.mem_filter.1 hmem).1
  replay batch hmem := by
    obtain ⟨earlier, hearlier, rfl⟩ := mem_replay_lose hmem
    exact SplitBatch.neat_retainSplits _ (h.replay earlier hearlier)

end Docket

/-- There is something left of the range, unless it may end bare. -/
def RangeCursor.IsNeat (bare : String → Prop) (cursor : RangeCursor) : Prop :=
  bare cursor.split.id ∨ cursor.next < cursor.split.stop

/-- The file may end bare. -/
def FileCursor.IsNeat (bare : String → Prop) (cursor : FileCursor) : Prop :=
  bare cursor.split.id

section Fetching

variable {bare : String → Prop} {store : FileStore} {disturbed : List Bool}
  {result : Called (SplitBatch Record)}

/-- A piece of a range that is left over goes on behind it. -/
theorem RangeReader.neat_piece {cursor : RangeCursor} (maxRecords : Nat) (h : cursor.IsNeat bare) :
    (piece maxRecords cursor).1.IsNeat bare ∧
      ∀ left ∈ (piece maxRecords cursor).2, left.IsNeat bare := by
  simp only [piece]
  split
  · next hends =>
      refine ⟨SplitBatch.neat_finishSplit (h.imp_right fun hleft => ?_),
        fun _ hmem => by cases hmem⟩
      simp only [ne_eq, List.map_eq_nil_iff, List.range'_eq_nil_iff]
      omega
  · next hgoes =>
      refine ⟨SplitBatch.neat_addRecords _ _, fun left hmem => ?_⟩
      obtain rfl := Option.some.inj hmem
      exact .inr (Nat.lt_of_not_le hgoes)

theorem RangeReader.neat_fetch {reader next : RangeReader}
    (h : reader.fetch disturbed = (result, next))
    (hneat : reader.docket.IsNeat (RangeCursor.IsNeat bare) bare) :
    (∀ batch, result = .returned batch → batch.IsNeat bare) ∧
      next.docket.IsNeat (RangeCursor.IsNeat bare) bare := by
  simp only [fetch] at h
  generalize (if reader.delayMs = 0 then _ else _ : Bool × WakeFlag) = nap at h
  obtain ⟨woken, flag⟩ := nap
  split at h
  · obtain ⟨rfl, rfl⟩ := Prod.mk.inj h
    exact ⟨fun _ heq => (by cases heq), hneat⟩
  · split at h
    · next _ stale replay hstale =>
        obtain ⟨rfl, rfl⟩ := Prod.mk.inj h
        have hreplay := hneat.replay
        rw [hstale] at hreplay
        obtain ⟨hfirst, hrest⟩ := List.forall_mem_cons.1 hreplay
        exact ⟨fun batch heq => Called.returned.inj heq ▸ hfirst, hneat.cursors, hrest⟩
    · obtain ⟨rfl, rfl⟩ := Prod.mk.inj h
      exact ⟨fun batch heq => Called.returned.inj heq ▸ SplitBatch.neat_empty, hneat.cursors,
        hneat.replay⟩
    · next cursor others hnone hcursors =>
        cases woken with
        | true =>
            obtain ⟨rfl, rfl⟩ := Prod.mk.inj h
            exact ⟨fun batch heq => Called.returned.inj heq ▸ SplitBatch.neat_empty,
              hneat.cursors, hneat.replay⟩
        | false =>
            obtain ⟨rfl, rfl⟩ := Prod.mk.inj h
            have hfine := hneat.cursors
            rw [hcursors] at hfine
            obtain ⟨hfirst, hrest⟩ := List.forall_mem_cons.1 hfine
            obtain ⟨hpiece, hleft⟩ := neat_piece reader.maxRecords hfirst
            refine ⟨fun batch heq => Called.returned.inj heq ▸ hpiece, fun other hmem => ?_,
              hneat.replay⟩
            rcases List.mem_append.1 hmem with hsame | hother
            · exact hleft other (Option.mem_toList.1 hsame)
            · exact hrest other hother

theorem FileReader.neat_fetch {reader next : FileReader}
    (h : reader.fetch store disturbed = (result, next))
    (hneat : reader.docket.IsNeat (FileCursor.IsNeat bare) bare) :
    (∀ batch, result = .returned batch → batch.IsNeat bare) ∧
      next.docket.IsNeat (FileCursor.IsNeat bare) bare := by
  simp only [fetch] at h
  split at h
  · obtain ⟨rfl, rfl⟩ := Prod.mk.inj h
    exact ⟨fun _ heq => (by cases heq), hneat⟩
  · split at h
    · next _ stale replay hstale =>
        obtain ⟨rfl, rfl⟩ := Prod.mk.inj h
        have hreplay := hneat.replay
        rw [hstale] at hreplay
        obtain ⟨hfirst, hrest⟩ := List.forall_mem_cons.1 hreplay
        exact ⟨fun batch heq => Called.returned.inj heq ▸ hfirst, hneat.cursors, hrest⟩
    · obtain ⟨rfl, rfl⟩ := Prod.mk.inj h
      exact ⟨fun batch heq => Called.returned.inj heq ▸ SplitBatch.neat_empty, hneat.cursors,
        hneat.replay⟩
    · next cursor others hnone hcursors =>
        have hfine := hneat.cursors
        rw [hcursors] at hfine
        obtain ⟨hfirst, hrest⟩ := List.forall_mem_cons.1 hfine
        split at h
        · obtain ⟨rfl, rfl⟩ := Prod.mk.inj h
          exact ⟨fun _ heq => (by cases heq), hneat⟩
        · split at h
          · obtain ⟨rfl, rfl⟩ := Prod.mk.inj h
            exact ⟨fun _ heq => (by cases heq), List.forall_mem_cons.2 ⟨hfirst, hrest⟩,
              hneat.replay⟩
          · split at h
            · obtain ⟨rfl, rfl⟩ := Prod.mk.inj h
              exact ⟨fun batch heq => Called.returned.inj heq ▸
                SplitBatch.neat_finishSplit (.inl hfirst), hrest, hneat.replay⟩
            · obtain ⟨rfl, rfl⟩ := Prod.mk.inj h
              exact ⟨fun batch heq => Called.returned.inj heq ▸ SplitBatch.neat_addRecords _ _,
                List.forall_mem_cons.2 ⟨hfirst, hrest⟩, hneat.replay⟩

end Fetching

namespace Backend

/-- A reader that has neat batches only, and such splits as will end in neat batches. -/
def IsNeat (bare : String → Prop) : Backend → Prop
  | ranges reader => reader.docket.IsNeat (RangeCursor.IsNeat bare) bare
  | files reader => reader.docket.IsNeat (FileCursor.IsNeat bare) bare

variable {bare : String → Prop} {store : FileStore} {backend next : Backend}

theorem neat_of_isNew (h : backend.IsNew) : backend.IsNeat bare := by
  cases backend with
  | ranges reader | files reader =>
      have hdocket : reader.docket = {} := h
      simp only [IsNeat, hdocket]
      exact ⟨List.forall_mem_nil _, List.forall_mem_nil _⟩

theorem neat_fetch {disturbed : List Bool} {result : Called (SplitBatch Record)}
    (h : SplitReader.fetch store disturbed backend = (result, next)) (hneat : backend.IsNeat bare) :
    (∀ batch, result = .returned batch → batch.IsNeat bare) ∧ next.IsNeat bare := by
  cases backend with
  | ranges reader =>
      obtain ⟨rfl, rfl⟩ := Prod.mk.inj h
      exact RangeReader.neat_fetch rfl hneat
  | files reader =>
      obtain ⟨rfl, rfl⟩ := Prod.mk.inj h
      exact FileReader.neat_fetch rfl hneat

theorem neat_rewind {stale : SplitBatch Record} {result : Called Unit} {recycled : List Nat}
    (h : SplitReader.rewind stale backend = (result, recycled, next)) (hneat : backend.IsNeat bare)
    (hstale : stale.IsNeat bare) : next.IsNeat bare := by
  cases h
  cases backend <;> exact Docket.neat_takeBack hneat hstale

theorem neat_changed {change : SplitsChange Split} {recycled : List Nat}
    (h : Changed change backend recycled next) (hneat : backend.IsNeat bare)
    (hsplits : ∀ split ∈ change.splits, split.MayEndBare → bare split.id) : next.IsNeat bare := by
  cases h with
  | gainRanges splits reader =>
      refine Docket.neat_gain hneat fun cursor hmem => ?_
      obtain ⟨split, hsplit, rfl⟩ := List.mem_map.1 hmem
      rcases Nat.lt_or_ge split.start split.stop with hlt | hge
      · exact .inr hlt
      · exact .inl (hsplits (.range split) (List.mem_map_of_mem hsplit) hge)
  | gainFiles splits reader =>
      refine Docket.neat_gain hneat fun cursor hmem => ?_
      obtain ⟨split, hsplit, rfl⟩ := List.mem_map.1 hmem
      exact hsplits (.file split) (List.mem_map_of_mem hsplit) trivial
  | loseRanges splits reader | loseFiles splits reader => exact Docket.neat_lose _ hneat

theorem neat_wake (hneat : backend.IsNeat bare) : (SplitReader.wake backend).IsNeat bare := by
  cases backend <;> exact ⟨hneat.cursors, hneat.replay⟩

theorem neat_close {result : Called Unit} (h : SplitReader.close backend = (result, next)) :
    next.IsNeat bare := by
  cases h
  cases backend <;> exact ⟨List.forall_mem_nil _, List.forall_mem_nil _⟩

end Backend

end SplitFeed
