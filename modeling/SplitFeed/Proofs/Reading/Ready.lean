/-
# Readers that can read all they have

A reader is ready if it is open, nothing was ever taken away from it, and every split that it has
can be read to its end.  It keeps every split then, so that no call fails and its outlook on each
split changes as it should.
-/
import SplitFeed.Proofs.Reading.Keeping

namespace SplitFeed

namespace Docket

variable {κ : Type}

/-- An open docket from which nothing was taken away, with cursors that are fine. -/
structure IsReady (fine : κ → Prop) (docket : Docket κ) : Prop where
  isOpen : docket.closed = false
  untouched : docket.removed = ∅
  cursors : ∀ cursor ∈ docket.cursors, fine cursor

/-- A docket is ready if it keeps all splits there may be. -/
theorem isReady_iff {fine : κ → Prop} {docket : Docket κ} :
    docket.IsReady fine ↔ ∀ id, docket.Keeps fine id := by
  constructor
  · exact fun h id => ⟨h.isOpen, by simp [admits, h.untouched], h.cursors⟩
  · intro h
    refine ⟨(h "").isOpen, ?_, (h "").cursors⟩
    have hnone : docket.removed.toList = [] := by
      refine List.eq_nil_iff_forall_not_mem.2 fun id hmem => ?_
      have hadmits := (h id).admits
      simp [admits, IdSet.contains, hmem] at hadmits
    cases hremoved : docket.removed with
    | mk ids ascending =>
        rw [hremoved] at hnone
        subst hnone
        rfl

end Docket

namespace SplitsChange

/-- A change that adds splits which can be read. -/
def IsWelcome (store : FileStore) : SplitsChange Split → Prop
  | addition splits => ∀ split ∈ splits, split.IsReadable store
  | removal _ => False

/-- Such a change takes nothing away. -/
theorem spares_of_isWelcome {store : FileStore} {change : SplitsChange Split}
    (h : change.IsWelcome store) (id : String) : change.Spares store id := by
  cases change with
  | addition splits => exact h
  | removal splits => exact h.elim

end SplitsChange

namespace Backend

/-- A reader that can read all it has. -/
def IsReady (store : FileStore) : Backend → Prop
  | ranges reader => reader.docket.IsReady RangeCursor.IsFine
  | files reader => reader.docket.IsReady (FileCursor.IsFine store)

variable {store : FileStore} {id : String} {backend next : Backend}

theorem isReady_iff : backend.IsReady store ↔ ∀ id, backend.Keeps store id := by
  cases backend <;> exact Docket.isReady_iff

theorem ready_of_isNew (h : backend.IsNew) : backend.IsReady store :=
  isReady_iff.2 fun _ => keeps_of_isNew h

end Backend

end SplitFeed
