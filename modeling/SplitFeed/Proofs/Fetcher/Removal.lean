/-
# What becomes of a split that is taken away

A removal takes effect in two places: on the list of splits at once, and at the reader when the
thread hands the change over.  In between, a batch of the split may be on its way back from a fetch.
The wake request that follows a removal has it turned away, so that it waits at the reader for the
change that sweeps it out.

`PurgedOf` says, phase by phase, what has to be the case for this to work.  What escapes it is a
batch past the look at the wake request: the one in flight.
-/
import SplitFeed.Proofs.Fetcher.Suited
import SplitFeed.Proofs.Reading.Removal

namespace SplitFeed

/-! ### Changes that end with a removal -/

namespace SplitsChange

/-- Some changes take a split away and do not bring it back. -/
def Purge (id : String) (changes : List (SplitsChange Split)) : Prop :=
  ∃ before change after, changes = before ++ change :: after ∧ change.removes id = true ∧
    ∀ later ∈ after, later.adds id = false

/-- No change brings a split. -/
def Spare (id : String) (changes : List (SplitsChange Split)) : Prop :=
  ∀ change ∈ changes, change.adds id = false

variable {id : String} {change : SplitsChange Split} {changes : List (SplitsChange Split)}

theorem spare_append (h : Spare id changes) (hadds : change.adds id = false) :
    Spare id (changes ++ [change]) := by
  intro other hmem
  rcases List.mem_append.1 hmem with hold | hnew
  · exact h other hold
  · rw [List.mem_singleton.1 hnew]
    exact hadds

theorem purge_append (h : Purge id changes) (hadds : change.adds id = false) :
    Purge id (changes ++ [change]) := by
  obtain ⟨before, removal, after, rfl, hremoves, hafter⟩ := h
  exact ⟨before, removal, after ++ [change], by simp, hremoves, spare_append hafter hadds⟩

theorem purge_of_removes (hremoves : change.removes id = true) : Purge id (changes ++ [change]) :=
  ⟨changes, change, [], rfl, hremoves, fun _ hmem => (List.not_mem_nil hmem).elim⟩

theorem not_purge_nil : ¬ Purge id [] := by
  rintro ⟨before, change, after, heq, -⟩
  simp at heq

/-- Handing changes over leaves a reader rid of a split. -/
def Clear (id : String) (changes : List (SplitsChange Split)) (reader : Backend) : Prop :=
  Purge id changes ∨ (reader.RidOf id ∧ Spare id changes)

theorem clear_nil {reader : Backend} : Clear id [] reader ↔ reader.RidOf id := by
  simp [Clear, not_purge_nil, Spare]

/-- The first change does its part. -/
theorem clear_tail {reader next : Backend} {recycled : List Nat}
    (h : Clear id (change :: changes) reader)
    (hchanged : Backend.Changed change reader recycled next) :
    Clear id changes next := by
  rcases h with ⟨before, removal, after, heq, hremoves, hafter⟩ | ⟨hrid, hspare⟩
  · cases before with
    | nil =>
        obtain ⟨rfl, rfl⟩ := List.cons.inj heq
        exact .inr ⟨Backend.ridOf_removal hchanged hremoves, hafter⟩
    | cons first before =>
        obtain ⟨rfl, rfl⟩ := List.cons.inj heq
        exact .inl ⟨before, removal, after, rfl, hremoves, hafter⟩
  · exact .inr ⟨Backend.ridOf_changed hchanged hrid (hspare change List.mem_cons_self),
      fun later hmem => hspare later (List.mem_cons_of_mem _ hmem)⟩

end SplitsChange

open SplitsChange

namespace Fetcher

/-- A removal that the reader has not heard of yet, followed by a wake request if `alert`. -/
def Warned (id : String) (alert : Bool) (f : Fetcher Backend) : Prop :=
  Purge id f.duty.pending ∧ (alert = true → f.wakeRequested = true)

/-- Nothing of a split is on its way to the queue but what is in flight already, and nothing more
will be.  Between the collection of changes and the look at the wake request, either the reader has
heard of the removal or the batch will be turned away. -/
def PurgedOf (id : String) (alert : Bool) (f : Fetcher Backend) : Prop :=
  match f.phase with
  | .handing changes =>
    f.Warned id alert ∨ (Clear id changes f.reader ∧ Spare id f.duty.pending)
  | .checking | .fetching =>
    f.Warned id alert ∨ (f.reader.RidOf id ∧ Spare id f.duty.pending)
  | .weighing batch =>
    f.Warned id alert ∨ (f.reader.RidOf id ∧ batch.news id = [] ∧ Spare id f.duty.pending)
  | .rewinding batch =>
    Purge id f.duty.pending ∨
      (f.reader.RidOf id ∧ batch.news id = [] ∧ Spare id f.duty.pending)
  | .panicked _ => True
  | _ => Clear id f.duty.pending f.reader

variable {id : String} {alert : Bool} {sort : ReaderSort} {f g : Fetcher Backend}

theorem purgedOf_advance {disturbed : List Bool} {d e : Depot} (hf : f.PurgedOf id alert)
    (hsuited : f.Suited sort) (h : Advance disturbed f d g e) : g.PurgedOf id alert := by
  cases h with
  | collect hphase hpaused =>
      simp only [PurgedOf, hphase] at hf ⊢
      exact .inr ⟨hf, fun _ hmem => (List.not_mem_nil hmem).elim⟩
  | hand hphase hcall =>
      simp only [PurgedOf, hphase] at hf ⊢
      have hsuits := hsuited.handing hphase _ List.mem_cons_self
      rw [← hsuited.reader] at hsuits
      exact hf.imp_right fun ⟨hclear, hspare⟩ =>
        ⟨clear_tail hclear (Backend.changed_of_returned hsuits hcall), hspare⟩
  | handFail hphase hcall =>
      have hsuits := hsuited.handing hphase _ List.mem_cons_self
      rw [← hsuited.reader] at hsuits
      obtain ⟨_, _, hreturned, -⟩ := Backend.change_of_suits hsuits
      simp [hreturned] at hcall
  | retry hphase hleft =>
      simp only [PurgedOf, hphase, clear_nil] at hf ⊢
      exact hf.imp_left (·.1)
  | check hphase hleft =>
      simpa only [PurgedOf, hphase, clear_nil, Warned] using hf
  | findNothing hphase hassigned =>
      simp only [PurgedOf, hphase] at hf ⊢
      exact hf.imp_left (·.1)
  | findSplits hphase hassigned =>
      simpa only [PurgedOf, hphase, Warned] using hf
  | fetch hphase hcall =>
      simp only [PurgedOf, hphase] at hf ⊢
      refine hf.imp_right fun ⟨hrid, hspare⟩ => ?_
      obtain ⟨hnews, hnext⟩ := Backend.ridOf_fetch hcall hrid
      exact ⟨hnext, hnews, hspare⟩
  | fetchFail hphase hcall =>
      simp only [PurgedOf, hphase] at hf ⊢
      exact hf.imp (·.1) fun ⟨hrid, hspare⟩ => ⟨Backend.ridOf_fetchFailed hcall hrid, hspare⟩
  | turnAway hphase hwake =>
      simp only [PurgedOf, hphase] at hf ⊢
      exact hf.imp_left (·.1)
  | keep hphase hwake =>
      simp only [PurgedOf, hphase] at hf ⊢
      exact hf.imp (·.1) fun ⟨hrid, _, hspare⟩ => ⟨hrid, hspare⟩
  | rewind hphase hcall _ =>
      simp only [PurgedOf, hphase] at hf ⊢
      exact hf.imp_right fun ⟨hrid, hnews, hspare⟩ =>
        ⟨Backend.ridOf_rewind hcall hrid hnews, hspare⟩
  | close hphase hcall | closeFail hphase hcall =>
      simp only [PurgedOf, hphase] at hf ⊢
      exact hf.imp_right fun ⟨_, hspare⟩ => ⟨Backend.ridOf_close hcall, hspare⟩
  | handPanic | fetchPanic | rewindPanic | closePanic => trivial
  | doze hphase | flush hphase | flushAgain hphase | flushShut hphase | flushDoze hphase =>
      simpa only [PurgedOf, hphase] using hf
  | _ hphase => simpa only [PurgedOf, hphase, Duty.book, Duty.settle] using hf

/-- Pending changes may grow by others that do not bring the split back. -/
theorem purgedOf_pending {change : SplitsChange Split} (hf : f.PurgedOf id alert)
    (hphase : g.phase = f.phase) (hreader : g.reader = f.reader)
    (hwake : g.wakeRequested = f.wakeRequested)
    (hpending : g.duty.pending = f.duty.pending ++ [change]) (hadds : change.adds id = false) :
    g.PurgedOf id alert := by
  have hpurge : Purge id f.duty.pending → Purge id g.duty.pending := fun h =>
    hpending ▸ purge_append h hadds
  have hspare : Spare id f.duty.pending → Spare id g.duty.pending := fun h =>
    hpending ▸ spare_append h hadds
  have hwarned : f.Warned id alert → g.Warned id alert := fun ⟨hremoved, hwoken⟩ =>
    ⟨hpurge hremoved, fun h => hwake ▸ hwoken h⟩
  cases hf' : f.phase <;> simp only [PurgedOf, hphase, hf', hreader] at hf ⊢
  case handing => exact hf.imp hwarned (And.imp_right hspare)
  case checking | fetching => exact hf.imp hwarned (And.imp_right hspare)
  case weighing => exact hf.imp hwarned (And.imp_right (And.imp_right hspare))
  case rewinding => exact hf.imp hpurge (And.imp_right (And.imp_right hspare))
  all_goals exact hf.imp hpurge (And.imp_right hspare)

theorem purgedOf_congr (hf : f.PurgedOf id alert) (hphase : g.phase = f.phase)
    (hreader : g.reader = f.reader) (hwake : g.wakeRequested = f.wakeRequested)
    (hpending : g.duty.pending = f.duty.pending) : g.PurgedOf id alert := by
  simpa only [PurgedOf, Warned, hphase, hreader, hwake, hpending] using hf

/-- An addition that brings a split back is accepted. -/
def Readmits (id : String) (f : Fetcher Backend) : Request → Prop
  | .addSplits splits =>
    f.duty.refuses = false ∧ ∃ split ∈ Duty.newcomers f.duty.assigned splits, split.id = id
  | _ => False

theorem purgedOf_enact {request : Request} (hf : f.PurgedOf id alert)
    (hkept : ¬ f.Readmits id request) : (request.enact f).1.PurgedOf id alert := by
  cases request with
  | addSplits splits =>
      simp only [Request.enact]
      split
      · exact hf
      · next htaken =>
          simp only [Bool.or_eq_true, not_or, Bool.not_eq_true] at htaken
          refine purgedOf_pending hf rfl rfl rfl rfl ?_
          simp only [adds, List.any_eq_false, beq_iff_eq]
          exact fun split hmem hid => hkept ⟨htaken.1, split, hmem, hid⟩
  | removeSplits ids =>
      simp only [Request.enact]
      by_cases hnone : (f.duty.named ids).isEmpty = true
      · exact purgedOf_congr hf rfl rfl rfl (by simp [Duty.unassign, hnone])
      · have hpending : (f.duty.unassign ids).pending =
            f.duty.pending ++ [.removal (f.duty.named ids)] := by simp [Duty.unassign, hnone]
        exact purgedOf_pending hf rfl rfl rfl hpending rfl
  | stop mode =>
      simp only [Request.enact]
      split
      · exact hf
      · exact purgedOf_congr hf rfl rfl rfl rfl
  | wakeUp _ | pause | resume | releaseLatch => exact purgedOf_congr hf rfl rfl rfl rfl

/-- A wake request makes sure that a batch on its way back is turned away. -/
theorem purgedOf_requestWake (hf : f.PurgedOf id alert) (certain : Bool) :
    { f with wakeRequested := true : Fetcher Backend }.PurgedOf id certain := by
  have hwarned : f.Warned id alert →
      { f with wakeRequested := true : Fetcher Backend }.Warned id certain := fun ⟨h, _⟩ =>
    ⟨h, fun _ => rfl⟩
  cases hphase : f.phase <;> simp only [PurgedOf, hphase] at hf ⊢
  case handing | checking | fetching | weighing => exact hf.imp_left hwarned
  all_goals exact hf

theorem purgedOf_nudge (nudge : Nudge) (depot : Depot) (hf : f.PurgedOf id alert) :
    (nudge.apply f depot).1.PurgedOf id alert := by
  cases nudge with
  | rouse | wakePut => exact purgedOf_congr hf rfl rfl rfl rfl
  | requestWake => exact purgedOf_requestWake hf alert
  | wakeReader =>
      have hclear {changes : List (SplitsChange Split)} (h : Clear id changes f.reader) :
          Clear id changes (SplitReader.wake f.reader) :=
        h.imp_right (And.imp_left Backend.ridOf_wake)
      cases hphase : f.phase <;> simp only [PurgedOf, Nudge.apply, hphase] at hf ⊢
      case handing => exact hf.imp_right (And.imp_left hclear)
      case checking | fetching | weighing | rewinding =>
        exact hf.imp_right (And.imp_left Backend.ridOf_wake)
      all_goals exact hclear hf

/-- A cycle begins where nothing but the pending changes is on its way. -/
theorem purgedOf_begin (hf : f.PurgedOf id alert) (hmay : Station.mayBegin f = true) :
    f.beginCycle.PurgedOf id alert ∧ f.beginLoop.PurgedOf id alert := by
  obtain ⟨hphase | ⟨result, hphase⟩, -⟩ := Station.phase_of_mayBegin hmay <;>
    simp only [PurgedOf, hphase] at hf <;> exact ⟨hf, hf⟩

/-- Right after a removal was noted, nothing else matters. -/
theorem purgedOf_of_purge (h : Purge id f.duty.pending) : f.PurgedOf id false := by
  have hwarned : f.Warned id false := ⟨h, fun hfalse => by cases hfalse⟩
  cases hphase : f.phase <;> simp only [PurgedOf, hphase]
  case handing | checking | fetching | weighing => exact .inl hwarned
  all_goals exact .inl h

end Fetcher

end SplitFeed
