/-
# Fetchers that have nothing left

A fetcher is spent if no splits are assigned to it and it holds no batch.  For a reliable fetcher
that is the same as owing nothing of any split.  A thread that winds down before it is spent
forsakes its splits; nothing else loses news.

A fetcher at rest is spent and not even about to hold anything.  Threads that raise the idle flag
only when there is nothing to do are at rest whenever the flag is up, and stay at rest until splits
are added.
-/
import SplitFeed.Proofs.Fetcher.Ledger

namespace SplitFeed.Fetcher

section Rest

variable {ρ : Type} {f g : Fetcher ρ} {d e : Depot} {disturbed : List Bool}

/-- No splits are assigned and no batch waits for the queue. -/
def IsSpent (f : Fetcher ρ) : Prop :=
  f.duty.assigned = [] ∧ f.held = none

/-- The thread is about to wind down with splits on its list or a batch in its hand. -/
def Forsakes (f : Fetcher ρ) : Prop :=
  (∃ failed, f.phase = .finishing failed) ∧ ¬ f.IsSpent

/-- Nothing is assigned, and the thread neither holds a batch nor is about to. -/
structure AtRest (f : Fetcher ρ) : Prop where
  assigned : f.duty.assigned = []
  notBusy : f.phase.isBusy = false
  leftover : f.leftover = none

theorem isSpent_of_atRest (h : f.AtRest) : f.IsSpent := by
  refine ⟨h.assigned, ?_⟩
  have hbusy := h.notBusy
  unfold held
  split
  · next hphase => simp [hphase, Phase.isBusy] at hbusy
  · exact h.leftover

theorem not_forsakes_of_atRest (h : f.AtRest) : ¬ f.Forsakes :=
  fun hforsakes => hforsakes.2 (isSpent_of_atRest h)

/-- Where the idle flag of a quiet fetcher is up, the fetcher is at rest. -/
theorem atRest_of_quiet (hf : f.Quiet) (hopen : f.duty.closed = false) (hidle : f.isIdle = true) :
    f.AtRest := by
  simp only [isIdle, Bool.and_eq_true] at hidle
  obtain ⟨hassigned, hbusy, hleft⟩ := hf hopen hidle.1.1
  exact ⟨hassigned, hbusy, hleft⟩

theorem atRest_advance [SplitReader ρ] (hf : f.AtRest) (h : Advance disturbed f d g e) :
    g.AtRest := by
  obtain ⟨hassigned, hbusy, hleft⟩ := hf
  cases h with
  | findSplits hphase hne => exact absurd hassigned hne
  | _ => constructor <;> simp_all [Phase.isBusy, Phase.isFetch, Duty.settle]

theorem atRest_congr (hf : f.AtRest) (hphase : g.phase = f.phase) (hleft : g.leftover = f.leftover)
    (hassigned : g.duty.assigned = f.duty.assigned) : g.AtRest :=
  ⟨hassigned.trans hf.assigned, hphase ▸ hf.notBusy, hleft.trans hf.leftover⟩

/-- A fetcher at rest that is offered no splits stays at rest. -/
theorem atRest_enact {request : Request} (hf : f.AtRest)
    (hadds : ∀ splits, request ≠ .addSplits splits) : (request.enact f).1.AtRest := by
  cases request with
  | addSplits splits => exact absurd rfl (hadds splits)
  | removeSplits ids =>
      refine ⟨?_, hf.notBusy, hf.leftover⟩
      simp [Request.enact, Duty.unassign, hf.assigned]
  | stop mode =>
      simp only [Request.enact]
      split <;> exact atRest_congr hf rfl rfl rfl
  | wakeUp _ | pause | resume | releaseLatch => exact atRest_congr hf rfl rfl rfl

theorem atRest_nudge [SplitReader ρ] (nudge : Nudge) (depot : Depot) (hf : f.AtRest) :
    (nudge.apply f depot).1.AtRest := by
  cases nudge <;> exact atRest_congr hf rfl rfl rfl

end Rest

variable {store : FileStore} {sort : ReaderSort} {f g : Fetcher Backend} {d e : Depot}
  {disturbed : List Bool} {id : String}

/-- A spent fetcher owes nothing. -/
theorem owed_of_isSpent (ha : f.Accountable store id) (h : f.IsSpent) :
    f.owed store id = [] := by
  cases hin : f.phase.isOut with
  | true => exact owed_of_out hin
  | false =>
      have howed : f.owed store id = f.unbooked store id := by
        rw [owed_of_in hin, h.2]
        rfl
      by_contra hne
      obtain ⟨split, hmem, -⟩ := (ha.listed hin).2 (howed ▸ ha.story.none_mem hne)
      rw [h.1] at hmem
      cases hmem

/-- The thread has wound down, or has nothing left to wind down with. -/
def IsDone (f : Fetcher Backend) : Prop :=
  f.phase.isOut = true ∨ f.IsSpent

theorem owed_of_isDone (ha : f.Accountable store id) (h : f.IsDone) : f.owed store id = [] := by
  rcases h with hout | hspent
  · exact owed_of_out hout
  · exact owed_of_isSpent ha hspent

/-- A fetcher that is not spent owes something. -/
theorem exists_owed_of_not_isSpent (hf : f.Reliable store sort)
    (ha : ∀ id, f.Accountable store id) (hin : f.phase.isOut = false) (h : ¬ f.IsSpent) :
    ∃ id, f.owed store id ≠ [] := by
  cases hheld : f.held with
  | some batch =>
      obtain ⟨id, hnews⟩ := SplitBatch.exists_news_of_not_isEmpty (hf.full batch hheld)
      refine ⟨id, ?_⟩
      simp [owed_of_in hin, hheld, hnews]
  | none =>
      obtain ⟨split, hsplit⟩ := List.exists_mem_of_ne_nil _ fun hnil => h ⟨hnil, hheld⟩
      refine ⟨split.id, fun hnil => ?_⟩
      have hlisted := ((ha split.id).listed hin).1 ⟨split, hsplit, rfl⟩
      rw [owed_of_in hin, List.append_eq_nil_iff] at hnil
      rw [hnil.2] at hlisted
      cases hlisted

/-- A reliable fetcher owes something exactly if it is not done. -/
theorem exists_owed_iff (hf : f.Reliable store sort) (ha : ∀ id, f.Accountable store id) :
    (∃ id, f.owed store id ≠ []) ↔ ¬ f.IsDone := by
  constructor
  · rintro ⟨id, howed⟩ hdone
    exact howed (owed_of_isDone (ha id) hdone)
  · intro hnot
    obtain ⟨hin, hspent⟩ := not_or.1 hnot
    exact exists_owed_of_not_isSpent hf ha (Bool.not_eq_true _ ▸ hin) hspent

/-- A thread for which nothing goes wrong winds down from one phase only. -/
theorem finishing_of_out (hf : f.phase.isSmooth = true) (hg : g.phase.isSmooth = true)
    (h : Advance disturbed f d g e) (hin : f.phase.isOut = false) (hout : g.phase.isOut = true) :
    ∃ failed, f.phase = .finishing failed := by
  cases h with
  | drop hphase _ => exact ⟨_, hphase⟩
  | _ => simp_all [Phase.isOut, Phase.isSmooth]

/-- What a step loses: nothing, unless the thread forsakes its splits. -/
theorem lost_eq_nil (hf : f.phase.isSmooth = true) (hg : g.phase.isSmooth = true)
    (ha : f.Accountable store id) (h : Advance disturbed f d g e) (hkeeps : ¬ f.Forsakes) :
    (if g.phase.isOut then f.owed store id else []) = [] := by
  cases hout : g.phase.isOut with
  | false => rfl
  | true =>
      cases hin : f.phase.isOut with
      | true => simp [owed_of_out hin]
      | false =>
          have hspent : f.IsSpent :=
            by_contra fun hnot => hkeeps ⟨finishing_of_out hf hg h hin hout, hnot⟩
          simp [owed_of_isSpent ha hspent]

/-- A thread that forsakes its splits winds down in that step. -/
theorem out_of_forsakes (hf : f.Reliable store sort) (hforsakes : f.Forsakes)
    (h : Advance disturbed f d g e) : f.phase.isOut = false ∧ g.phase.isOut = true := by
  obtain ⟨⟨failed, hphase⟩, -⟩ := hforsakes
  have hundrained := hf.undrained
  cases h <;> simp_all [Phase.isOut]

end SplitFeed.Fetcher
