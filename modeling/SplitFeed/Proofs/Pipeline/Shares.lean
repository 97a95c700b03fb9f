/-
# The shares of a run's fetchers

A run deals its splits once, over slots that are all empty, so each of its fetchers has one share.
Books by fetcher say what becomes of the shares.  They are right when the run begins, whether the
splits can be told apart or not, and so they are as long as the run thrives: what was consumed tells
no more than there is in the shares, and what is missing in the end are the tidings that were not
told.

Splits that can be told apart are all in the shares.  With one fetcher they are there in the order
they were given in.
-/
import SplitFeed.Proofs.Pipeline.Completion
import SplitFeed.Proofs.Supervisor.FetcherBooks

namespace SplitFeed

/-! ### Entries and marks -/

namespace Tiding

variable {taken : List (SplitBatch Record)} {id : String}

/-- Batches that nobody has begun to read tell of the records in them. -/
theorem entries_taken (hunread : ∀ batch ∈ taken, batch.IsUnread) :
    entries (taken.flatMap (·.tidings)) = entriesIn taken := by
  induction taken with
  | nil => rfl
  | cons batch taken ih =>
      obtain ⟨hfirst, hrest⟩ := List.forall_mem_cons.1 hunread
      have hself : entries batch.tidings = entriesIn [batch] := by
        simp [entries, SplitBatch.tidings, SplitBatch.groups_of_unread hfirst, entriesIn, entriesOf,
          List.filterMap_flatMap, List.filterMap_map]
      rw [List.flatMap_cons, entries_append, hself, ih hrest, ← entriesIn_append]
      rfl

/-- They tell of the ends that are marked in them. -/
theorem mem_ended_taken :
    id ∈ ended (taken.flatMap (·.tidings)) ↔
      ∃ batch ∈ taken, batch.finished.contains id = true := by
  simp [ended, SplitBatch.tidings, IdSet.contains]

end Tiding

/-! ### What is in the shares -/

/-- The number of slots that the splits of a run are dealt over. -/
def RuntimeSettings.slotCount (runtime : RuntimeSettings) : Nat := max runtime.fetcherThreads 1

theorem RuntimeSettings.slotCount_pos (runtime : RuntimeSettings) : 0 < runtime.slotCount :=
  Nat.lt_of_lt_of_le Nat.one_pos (Nat.le_max_right _ _)

namespace Job

variable {job : Job} {threads : Nat}

/-- Splits that can be told apart are all in the shares. -/
theorem allotment_perm (honce : (job.splits.map Split.id).Nodup) (hthreads : 0 < threads) :
    (job.allotment threads).Perm job.splits := by
  have hself (slot : Nat) :
      Duty.newcomers [] (Supervisor.dealt threads 0 slot job.splits) =
        Supervisor.dealt threads 0 slot job.splits :=
    Duty.newcomers_eq_self
      (honce.sublist ((Floor.dealt_sublist threads 0 slot job.splits).map Split.id))
  simp only [allotment, hself]
  exact Floor.dealt_perm hthreads 0 job.splits

/-- One fetcher gets them in the order they were given in. -/
theorem allotment_one (honce : (job.splits.map Split.id).Nodup) :
    job.allotment 1 = job.splits := by
  have hall : Supervisor.dealt 1 0 0 job.splits = job.splits := by
    simp [Supervisor.dealt, Nat.mod_one]
  have hself : Duty.newcomers [] job.splits = job.splits := Duty.newcomers_eq_self honce
  simp [allotment, hall, hself]

/-- Whether splits can be told apart or not, the shares have the ids of all of them. -/
theorem exists_allotted_iff (hthreads : 0 < threads) (id : String) :
    (∃ split ∈ job.allotment threads, split.id = id) ↔ ∃ split ∈ job.splits, split.id = id := by
  constructor
  · rintro ⟨split, hmem, rfl⟩
    obtain ⟨slot, -, hslot⟩ := List.mem_flatMap.1 hmem
    exact ⟨split, (Floor.dealt_sublist _ _ _ _).subset (Duty.mem_of_mem_newcomers hslot), rfl⟩
  · rintro ⟨split, hmem, rfl⟩
    obtain ⟨slot, hslot, hdealt⟩ :=
      List.mem_flatMap.1 ((Floor.dealt_perm hthreads 0 job.splits).mem_iff.2 hmem)
    obtain ⟨other, hother, hid⟩ := @Duty.exists_newcomer [] _ _ hdealt
    exact ⟨other, List.mem_flatMap.2 ⟨slot, hslot, hother⟩, hid⟩

end Job

namespace Run

variable {settings : Settings} {order : Order} {limit : Option Nat} {threads : Nat}
  {lost missing : Nat → List Tiding} {taken : List (SplitBatch Record)} {store : FileStore}
  {run last : Run} {moves : List Move}

/-! ### Where a run begins -/

/-- When a run is about to deal its splits, nobody has a share, and all of them are given away
later. -/
theorem shared_beginning (settings : Settings) (order : Order) :
    (Floor.dealtPast order.splits (idle settings order.files)).Shared order.job
      settings.runtime.slotCount
      (Floor.dealing order.splits (idle settings order.files)) [] (fun _ => []) []
      fun _ => [] := by
  have hcount : (idle settings order.files).slots.length = settings.runtime.slotCount :=
    List.length_replicate
  have hslots : (Floor.dealing order.splits (idle settings order.files)).filterMap Task.slot? =
      List.range settings.runtime.slotCount := by
    rw [Floor.dealing, hcount, List.filterMap_map]
    exact List.filterMap_some
  refine ⟨fun _ hmem => (List.not_mem_nil hmem).elim, rfl,
    fun _ hmem => (List.not_mem_nil hmem).elim, fun _ _ => ⟨rfl, rfl, rfl⟩, ?_,
    fun number splits later htasks => ?_, fun slot hmem => ?_, ?_, ?_⟩
  · rw [Floor.dealing, hcount, List.flatMap_map]
    rfl
  · have hmem : Task.errand (.ask number (.addSplits splits)) ∈
        Floor.dealing order.splits (idle settings order.files) := htasks ▸ List.mem_cons_self
    obtain ⟨_, -, hgive⟩ := List.mem_map.1 hmem
    cases hgive
  · rw [hslots, List.mem_range] at hmem
    exact List.getElem?_replicate_of_lt hmem
  · rw [hslots]
    exact List.nodup_range
  · rw [hslots, List.length_range]
    exact Nat.le_of_eq (Nat.zero_add _)

/-- A run begins with right books by fetcher. -/
theorem staged_opened (horder : IsOrder settings store order) (hjob : order.job.IsFeasible)
    (hopened : opened settings store = .ok run) :
    Staged (fetcherBooks order.job settings.runtime.slotCount) order settings.runtime.recordLimit
      (fun _ => []) [] run := by
  obtain ⟨source, expected, rfl⟩ := eq_of_opened horder hopened
  exact staged_beginning
    ⟨heeds_beginning hjob horder.sort, [], fun _ => [], shared_beginning settings order⟩

/-- On a course on which the run thrives they stay right, and something that counts is missing
exactly if a move is made that gives it up. -/
theorem exists_staged_shares (counts : Tiding → Prop) {kind : Run → Move → Prop}
    (hkind : ∀ {run move taken lost},
      Staged (fetcherBooks order.job settings.runtime.slotCount) order
          settings.runtime.recordLimit lost taken run →
        (run.GivesUp (fetcherBooks order.job settings.runtime.slotCount) counts move ↔
          kind run move))
    (horder : IsOrder settings store order) (hjob : order.job.IsFeasible)
    (hopened : opened settings store = .ok run) (hrun : Course.follow step moves run = some last)
    (hgood : last.Thrives) :
    ∃ missing, Staged (fetcherBooks order.job settings.runtime.slotCount) order
        settings.runtime.recordLimit missing (consumed moves run) last ∧
      (Course.Costs counts missing ↔ ¬ Course.Never step kind moves run) := by
  obtain ⟨missing, hk, hcosts⟩ := staged_follow counts hkind hjob
    (Supervisor.fetcherBooks_orderly _ _) hgood (staged_opened horder hjob hopened) hrun
  simp only [List.append_nil] at hk
  exact ⟨missing, hk, hcosts⟩

/-- On a course without haste on which the run thrives nobody gives splits up, whether they can be
told apart or not. -/
theorem never_abandons_of_never_hasty_shares (horder : IsOrder settings store order)
    (hjob : order.job.IsFeasible) (hopened : opened settings store = .ok run)
    (hrun : Course.follow step moves run = some last) (hgood : last.Thrives)
    (hhasty : Course.Never step Hasty moves run) : Course.Never step Abandons moves run := by
  have hbegin := staged_opened horder hjob hopened
  obtain ⟨source, expected, rfl⟩ := eq_of_opened horder hopened
  refine keeps_of_never_hasty hjob (Supervisor.fetcherBooks_orderly _ _) hbegin ⟨fun _ => ?_, nofun⟩
    hgood hhasty hrun
  exact ⟨fun _ hmem => (List.not_mem_nil hmem).elim, fun _ hmem => (List.not_mem_nil hmem).elim⟩

/-! ### What comes of it -/

/-- Only what is in hand can be consumed next. -/
theorem consumes_front (run : Run) (move : Move) :
    run.consumes move <+: run.pipeline.phase.inHand := by
  cases move with
  | thread _ _ | timeOut _ | late => exact List.nil_prefix
  | work =>
      simp only [consumes]
      split
      · unfold Pipeline.consumes
        split
        · next hphase =>
            rw [hphase]
            split
            · exact List.prefix_refl _
            · exact List.nil_prefix
        · exact List.nil_prefix
      · exact List.nil_prefix

/-- At every stage what was consumed, and what is consumed next, was in the shares. -/
theorem covers_of_staged (hk : Staged (fetcherBooks order.job threads) order limit lost taken run)
    (move : Move) : order.job.Covers threads (taken ++ run.consumes move) := by
  cases hk with
  | feeding hf =>
      have hcovers := Supervisor.covers_of_fetcherBooks hf.serves.sound.unique hf.serves.right
      refine Job.covers_of_front hcovers (.trans ?_ (List.prefix_append _ _))
      exact List.prefix_append_right_inj taken |>.2 (consumes_front run move)
  | fed hf =>
      rw [consumes_of_phase (by simp [hf.phase, ConsumerPhase.inHand]), List.append_nil]
      exact covers_of_settled hf.accounts.settled
  | closed hc =>
      have hpast := not_feeding_of_closing hc.phase
      rw [consumes_of_phase (ConsumerPhase.inHand_of_past hpast), List.append_nil]
      exact covers_of_settled hc.accounts.settled

/-- What was consumed in the end lacks records exactly if some are missing. -/
theorem exists_absent_entries (ha : Accounts (fetcherBooks order.job threads) missing taken) :
    ∃ absent, (entriesIn taken ++ absent).Perm
        ((order.job.allotment threads).flatMap (·.entries order.files)) ∧
      (absent = [] ↔ ¬ Course.Costs (fun tiding => tiding.2 ≠ none) missing) := by
  obtain ⟨absent, hperm, hcosts⟩ := exists_absent ha.settled
  refine ⟨Tiding.entries absent, ?_, ?_⟩
  · rw [← Tiding.entries_taken ha.unread, ← Tiding.entries_append, ← Tiding.entries_tidings]
    exact Tiding.entries_perm hperm
  · rw [Tiding.entries_eq_nil_iff, hcosts]
    simp

/-- If nothing is missing, all was told. -/
theorem tidings_perm_of_accounts
    (ha : Accounts (fetcherBooks order.job threads) missing taken)
    (hnone : ¬ Course.Costs (fun _ => True) missing) :
    (taken.flatMap (·.tidings)).Perm
      ((order.job.allotment threads).flatMap (·.tidings order.files)) := by
  obtain ⟨absent, hperm, hcosts⟩ := exists_absent ha.settled
  obtain rfl : absent = [] := List.eq_nil_iff_forall_not_mem.2 fun tiding hmem =>
    hnone ((hcosts _).2 ⟨tiding, hmem, trivial⟩)
  rwa [List.append_nil] at hperm

end Run

end SplitFeed
