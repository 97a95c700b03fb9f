/-
# Delivering exactly once

A floor is wound up when no call is under way, all slots are empty and the queue is empty: the
caller has heard that every fetcher was retired, and the consumer has polled what there was.  By
then every split that was added should have been delivered: the batches that were polled tell its
records, each once and in order, and then its end.

They do, if no thread was ever hasty.  In general they do exactly if no thread has forsaken its
splits and none still holds any.
-/
import SplitFeed.Proofs.Supervisor.Floor

namespace SplitFeed.Floor

variable {store : FileStore} {sort : ReaderSort} {id : String} {floor next last : Floor}
  {move : Move} {moves : List Move} {readers : Nat → Backend} {capacity threads : Nat}

/-- The polled batches tell of every split all of its news, once and in order. -/
def Delivered (store : FileStore) (floor : Floor) : Prop :=
  ∀ split ∈ floor.added, floor.polled.flatMap (·.news split.id) = split.news store

/-- No call is under way, all slots are empty, and so is the queue. -/
structure IsWoundUp (floor : Floor) : Prop where
  tasks : floor.tasks = []
  slots : floor.supervisor.isVacant = true
  queue : floor.supervisor.queue.items = []

/-- A floor on which nothing goes wrong, with books on what is lost of each split. -/
structure Kept (store : FileStore) (sort : ReaderSort) (lost : String → List (Option Record))
    (floor : Floor) : Prop where
  orderly : floor.Orderly store sort
  books : ∀ id, floor.Balanced store id (lost id)

/-! ### From the opened floor -/

theorem orderly_opened (hnew : ∀ built, (readers built).IsNew ∧ (readers built).sort = sort) :
    (opened capacity threads store readers).Orderly store sort where
  sound :=
    { unique := .nil
      below := fun _ hmem => (List.not_mem_nil hmem).elim
      reliable := fun _ hmem => (List.not_mem_nil hmem).elim
      seats := by simp [opened, Supervisor.create, Supervisor.liveIds]
      seated := by simp [opened, Supervisor.create, Supervisor.liveIds]
      builds := fun built => ⟨readers built, rfl, hnew built⟩
      isOpen := rfl }
  files := rfl
  slots := by
    change 0 < (List.replicate (max threads 1) none).length
    rw [List.length_replicate]
    omega
  agenda := trivial
  asked := fun _ hmem => (List.not_mem_nil hmem).elim

theorem balanced_opened (id : String) :
    (opened capacity threads store readers).Balanced store id [] where
  accountable := fun _ hmem => (List.not_mem_nil hmem).elim
  balance := ⟨0, [], fun _ hmem => (List.not_mem_nil hmem).elim, fun hne => absurd rfl hne, rfl⟩

theorem calm_opened : (opened capacity threads store readers).supervisor.Calm where
  quiet := fun _ hmem => (List.not_mem_nil hmem).elim
  atRest := fun _ hmem => (List.not_mem_nil hmem).elim

/-! ### Along a course -/

theorem proper_of_step (h : floor.step move = some next) (hproper : Proper store sort next.added) :
    Proper store sort floor.added := by
  obtain ⟨more, hadded⟩ := added_step h
  exact proper_of_append (hadded ▸ hproper)

theorem kept_step {lost : String → List (Option Record)} (hproper : Proper store sort next.added)
    (hk : floor.Kept store sort lost) (h : floor.step move = some next) :
    ∃ loss : String → List (Option Record), next.Kept store sort (fun id => loss id ++ lost id) ∧
      ((∃ id, loss id ≠ []) ↔ floor.Forsakes move) := by
  obtain ⟨loss, hbalanced, hloss⟩ := balanced_step hk.orderly hproper h
  exact ⟨loss, ⟨orderly_step hk.orderly hproper h, fun id => hbalanced id _ (hk.books id)⟩,
    hloss fun id => ⟨_, hk.books id⟩⟩

/-- A course loses something exactly if a thread forsakes its splits on it. -/
theorem kept_follow {lost : String → List (Option Record)} (hk : floor.Kept store sort lost)
    (hproper : Proper store sort last.added) (h : Course.follow step moves floor = some last) :
    ∃ loss : String → List (Option Record), last.Kept store sort (fun id => loss id ++ lost id) ∧
      ((∃ id, loss id ≠ []) ↔ ¬ Course.Never step Forsakes moves floor) :=
  Course.exists_loss (fun floor => Proper store sort floor.added) (Kept store sort) proper_of_step
    kept_step h hproper hk

/-- On a course without haste no thread forsakes its splits, and the floor stays calm. -/
theorem calm_follow {lost : String → List (Option Record)} (hk : floor.Kept store sort lost)
    (hproper : Proper store sort last.added) (hc : floor.supervisor.Calm)
    (hhasty : Course.Never step Hasty moves floor)
    (h : Course.follow step moves floor = some last) :
    Course.Never step Forsakes moves floor ∧ last.supervisor.Calm := by
  induction moves generalizing floor lost with
  | nil => exact ⟨trivial, Option.some.inj h ▸ hc⟩
  | cons move moves ih =>
      obtain ⟨next, hstep, hrest⟩ := Course.follow_cons_eq_some.1 h
      have hnext : Proper store sort next.added :=
        Course.follow_reflects (fun floor => Proper store sort floor.added) proper_of_step hrest
          hproper
      obtain ⟨loss, hk', -⟩ := kept_step hnext hk hstep
      obtain ⟨hnever, hcalm⟩ :=
        ih hk' (calm_step hk.orderly hc hhasty.1 hstep) (hhasty.2 next hstep) hrest
      refine ⟨(Course.never_cons hstep).2 ⟨fun hforsakes => ?_, hnever⟩, hcalm⟩
      cases move with
      | thread fetcher disturbed =>
          obtain ⟨f, hf, -, hf'⟩ := hforsakes
          exact Supervisor.not_forsakes_of_calm hk.orderly.sound hc hf hf'
      | _ => exact hforsakes

/-! ### In the end -/

/-- On a floor that is wound up, what is due was polled, is owed or is lost. -/
theorem due_of_woundUp {lost : List (Option Record)} (hover : floor.IsWoundUp)
    (hb : floor.Balanced store id lost) :
    ∃ owner rest, (∀ f ∈ floor.supervisor.crew,
        f.owed store id = if f.id = owner then rest else []) ∧
      (rest ≠ [] → owner ∈ floor.supervisor.ids) ∧
      floor.polled.flatMap (·.news id) ++ (rest ++ lost) = Split.due store id floor.added := by
  obtain ⟨-, owner, rest, howed, howner, hsum⟩ := hb
  refine ⟨owner, rest, howed, howner, ?_⟩
  simpa [Supervisor.told, hover.tasks, hover.queue] using hsum

/-- On a floor that is wound up with everything delivered, nothing is owed or lost. -/
theorem nothing_of_delivered {lost : List (Option Record)} (hproper : Proper store sort floor.added)
    (hover : floor.IsWoundUp) (hdelivered : floor.Delivered store)
    (hb : floor.Balanced store id lost) :
    (∀ f ∈ floor.supervisor.crew, f.owed store id = []) ∧ lost = [] := by
  obtain ⟨owner, rest, howed, -, hsum⟩ := due_of_woundUp hover hb
  have hnone : rest ++ lost = [] := by
    by_cases hadded : ∃ split ∈ floor.added, split.id = id
    · obtain ⟨split, hmem, rfl⟩ := hadded
      rw [Split.due_eq_news hproper.once hmem, hdelivered split hmem] at hsum
      exact List.append_right_eq_self.1 hsum
    · have hdue : Split.due store id floor.added = [] :=
        Split.due_eq_nil.2 fun split hmem hid => hadded ⟨split, hmem, hid⟩
      rw [hdue] at hsum
      exact (List.append_eq_nil_iff.1 hsum).2
  obtain ⟨hrest, hlost⟩ := List.append_eq_nil_iff.1 hnone
  refine ⟨fun f hf => ?_, hlost⟩
  rw [howed f hf, hrest, ite_self]

/-- On a floor that is wound up with nothing lost and no thread that still has something,
everything was delivered. -/
theorem delivered_of_done (hproper : Proper store sort floor.added) (hover : floor.IsWoundUp)
    (hbooks : ∀ id, floor.Balanced store id [])
    (hdone : ∀ f ∈ floor.supervisor.crew, f.IsDone) : floor.Delivered store := by
  intro split hmem
  obtain ⟨owner, rest, howed, howner, hsum⟩ := due_of_woundUp hover (hbooks split.id)
  have hrest : rest = [] := by
    by_contra hne
    obtain ⟨f, hf, hid⟩ := List.mem_map.1 (howner hne)
    have hnone := Fetcher.owed_of_isDone ((hbooks split.id).accountable f hf) (hdone f hf)
    rw [howed f hf, if_pos hid] at hnone
    exact hne hnone
  rw [Split.due_eq_news hproper.once hmem, hrest] at hsum
  simpa using hsum

/-- On a floor that is wound up with everything delivered, no thread still has something. -/
theorem done_of_delivered {lost : String → List (Option Record)}
    (hk : floor.Kept store sort lost) (hproper : Proper store sort floor.added)
    (hover : floor.IsWoundUp) (hdelivered : floor.Delivered store) :
    ∀ f ∈ floor.supervisor.crew, f.IsDone := by
  intro f hf
  cases hout : f.phase.isOut with
  | true => exact .inl hout
  | false =>
      refine .inr (by_contra fun hnot => ?_)
      obtain ⟨id, howed⟩ := Fetcher.exists_owed_of_not_isSpent (hk.orderly.sound.reliable f hf)
        (fun id => (hk.books id).accountable f hf) hout hnot
      exact howed ((nothing_of_delivered hproper hover hdelivered (hk.books id)).1 f hf)

/-- On a floor over readers that can read the splits they are given, whatever order threads, calls
and polls come in: once it is wound up, every split that was ever added was delivered exactly once
if no thread raised the idle flag over the heads of splits; and in any case that is so exactly if
no thread has forsaken its splits and none still has some. -/
theorem delivered_exactly_once_iff (store : FileStore) (sort : ReaderSort)
    (readers : Nat → Backend) (capacity threads : Nat) (moves : List Move) {last : Floor}
    (hnew : ∀ built, (readers built).IsNew ∧ (readers built).sort = sort)
    (hrun : Course.follow step moves (opened capacity threads store readers) = some last)
    (hproper : Proper store sort last.added) (hover : last.IsWoundUp) :
    (Course.Never step Hasty moves (opened capacity threads store readers) →
      last.Delivered store) ∧
    (last.Delivered store ↔
      Course.Never step Forsakes moves (opened capacity threads store readers) ∧
        ∀ f ∈ last.supervisor.crew, f.IsDone) := by
  have hopened : (opened capacity threads store readers).Kept store sort fun _ => [] :=
    ⟨orderly_opened hnew, balanced_opened⟩
  obtain ⟨lost, hk, hlost⟩ := kept_follow hopened hproper hrun
  simp only [List.append_nil] at hk
  have hcomplete (hkeeps : Course.Never step Forsakes moves (opened capacity threads store readers))
      (hdone : ∀ f ∈ last.supervisor.crew, f.IsDone) : last.Delivered store := by
    refine delivered_of_done hproper hover (fun id => ?_) hdone
    have hnone : lost id = [] := by_contra fun hne => hlost.1 ⟨id, hne⟩ hkeeps
    exact hnone ▸ hk.books id
  refine ⟨fun hhasty => ?_, fun hdelivered => ⟨?_, ?_⟩, fun h => hcomplete h.1 h.2⟩
  · obtain ⟨hkeeps, hcalm⟩ := calm_follow hopened hproper calm_opened hhasty hrun
    exact hcomplete hkeeps fun f hf => .inr (Supervisor.isSpent_of_vacant hcalm hover.slots hf)
  · by_contra hforsakes
    obtain ⟨id, hne⟩ := hlost.2 hforsakes
    exact hne (nothing_of_delivered hproper hover hdelivered (hk.books id)).2
  · exact done_of_delivered hk hproper hover hdelivered

/-- One split is added and read, its batch is polled, and its fetcher is retired. -/
def briefCourse : List Move :=
  [.addSplits [.range ⟨"a", 0, 1⟩]] ++ List.replicate 6 .work ++
    List.replicate 13 (.thread 0 []) ++ [.poll, .reap] ++ List.replicate 7 .work

/-- On that course the split is delivered. -/
theorem one_split_delivered :
    ∃ last : Floor,
      Course.follow step briefCourse
          (opened 1 1 .empty fun _ => .ranges (.withLimits 1 0)) = some last ∧
        Proper .empty .ranges last.added ∧ last.IsWoundUp ∧ last.Delivered .empty := by
  have hproper : Proper .empty .ranges [.range ⟨"a", 0, 1⟩] :=
    ⟨by decide, List.forall_mem_singleton.2 ⟨rfl, by decide⟩⟩
  refine ⟨_, rfl, hproper, ⟨rfl, rfl, rfl⟩, ?_⟩
  exact (delivered_exactly_once_iff .empty .ranges (fun _ => .ranges (.withLimits 1 0)) 1 1
    briefCourse (fun _ => ⟨rfl, rfl⟩) rfl hproper ⟨rfl, rfl, rfl⟩).1 (by decide)

/-- A split that is added when the thread has finished with another one and goes on to raise the
idle flag: the fetcher is retired with it, and it is never delivered. -/
theorem one_split_lost :
    ∃ last : Floor,
      Course.follow step
          ([.addSplits [.range ⟨"a", 0, 1⟩]] ++ List.replicate 6 .work ++
            List.replicate 11 (.thread 0 []) ++ [.addSplits [.range ⟨"b", 0, 1⟩]] ++
            List.replicate 6 .work ++ [.thread 0 [], .reap] ++ List.replicate 7 .work ++ [.poll])
          (opened 1 1 .empty fun _ => .ranges (.withLimits 1 0)) = some last ∧
        Proper .empty .ranges last.added ∧ last.IsWoundUp ∧ ¬ last.Delivered .empty := by
  refine ⟨_, rfl, ⟨by decide, ?_⟩, ⟨rfl, rfl, rfl⟩, fun hdelivered => ?_⟩
  · exact List.forall_mem_cons.2
      ⟨⟨rfl, by decide⟩, List.forall_mem_singleton.2 ⟨rfl, by decide⟩⟩
  · exact absurd (hdelivered (.range ⟨"b", 0, 1⟩) (by decide)) (by decide)

end SplitFeed.Floor
