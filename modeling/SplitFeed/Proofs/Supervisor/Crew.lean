/-
# A supervisor and its crew

The crew is a list of fetchers with different ids.  Whatever happens to a supervisor happens to one
fetcher at a time, to the queue, or to the slots: the lemmas below say what is left of the rest.

What the caller of a supervisor does is cut into tasks, between which the fetch threads may go on.
A task may leave further tasks behind, which come next.  `Supervisor.perform` carries out one task.
-/
import SplitFeed.Supervisor
import SplitFeed.Proofs.Fetcher.Rest

namespace SplitFeed

/-- Part of a call that is carried out in one go. -/
inductive Task where
  | errand (errand : Errand)
  /-- Finds or starts the fetcher in a slot, to give it splits. -/
  | give (slot : Nat) (splits : List Split)
  /-- Takes the fetcher out of a slot if it has no more to do there, to stop it. -/
  | sweep (slot : Nat)

namespace Supervisor

variable {ρ : Type}

/-- The supervisor after the next step of a crew member's thread, if it has one. -/
def stepThread? [SplitReader ρ] (id : Nat) (disturbed : List Bool) (supervisor : Supervisor ρ) :
    Option (Supervisor ρ) :=
  match supervisor.fetcher? id with
  | none => none
  | some fetcher =>
    (stepFetcher? disturbed fetcher supervisor.depot).map fun (next, depot) =>
      { supervisor with depot }.replace next

/-- Carries out one task; answers the tasks that follow from it, or why the call fails. -/
def perform [SplitReader ρ] (task : Task) (supervisor : Supervisor ρ) :
    Except Failure (List Task) × Supervisor ρ :=
  match task with
  | .errand errand =>
    let (more, supervisor) := supervisor.run errand
    (.ok (more.map .errand), supervisor)
  | .give slot splits =>
    if splits.isEmpty then (.ok [], supervisor)
    else
      match supervisor.slots.getD slot none with
      | some id => (.ok [.errand (.ask id (.addSplits splits))], supervisor)
      | none =>
        match supervisor.spawn with
        | (.error failure, supervisor) => (.error failure, supervisor)
        | (.ok id, supervisor) =>
          (.ok [.errand (.ask id (.addSplits splits))],
            { supervisor with slots := supervisor.slots.set slot (some id) })
  | .sweep slot =>
    match supervisor.vacate slot with
    | (some id, supervisor) => (.ok [.errand (.ask id (.stop .immediate))], supervisor)
    | (none, supervisor) => (.ok [], supervisor)

theorem perform_errand [SplitReader ρ] (errand : Errand) (supervisor : Supervisor ρ) :
    supervisor.perform (.errand errand) =
      (.ok ((supervisor.run errand).1.map .errand), (supervisor.run errand).2) := rfl

/-! ### Finding and replacing fetchers -/

/-- The ids of the crew. -/
def ids (supervisor : Supervisor ρ) : List Nat := supervisor.crew.map (·.id)

variable {s : Supervisor ρ} {f g : Fetcher ρ} {id : Nat}

theorem mem_crew_of_fetcher? (h : s.fetcher? id = some f) : f ∈ s.crew ∧ f.id = id := by
  refine ⟨List.mem_of_find?_eq_some h, ?_⟩
  simpa using List.find?_some h

theorem fetcher?_of_mem_crew (hunique : s.ids.Nodup) (hmem : f ∈ s.crew) :
    s.fetcher? f.id = some f := by
  unfold ids at hunique
  unfold fetcher?
  generalize s.crew = crew at hunique hmem
  induction crew with
  | nil => cases hmem
  | cons head crew ih =>
      rw [List.map_cons, List.nodup_cons] at hunique
      rcases List.mem_cons.1 hmem with rfl | hrest
      · simp
      · have hne : head.id ≠ f.id := fun hsame =>
          hunique.1 (hsame ▸ List.mem_map_of_mem (f := (·.id)) hrest)
        rw [List.find?_cons_of_neg (by simpa using hne)]
        exact ih hunique.2 hrest

/-- Fetchers with one id are one. -/
theorem eq_of_id_eq (hunique : s.ids.Nodup) (hf : f ∈ s.crew) (hg : g ∈ s.crew)
    (hid : f.id = g.id) : f = g := by
  have hfound := fetcher?_of_mem_crew hunique hf
  rw [hid, fetcher?_of_mem_crew hunique hg] at hfound
  exact (Option.some.inj hfound).symm

/-- What holds of the fetcher with a given id. -/
theorem exists_crew_iff {P : Fetcher ρ → Prop} (hunique : s.ids.Nodup) (hf : f ∈ s.crew) :
    (∃ g ∈ s.crew, g.id = f.id ∧ P g) ↔ P f := by
  constructor
  · rintro ⟨g, hg, hid, hholds⟩
    rwa [eq_of_id_eq hunique hf hg hid.symm]
  · exact fun hholds => ⟨f, hf, rfl, hholds⟩

theorem mem_crew_replace (hmem : f ∈ (s.replace g).crew) :
    f = g ∨ (f ∈ s.crew ∧ f.id ≠ g.id) := by
  simp only [replace, List.mem_map] at hmem
  obtain ⟨other, hother, rfl⟩ := hmem
  split
  · exact .inl rfl
  · next hne => exact .inr ⟨hother, hne⟩

/-- What holds of every fetcher and of one that takes another's place holds of every fetcher
after that. -/
theorem forall_crew_replace {holds : Fetcher ρ → Prop} (hall : ∀ f ∈ s.crew, holds f)
    (hnew : holds g) : ∀ f ∈ (s.replace g).crew, holds f := by
  intro f hmem
  rcases mem_crew_replace hmem with rfl | ⟨hold, -⟩
  · exact hnew
  · exact hall f hold

/-- The fetcher that takes another's place is there, and so are all others. -/
theorem mem_replace_self (hf : f ∈ s.crew) (hid : g.id = f.id) : g ∈ (s.replace g).crew := by
  simp only [replace, List.mem_map]
  exact ⟨f, hf, by simp [hid]⟩

theorem mem_replace_other (hf : f ∈ s.crew) (hne : f.id ≠ g.id) : f ∈ (s.replace g).crew := by
  simp only [replace, List.mem_map]
  exact ⟨f, hf, by simp [hne]⟩

@[simp]
theorem ids_replace (s : Supervisor ρ) (g : Fetcher ρ) : (s.replace g).ids = s.ids := by
  simp only [ids, replace, List.map_map]
  refine List.map_congr_left fun f _ => ?_
  simp only [Function.comp_apply]
  split
  · next hid => exact hid.symm
  · rfl

@[simp]
theorem liveIds_replace (s : Supervisor ρ) (g : Fetcher ρ) :
    (s.replace g).liveIds = s.liveIds := rfl

/-! ### Steps of threads -/

/-- A step of a crew member's thread: one of the thread, or its vanishing when the loop is
over. -/
inductive Stride [SplitReader ρ] (disturbed : List Bool) (f : Fetcher ρ) (d : Depot) :
    Fetcher ρ → Depot → Prop
  | advance {g e} (h : Fetcher.Advance disturbed f d g e) : Stride disturbed f d g e
  | vanish {failure} (hphase : f.phase = .ended failure) :
      Stride disturbed f d { f with phase := .gone }
        { d with failures := d.failures ++ failure.toList }

theorem stride_of_stepFetcher? [SplitReader ρ] {disturbed : List Bool} {d e : Depot}
    (h : stepFetcher? disturbed f d = some (g, e)) : Stride disturbed f d g e := by
  unfold stepFetcher? at h
  split at h
  · next failure hphase =>
      obtain ⟨rfl, rfl⟩ := Prod.mk.inj (Option.some.inj h)
      exact .vanish hphase
  · exact .advance (Fetcher.advance_of_step? h)

/-- A thread's step replaces the fetcher with its id, and the depot. -/
theorem found_of_stepThread? [SplitReader ρ] {disturbed : List Bool} {next : Supervisor ρ}
    (h : s.stepThread? id disturbed = some next) :
    ∃ f, s.fetcher? id = some f ∧ ∃ g e, Stride disturbed f s.depot g e ∧
      next = { s with depot := e }.replace g := by
  unfold stepThread? at h
  split at h
  · cases h
  · next f hfound =>
      simp only [Option.map_eq_some_iff, Prod.exists] at h
      obtain ⟨g, e, hstep, rfl⟩ := h
      exact ⟨f, hfound, g, e, stride_of_stepFetcher? hstep, rfl⟩

/-- That fetcher is one of the crew. -/
theorem stride_of_stepThread? [SplitReader ρ] {disturbed : List Bool} {next : Supervisor ρ}
    (h : s.stepThread? id disturbed = some next) :
    ∃ f ∈ s.crew, f.id = id ∧ ∃ g e, Stride disturbed f s.depot g e ∧
      next = { s with depot := e }.replace g := by
  obtain ⟨f, hfound, hstep⟩ := found_of_stepThread? h
  obtain ⟨hmem, hid⟩ := mem_crew_of_fetcher? hfound
  exact ⟨f, hmem, hid, hstep⟩

/-- A step leaves the fetcher's id and the room in the queue as they are, and the queue's content
grows by what the thread hands over. -/
theorem advanced_of_stride [SplitReader ρ] {disturbed : List Bool} {d e : Depot}
    (h : Stride disturbed f d g e) : Fetcher.Advanced f d g e := by
  cases h with
  | advance h => exact Fetcher.advanced h
  | vanish hphase =>
      exact Fetcher.advanced_of_queue_eq rfl rfl rfl (by simp [Fetcher.offers, hphase]) rfl

/-- A thread that vanishes leaves its flags as they were. -/
theorem coherent_vanish {failure : Option Failure} (hf : f.Coherent)
    (hphase : f.phase = .ended failure) : Fetcher.Coherent { f with phase := .gone } := by
  obtain ⟨hfetching, hnot, hempty, hnoted, hclosed, hstopped⟩ := hf
  constructor <;> simp_all [Phase.isFetch, Phase.isPanic, Phase.isEmptyHanded, Phase.isNoted,
    Phase.isSettled]

/-! ### What is left alone -/

/-- Whoever has no more to do in a slot leaves it; nobody else comes or goes. -/
theorem vacate_cases (s : Supervisor ρ) (slot : Nat) :
    s.vacate slot = (none, s) ∨
      ∃ f ∈ s.crew, isFinished f = true ∧ s.slots[slot]? = some (some f.id) ∧
        s.vacate slot = (some f.id,
          { s with slots := s.slots.set slot none, retired := s.retired ++ [f.id] }) := by
  cases hseat : s.slots[slot]? with
  | none => simp [vacate, List.getD, hseat]
  | some seat =>
      cases seat with
      | none => simp [vacate, List.getD, hseat]
      | some id =>
          cases hfound : s.fetcher? id with
          | none => simp [vacate, List.getD, hseat, hfound]
          | some f =>
              obtain ⟨hmem, rfl⟩ := mem_crew_of_fetcher? hfound
              cases hfinished : isFinished f with
              | false => simp [vacate, List.getD, hseat, hfound, hfinished]
              | true =>
                  exact .inr ⟨f, hmem, hfinished, rfl, by
                    simp [vacate, List.getD, hseat, hfound, hfinished]⟩

/-- The seats before and after the one in a given slot. -/
theorem liveIds_set {slot : Nat} {seat : Option Nat} (h : s.slots[slot]? = some seat) :
    ∃ before after, s.liveIds = before ++ seat.toList ++ after ∧
      ∀ (seat' : Option Nat) (retired : List Nat),
        { s with slots := s.slots.set slot seat', retired }.liveIds =
          before ++ seat'.toList ++ after := by
  obtain ⟨hlt, hseat⟩ := List.getElem?_eq_some_iff.1 h
  have hone (seat : Option Nat) (rest : List (Option Nat)) :
      (seat :: rest).filterMap id = seat.toList ++ rest.filterMap id := by
    cases seat <;> rfl
  refine ⟨(s.slots.take slot).filterMap id, (s.slots.drop (slot + 1)).filterMap id, ?_, ?_⟩
  · have hsplit : s.slots = s.slots.take slot ++ seat :: s.slots.drop (slot + 1) := by
      rw [← hseat, ← List.drop_eq_getElem_cons hlt, List.take_append_drop]
    rw [liveIds, List.append_assoc, ← hone, ← List.filterMap_append, ← hsplit]
  · intro seat' retired
    rw [liveIds, List.set_eq_take_append_cons_drop, if_pos hlt, List.filterMap_append, hone,
      List.append_assoc]

/-- Threads leave slots and files alone. -/
theorem frame_of_stepThread? [SplitReader ρ] {disturbed : List Bool} {next : Supervisor ρ}
    (h : s.stepThread? id disturbed = some next) :
    next.slots = s.slots ∧ next.depot.store = s.depot.store := by
  obtain ⟨f, -, -, g, e, hstride, rfl⟩ := stride_of_stepThread? h
  exact ⟨rfl, (advanced_of_stride hstride).store⟩

/-- So do tasks, but for who is in which slot. -/
theorem store_run [SplitReader ρ] (errand : Errand) (s : Supervisor ρ) :
    (s.run errand).2.depot.store = s.depot.store := by
  cases errand with
  | ask id request =>
      simp only [run]
      split <;> rfl
  | nudge id nudge =>
      simp only [run]
      split
      · rfl
      · cases nudge <;> rfl

theorem store_perform [SplitReader ρ] (task : Task) (s : Supervisor ρ) :
    (s.perform task).2.depot.store = s.depot.store := by
  cases task with
  | errand errand => exact store_run errand s
  | give slot splits =>
      simp only [perform, spawn]
      split
      · rfl
      · split
        · rfl
        · cases s.factory s.built <;> rfl
  | sweep slot =>
      rcases vacate_cases s slot with hnone | ⟨f, -, -, -, hsome⟩
      · simp only [perform, hnone]
      · simp only [perform, hsome]

end Supervisor

end SplitFeed
