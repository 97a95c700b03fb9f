/-
# Calls and their tasks

A supervisor's own functions carry out a call without a gap.  On a floor a call is a list of tasks,
which others may come between.  When nobody does, carrying out the tasks one after the other is
what the supervisor's functions do.
-/
import SplitFeed.Proofs.Supervisor.Floor

namespace SplitFeed

namespace Supervisor

variable {ρ : Type} [SplitReader ρ]

/-- Tasks, and what follows from them, carried out with nothing in between: whether they succeed,
and the supervisor afterwards. -/
inductive Through : List Task → Supervisor ρ → Except Failure Unit × Supervisor ρ → Prop
  | done (s : Supervisor ρ) : Through [] s (.ok (), s)
  | goOn {task more later s mid result} (h : s.perform task = (.ok more, mid))
      (rest : Through (more ++ later) mid result) : Through (task :: later) s result
  | fail {task later s mid failure} (h : s.perform task = (.error failure, mid)) :
      Through (task :: later) s (.error failure, mid)

variable {s mid : Supervisor ρ} {f g : Fetcher ρ} {id : Nat} {first later : List Task}
  {result : Except Failure Unit × Supervisor ρ}

theorem through_append (hfirst : Through first s (.ok (), mid))
    (hlater : Through later mid result) :
    Through (first ++ later) s result := by
  generalize hok : ((.ok (), mid) : Except Failure Unit × Supervisor ρ) = outcome at hfirst
  induction hfirst with
  | done s =>
      obtain ⟨-, rfl⟩ := Prod.mk.inj hok
      exact hlater
  | goOn h _ ih =>
      refine .goOn h ?_
      rw [List.append_eq, ← List.append_assoc]
      exact ih hok
  | fail h => cases hok

theorem through_append_error {failure : Failure} (hfirst : Through first s (.error failure, mid)) :
    Through (first ++ later) s (.error failure, mid) := by
  generalize herror : ((.error failure, mid) : Except Failure Unit × Supervisor ρ) = outcome
    at hfirst
  induction hfirst with
  | done s => cases herror
  | goOn h _ ih =>
      refine .goOn h ?_
      rw [List.append_eq, ← List.append_assoc]
      exact ih herror
  | fail h =>
      obtain ⟨hfailure, rfl⟩ := Prod.mk.inj herror
      obtain rfl := Except.error.inj hfailure
      exact .fail h

/-- Wherever a move carries out the first of some tasks, such moves carry out all of them and what
follows from them. -/
theorem follow_through {σ μ : Type} (step : μ → σ → Option σ) (work : μ) {tasks : List Task}
    (state : Supervisor ρ → List Task → σ) (ended : Except Failure Unit × Supervisor ρ → σ)
    (hdone : ∀ s, state s [] = ended (.ok (), s))
    (hgoesOn : ∀ {s task more later mid}, s.perform task = (.ok more, mid) →
      step work (state s (task :: later)) = some (state mid (more ++ later)))
    (hfails : ∀ {s task later failure mid}, s.perform task = (.error failure, mid) →
      step work (state s (task :: later)) = some (ended (.error failure, mid)))
    (h : Through tasks s result) :
    ∃ count, Course.follow step (List.replicate count work) (state s tasks) =
      some (ended result) := by
  induction h with
  | done s => exact ⟨0, congrArg some (hdone s)⟩
  | goOn hperform _ ih =>
      obtain ⟨count, hcount⟩ := ih
      refine ⟨count + 1, ?_⟩
      rw [List.replicate_succ, Course.follow_cons, hgoesOn hperform]
      exact hcount
  | fail hperform => exact ⟨1, by rw [List.replicate_one, Course.follow_cons, hfails hperform]; rfl⟩

/-! ### Requests -/

omit [SplitReader ρ] in
/-- The fetcher that has taken another's place is found there. -/
theorem fetcher?_replace (hfound : s.fetcher? id = some f) (hid : g.id = id) (depot : Depot) :
    ({ s with depot }.replace g).fetcher? id = some g := by
  unfold fetcher? at *
  simp only [replace]
  generalize s.crew = crew at hfound
  induction crew with
  | nil => cases hfound
  | cons head crew ih =>
      rw [List.map_cons]
      by_cases hhead : head.id = g.id
      · rw [if_pos hhead, List.find?_cons_of_pos (by simp [hid])]
      · rw [if_neg hhead, List.find?_cons_of_neg (by simpa [← hid] using hhead)]
        refine ih ?_
        rwa [List.find?_cons_of_neg (by simpa [← hid] using hhead)] at hfound

omit [SplitReader ρ] in
/-- Of two fetchers that take one place, the later one is left. -/
theorem replace_replace (hid : g.id = f.id) (depot depot' : Depot) :
    { { s with depot }.replace f with depot := depot' }.replace g =
      { s with depot := depot' }.replace g := by
  simp only [replace, List.map_map]
  congr 1
  refine List.map_congr_left fun other _ => ?_
  by_cases hother : other.id = f.id <;> simp [hother, hid]

/-- The nudges of a request, carried out on a fetcher that has taken another's place. -/
theorem through_nudges (nudges : List Nudge) (depot : Depot) (hfound : s.fetcher? id = some f)
    (hid : g.id = id) :
    Through (nudges.map fun nudge => .errand (.nudge id nudge)) ({ s with depot }.replace g)
      (.ok (), { s with depot := (Nudge.applyAll nudges g depot).2 }.replace
        (Nudge.applyAll nudges g depot).1) := by
  induction nudges generalizing g depot with
  | nil => exact .done _
  | cons nudge nudges ih =>
      have hperform : ({ s with depot }.replace g).perform (.errand (.nudge id nudge)) =
          (.ok [],
            { s with depot := (nudge.apply g depot).2 }.replace (nudge.apply g depot).1) := by
        simp only [perform, run, fetcher?_replace hfound hid]
        exact congrArg _ (replace_replace (Fetcher.id_nudge nudge g depot) depot _)
      exact .goOn hperform (ih _ ((Fetcher.id_nudge nudge g depot).trans hid))

theorem through_ask (request : Request) (id : Nat) (s : Supervisor ρ) :
    Through [.errand (.ask id request)] s (.ok (), s.ask request id) := by
  cases hfound : s.fetcher? id with
  | none =>
      have hnone : s.ask request id = s := by simp [ask, hfound]
      rw [hnone]
      have hperform : s.perform (.errand (.ask id request)) = (.ok [], s) := by
        simp [perform, run, hfound]
      exact .goOn hperform (.done s)
  | some f =>
      obtain ⟨-, hid⟩ := mem_crew_of_fetcher? hfound
      have hask : s.ask request id =
          { s with depot := (Nudge.applyAll (request.enact f).2 (request.enact f).1 s.depot).2
            }.replace (Nudge.applyAll (request.enact f).2 (request.enact f).1 s.depot).1 := by
        simp [ask, hfound, Request.apply]
      have hperform : s.perform (.errand (.ask id request)) =
          (.ok ((request.enact f).2.map fun nudge => .errand (.nudge id nudge)),
            s.replace (request.enact f).1) := by
        simp [perform, run, hfound]
      rw [hask]
      refine .goOn hperform ?_
      rw [List.append_nil]
      exact through_nudges _ s.depot hfound ((Fetcher.id_enact request f).trans hid)

theorem through_askEach (request : Request) (ids : List Nat) (s : Supervisor ρ) :
    Through (ids.map fun id => .errand (.ask id request)) s (.ok (), s.askEach request ids) := by
  induction ids generalizing s with
  | nil => exact .done s
  | cons id ids ih => exact through_append (through_ask request id s) (ih (s.ask request id))

/-! ### Dealing and sweeping -/

theorem through_giveTo (slot : Nat) (splits : List Split) (s : Supervisor ρ) :
    Through [.give slot splits] s (s.giveTo slot splits) := by
  unfold giveTo
  split
  · next hnone =>
    have hperform : s.perform (.give slot splits) = (.ok [], s) := by simp [perform, hnone]
    exact .goOn hperform (.done s)
  · next hsome =>
    split
    · next id hseat =>
      have hperform : s.perform (.give slot splits) =
          (.ok [.errand (.ask id (.addSplits splits))], s) := by
        simp only [perform, hsome, hseat, Bool.false_eq_true, ↓reduceIte]
      exact .goOn hperform (through_ask _ _ _)
    · next hseat =>
      split
      · next failure after hspawn =>
        exact .fail (by simp only [perform, hsome, hseat, hspawn, Bool.false_eq_true, ↓reduceIte])
      · next id after hspawn =>
        have hperform : s.perform (.give slot splits) =
            (.ok [.errand (.ask id (.addSplits splits))],
              { after with slots := after.slots.set slot (some id) }) := by
          simp only [perform, hsome, hseat, hspawn, Bool.false_eq_true, ↓reduceIte]
        exact .goOn hperform (through_ask _ _ _)

theorem through_giveAll (hand : Nat → List Split) (slots : List Nat) (s : Supervisor ρ) :
    Through (slots.map fun slot => .give slot (hand slot)) s (giveAll hand slots s) := by
  induction slots generalizing s with
  | nil => exact .done s
  | cons slot slots ih =>
      have hgive := through_giveTo slot (hand slot) s
      rcases hgiven : s.giveTo slot (hand slot) with ⟨outcome, after⟩
      rw [hgiven] at hgive
      cases outcome with
      | error failure =>
          simp only [giveAll, hgiven]
          exact through_append_error hgive
      | ok u =>
          simp only [giveAll, hgiven]
          exact through_append hgive (ih after)

theorem through_sweep (slot : Nat) (s : Supervisor ρ) :
    Through [.sweep slot] s (.ok (), match s.vacate slot with
      | (some id, after) => after.ask (.stop .immediate) id
      | (none, after) => after) := by
  rcases hvacate : s.vacate slot with ⟨_ | id, after⟩
  · have hperform : s.perform (.sweep slot) = (.ok [], after) := by simp [perform, hvacate]
    exact .goOn hperform (.done after)
  · have hperform : s.perform (.sweep slot) =
        (.ok [.errand (.ask id (.stop .immediate))], after) := by simp [perform, hvacate]
    exact .goOn hperform (through_ask _ _ _)

theorem through_reap (s : Supervisor ρ) :
    Through ((List.range s.slots.length).map .sweep) s (.ok (), s.reap.2) := by
  simp only [reap]
  generalize List.range s.slots.length = slots
  induction slots generalizing s with
  | nil => exact .done s
  | cons slot slots ih =>
      rw [List.foldl_cons]
      exact through_append (through_sweep slot s) (ih _)

/-! ### Saying farewell -/

theorem through_requests (requests : List Request) (id : Nat) (s : Supervisor ρ) :
    Through (requests.map fun request => .errand (.ask id request)) s
      (.ok (), requests.foldl (fun supervisor request => supervisor.ask request id) s) := by
  induction requests generalizing s with
  | nil => exact .done s
  | cons request requests ih => exact through_append (through_ask request id s) (ih _)

theorem through_farewells (ids : List Nat) (s : Supervisor ρ) :
    Through (ids.flatMap fun id => farewell.map fun request => .errand (.ask id request)) s
      (.ok (), ids.foldl (fun supervisor id => supervisor.dismiss id) s) := by
  induction ids generalizing s with
  | nil => exact .done s
  | cons id ids ih => exact through_append (through_requests farewell id s) (ih _)

/-! ### Every call comes to an end -/

/-- A nudge is a task from which nothing follows. -/
theorem exists_through_nudge (id : Nat) (nudge : Nudge) (s : Supervisor ρ) :
    ∃ after, Through [.errand (.nudge id nudge)] s (.ok (), after) := by
  cases hfound : s.fetcher? id with
  | none =>
      have hperform : s.perform (.errand (.nudge id nudge)) = (.ok [], s) := by
        simp [perform, run, hfound]
      exact ⟨s, .goOn hperform (.done s)⟩
  | some f =>
      have hperform : s.perform (.errand (.nudge id nudge)) =
          (.ok [], { s with depot := (nudge.apply f s.depot).2 }.replace
            (nudge.apply f s.depot).1) := by
        simp [perform, run, hfound]
      exact ⟨_, .goOn hperform (.done _)⟩

theorem exists_through_task (task : Task) (s : Supervisor ρ) :
    ∃ result, Through [task] s result := by
  cases task with
  | errand errand =>
      cases errand with
      | ask id request => exact ⟨_, through_ask request id s⟩
      | nudge id nudge =>
          obtain ⟨after, h⟩ := exists_through_nudge id nudge s
          exact ⟨_, h⟩
  | give slot splits => exact ⟨_, through_giveTo slot splits s⟩
  | sweep slot => exact ⟨_, through_sweep slot s⟩

/-- Whatever tasks there are, carrying them out comes to an end. -/
theorem exists_through (tasks : List Task) (s : Supervisor ρ) :
    ∃ result, Through tasks s result := by
  induction tasks generalizing s with
  | nil => exact ⟨_, .done s⟩
  | cons task later ih =>
      obtain ⟨⟨outcome, mid⟩, hfirst⟩ := exists_through_task task s
      cases outcome with
      | error failure => exact ⟨_, through_append_error hfirst⟩
      | ok u =>
          obtain ⟨result, hlater⟩ := ih mid
          exact ⟨result, through_append hfirst hlater⟩

end Supervisor

namespace Floor

open Supervisor

variable {floor : Floor}

/-- A caller whom nobody disturbs carries out a call. -/
theorem follow_work (floor : Floor) {tasks : List Task}
    {result : Except Failure Unit × Supervisor Backend}
    (h : Through tasks floor.supervisor result) (htasks : floor.tasks = tasks) :
    ∃ count, Course.follow step (List.replicate count .work) floor =
      some { floor with supervisor := result.2, tasks := [] } := by
  subst htasks
  exact follow_through step .work (fun supervisor tasks => { floor with supervisor, tasks })
    (fun result => { floor with supervisor := result.2, tasks := [] }) (fun _ => rfl)
    (fun hperform => by simp only [step, hperform])
    (fun hperform => by simp only [step, hperform]) h

/-- Splits that are added while nobody comes between are added by the supervisor's function. -/
theorem follow_addSplits (splits : List Split) (htasks : floor.tasks = []) :
    ∃ count, Course.follow step (.addSplits splits :: List.replicate count .work) floor =
      some { floor with
        supervisor := (floor.supervisor.addSplits splits).2
        tasks := []
        added := floor.added ++ splits } := by
  let called : Floor := { floor with
    supervisor := dealtPast splits floor.supervisor
    tasks := dealing splits floor.supervisor
    added := floor.added ++ splits }
  have hstep : floor.step (.addSplits splits) = some called := by simp [step, htasks, called]
  obtain ⟨count, hcount⟩ := follow_work called (through_giveAll _ _ _) rfl
  refine ⟨count, ?_⟩
  rw [Course.follow_cons, hstep]
  exact hcount

/-- So it is with waking everybody up. -/
theorem follow_wakeAll (force : Bool) (htasks : floor.tasks = []) :
    ∃ count, Course.follow step (.wakeAll force :: List.replicate count .work) floor =
      some { floor with
        supervisor := floor.supervisor.askLive (.wakeUp force)
        tasks := [] } := by
  let called : Floor := { floor with tasks := waking force floor.supervisor }
  have hstep : floor.step (.wakeAll force) = some called := by simp [step, htasks, called]
  obtain ⟨count, hcount⟩ := follow_work called (through_askEach _ _ _) rfl
  refine ⟨count, ?_⟩
  rw [Course.follow_cons, hstep]
  exact hcount

/-- And with retiring fetchers, which says whether all slots are empty then. -/
theorem follow_reap (htasks : floor.tasks = []) :
    ∃ count last, Course.follow step (.reap :: List.replicate count .work) floor = some last ∧
      last = { floor with supervisor := floor.supervisor.reap.2, tasks := [] } ∧
      floor.supervisor.reap.1 = last.supervisor.isVacant := by
  let called : Floor := { floor with tasks := reaping floor.supervisor }
  have hstep : floor.step .reap = some called := by simp [step, htasks, called]
  obtain ⟨count, hcount⟩ := follow_work called (through_reap _) rfl
  refine ⟨count, _, ?_, rfl, rfl⟩
  rw [Course.follow_cons, hstep]
  exact hcount

end Floor

end SplitFeed
