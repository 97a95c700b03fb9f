/-
# Threads that take turns

The threads of a crew may go on in any order.  Letting each of them that can make one step, in crew
order, is one of these orders: a turn is a course of steps, and so are turns until nobody can go on.
The steps are of the threads that may go on, and of nobody else.
-/
import SplitFeed.Proofs.Course
import SplitFeed.Proofs.Supervisor.Crew
import Mathlib.Data.List.Nodup

namespace SplitFeed.Supervisor

variable {ρ : Type} {s : Supervisor ρ} {may : Fetcher ρ → Bool} {f g : Fetcher ρ}
  {before crew rest : List (Fetcher ρ)} {depot after : Depot} {turns : Nat}

/-- A fetcher with the id of one of a crew takes its place, and all others keep theirs. -/
theorem replace_split (honce : ((before ++ f :: rest).map (·.id)).Nodup) (hid : g.id = f.id) :
    { s with crew := before ++ f :: rest }.replace g = { s with crew := before ++ g :: rest } := by
  rw [List.map_append, List.map_cons, List.nodup_middle, ← List.map_append,
    List.nodup_cons] at honce
  have hothers {some : List (Fetcher ρ)} (hsub : some ⊆ before ++ rest) :
      some.map (fun other => if other.id = g.id then g else other) = some := by
    refine (List.map_congr_left fun other hmem => if_neg ?_).trans (List.map_id some)
    intro hsame
    exact honce.1 (hid ▸ hsame ▸ List.mem_map_of_mem (hsub hmem))
  simp only [replace, List.map_append, List.map_cons, if_pos hid.symm,
    hothers (List.subset_append_left before rest), hothers (List.subset_append_right before rest)]

variable [SplitReader ρ]

/-- The supervisor after the next step of a thread that nobody disturbs and that may go on. -/
def stepWilling? (may : Fetcher ρ → Bool) (id : Nat) (supervisor : Supervisor ρ) :
    Option (Supervisor ρ) :=
  if (supervisor.fetcher? id).any may then supervisor.stepThread? id [] else none

/-! ### One turn -/

theorem turn_of_goes (hmay : may f = true) (h : stepFetcher? [] f depot = some (g, after)) :
    turn may depot (f :: rest) =
      (true, g :: (turn may after rest).2.1, (turn may after rest).2.2) := by
  simp [turn, hmay, h]

theorem turn_of_stays (h : (if may f then stepFetcher? [] f depot else none) = none) :
    turn may depot (f :: rest) =
      ((turn may depot rest).1, f :: (turn may depot rest).2.1, (turn may depot rest).2.2) := by
  simp [turn, h]

/-- Nobody comes or goes in a turn. -/
theorem map_id_turn (may : Fetcher ρ → Bool) (depot : Depot) (crew : List (Fetcher ρ)) :
    (turn may depot crew).2.1.map (·.id) = crew.map (·.id) := by
  induction crew generalizing depot with
  | nil => rfl
  | cons f rest ih =>
      cases hstep : if may f then stepFetcher? [] f depot else none with
      | none => rw [turn_of_stays hstep, List.map_cons, List.map_cons, ih]
      | some moved =>
          obtain ⟨hmay, hmoved⟩ := Option.ite_none_right_eq_some.1 hstep
          rw [turn_of_goes hmay hmoved, List.map_cons, List.map_cons, ih,
            (advanced_of_stride (stride_of_stepFetcher? hmoved)).id]

/-- A thread that may go on, and can, makes its step wherever it stands in the crew. -/
theorem stepWilling?_split (honce : ((before ++ f :: rest).map (·.id)).Nodup)
    (hmay : may f = true) (h : stepFetcher? [] f depot = some (g, after)) :
    stepWilling? may f.id { s with crew := before ++ f :: rest, depot } =
      some { s with crew := before ++ g :: rest, depot := after } := by
  have hfound : { s with crew := before ++ f :: rest, depot }.fetcher? f.id = some f :=
    fetcher?_of_mem_crew honce (List.mem_append_right before List.mem_cons_self)
  have hid : g.id = f.id := (advanced_of_stride (stride_of_stepFetcher? h)).id
  have hreplace := replace_split (s := { s with depot := after }) honce hid
  simpa [stepWilling?, stepThread?, hfound, hmay, h] using hreplace

/-- A turn is a course of steps of threads that may go on.  Those of the crew that come before
those of the turn stay as they are. -/
theorem follow_turn (may : Fetcher ρ → Bool) (s : Supervisor ρ) (depot : Depot)
    (before crew : List (Fetcher ρ)) (honce : ((before ++ crew).map (·.id)).Nodup) :
    ∃ numbers : List Nat,
      Course.follow (stepWilling? may) numbers { s with crew := before ++ crew, depot } =
        some { s with
          crew := before ++ (turn may depot crew).2.1
          depot := (turn may depot crew).2.2 } := by
  induction crew generalizing before depot with
  | nil => exact ⟨[], rfl⟩
  | cons f rest ih =>
      cases hstep : if may f then stepFetcher? [] f depot else none with
      | none =>
          obtain ⟨numbers, hcourse⟩ := ih depot (before ++ [f]) (by simpa using honce)
          exact ⟨numbers, by simpa [turn_of_stays hstep] using hcourse⟩
      | some moved =>
          obtain ⟨g, after⟩ := moved
          obtain ⟨hmay, hmoved⟩ := Option.ite_none_right_eq_some.1 hstep
          have hid : g.id = f.id := (advanced_of_stride (stride_of_stepFetcher? hmoved)).id
          have honce' : (((before ++ [g]) ++ rest).map (·.id)).Nodup := by
            simpa [hid] using honce
          obtain ⟨numbers, hcourse⟩ := ih after (before ++ [g]) honce'
          refine ⟨f.id :: numbers, ?_⟩
          rw [turn_of_goes hmay hmoved, Course.follow_cons, stepWilling?_split honce hmay hmoved]
          simpa using hcourse

/-- The supervisor after a turn of its crew. -/
def turned (may : Fetcher ρ → Bool) (supervisor : Supervisor ρ) : Supervisor ρ :=
  { supervisor with
    crew := (turn may supervisor.depot supervisor.crew).2.1
    depot := (turn may supervisor.depot supervisor.crew).2.2 }

theorem ids_turned (may : Fetcher ρ → Bool) (s : Supervisor ρ) : (s.turned may).ids = s.ids :=
  map_id_turn may s.depot s.crew

theorem follow_turned (may : Fetcher ρ → Bool) (honce : s.ids.Nodup) :
    ∃ numbers : List Nat,
      Course.follow (stepWilling? may) numbers s = some (s.turned may) :=
  follow_turn may s s.depot [] s.crew honce

/-! ### Turn after turn -/

theorem settle_succ (may : Fetcher ρ → Bool) (turns : Nat) (s : Supervisor ρ) :
    settle may (turns + 1) s =
      if (turn may s.depot s.crew).1 then settle may turns (s.turned may) else s := by
  rcases hturn : turn may s.depot s.crew with ⟨moved, crew, depot⟩
  cases moved <;> simp [settle, turned, hturn]

/-- Turns until nobody can go on are a course of such steps as well. -/
theorem follow_settle (may : Fetcher ρ → Bool) (turns : Nat) (honce : s.ids.Nodup) :
    ∃ numbers : List Nat,
      Course.follow (stepWilling? may) numbers s = some (settle may turns s) := by
  induction turns generalizing s with
  | zero => exact ⟨[], rfl⟩
  | succ turns ih =>
      rw [settle_succ]
      split
      · obtain ⟨numbers, hturn⟩ := follow_turned may honce
        obtain ⟨later, hlater⟩ := ih ((ids_turned may s).symm ▸ honce)
        exact ⟨numbers ++ later, by rw [Course.follow_append, hturn]; exact hlater⟩
      · exact ⟨[], rfl⟩

end SplitFeed.Supervisor
