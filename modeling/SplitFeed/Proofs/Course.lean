/-
# Courses of moves

A system is a function that says what a move makes of a state, or that the move cannot be made
there.  A course is a list of moves, made one after the other from a given state.  Whoever
chooses the moves chooses the order in which the parties of the system take their turns, so a
statement about all courses is a statement about all interleavings.

A property of states can be asked of every state on a course, and a kind of move can be kept off
a course.  Both look only at what happens before the first move that cannot be made.
-/
import Mathlib.Data.Option.Basic

namespace SplitFeed.Course

variable {σ μ : Type} (step : μ → σ → Option σ)

/-- The state to which moves lead, if each of them can be made when its turn comes. -/
def follow : List μ → σ → Option σ
  | [], state => some state
  | move :: moves, state => (step move state).bind (follow moves)

/-- Every state on a course, its ends included, has a property. -/
def Always (holds : σ → Prop) : List μ → σ → Prop
  | [], state => holds state
  | move :: moves, state => holds state ∧ ∀ next ∈ step move state, Always holds moves next

/-- No move of a course is of a certain kind, which may depend on the state it is made in. -/
def Never (kind : σ → μ → Prop) : List μ → σ → Prop
  | [], _ => True
  | move :: moves, state => ¬ kind state move ∧ ∀ next ∈ step move state, Never kind moves next

/-- What the moves of a course yield in the states that they are made in, one after the other. -/
def gather {α : Type} (yield : σ → μ → List α) : List μ → σ → List α
  | [], _ => []
  | move :: moves, state =>
    yield state move ++ (step move state).elim [] (gather yield moves)

variable {step}

@[simp]
theorem follow_nil (state : σ) : follow step [] state = some state := rfl

@[simp]
theorem follow_cons (move : μ) (moves : List μ) (state : σ) :
    follow step (move :: moves) state = (step move state).bind (follow step moves) := rfl

theorem follow_append (first second : List μ) (state : σ) :
    follow step (first ++ second) state = (follow step first state).bind (follow step second) := by
  induction first generalizing state with
  | nil => rfl
  | cons move moves ih =>
      cases h : step move state with
      | none => simp [h]
      | some next => simp [h, ih]

/-- A course of at least one move begins with one that can be made. -/
theorem follow_cons_eq_some {move : μ} {moves : List μ} {state last : σ} :
    follow step (move :: moves) state = some last ↔
      ∃ next, step move state = some next ∧ follow step moves next = some last := by
  simp [Option.bind_eq_some_iff]

theorem first_of_always {holds : σ → Prop} {moves : List μ} {state : σ}
    (h : Always step holds moves state) : holds state := by
  cases moves with
  | nil => exact h
  | cons move moves => exact h.1

/-- What holds all along a course holds where it leads to. -/
theorem last_of_always {holds : σ → Prop} {moves : List μ} {state last : σ}
    (h : Always step holds moves state) (hlast : follow step moves state = some last) :
    holds last := by
  induction moves generalizing state with
  | nil => exact Option.some.inj hlast ▸ h
  | cons move moves ih =>
      obtain ⟨next, hmove, hrest⟩ := follow_cons_eq_some.1 hlast
      exact ih (h.2 next hmove) hrest

/-- Moves that are never of a certain kind make a course without it. -/
theorem never_of_forall (kind : σ → μ → Prop) {moves : List μ}
    (h : ∀ move ∈ moves, ∀ state, ¬ kind state move) (state : σ) :
    Never step kind moves state := by
  induction moves generalizing state with
  | nil => trivial
  | cons move moves ih =>
      exact ⟨h move List.mem_cons_self state, fun next _ =>
        ih (fun other hmem => h other (List.mem_cons_of_mem _ hmem)) next⟩

/-- What every move that is not of a certain kind preserves is preserved by a course without
moves of that kind. -/
theorem follow_preserves_of_never (holds : σ → Prop) {kind : σ → μ → Prop}
    (preserved : ∀ {move state next}, holds state → ¬ kind state move →
      step move state = some next → holds next)
    {moves : List μ} {state last : σ} (h : follow step moves state = some last)
    (never : Never step kind moves state) (first : holds state) : holds last := by
  induction moves generalizing state with
  | nil => exact Option.some.inj h ▸ first
  | cons move moves ih =>
      obtain ⟨next, hmove, hrest⟩ := follow_cons_eq_some.1 h
      exact ih hrest (never.2 next hmove) (preserved first never.1 hmove)

/-- What every move preserves is preserved by a course. -/
theorem follow_preserves (holds : σ → Prop)
    (preserved : ∀ {move state next}, holds state → step move state = some next → holds next)
    {moves : List μ} {state last : σ} (h : follow step moves state = some last)
    (first : holds state) : holds last :=
  follow_preserves_of_never holds (fun hstate _ hmove => preserved hstate hmove) h
    (never_of_forall (fun _ _ => False) (fun _ _ _ => id) state) first

/-- A course of two parts yields what its parts yield. -/
theorem gather_append {α : Type} {yield : σ → μ → List α} {first second : List μ}
    {state next : σ} (hfirst : follow step first state = some next) :
    gather step yield (first ++ second) state =
      gather step yield first state ++ gather step yield second next := by
  induction first generalizing state with
  | nil =>
      obtain rfl := Option.some.inj hfirst
      rfl
  | cons move moves ih =>
      obtain ⟨mid, hmove, hrest⟩ := follow_cons_eq_some.1 hfirst
      simp [gather, hmove, ih hrest]

/-- Moves that yield nothing make a course that yields nothing. -/
@[simp]
theorem gather_nothing {α : Type} (moves : List μ) (state : σ) :
    gather step (fun _ _ => ([] : List α)) moves state = [] := by
  induction moves generalizing state with
  | nil => rfl
  | cons move moves ih =>
      simp only [gather, List.nil_append]
      cases step move state with
      | none => rfl
      | some next => exact ih next

/-- What is read off from all that a course yields is what is read off from each move's share. -/
theorem gather_hom {α β : Type} {yield : σ → μ → List α} {read : List α → List β}
    (hnil : read [] = [])
    (happend : ∀ first second, read (first ++ second) = read first ++ read second)
    (moves : List μ) (state : σ) :
    read (gather step yield moves state) =
      gather step (fun state move => read (yield state move)) moves state := by
  induction moves generalizing state with
  | nil => exact hnil
  | cons move moves ih =>
      simp only [gather, happend]
      cases step move state with
      | none => simp [hnil]
      | some next => simp [ih]

/-- A system that does what another does, and records what the moves there yield, records what
whole courses yield. -/
theorem follow_records {α τ : Type} {stepOver : μ → τ → Option τ} {record : List α → σ → τ}
    {yield : σ → μ → List α}
    (recorded : ∀ move sofar state, stepOver move (record sofar state) =
      (step move state).map (record (sofar ++ yield state move)))
    (moves : List μ) (sofar : List α) (state : σ) :
    follow stepOver moves (record sofar state) =
      (follow step moves state).map (record (sofar ++ gather step yield moves state)) := by
  induction moves generalizing sofar state with
  | nil => simp [gather]
  | cons move moves ih =>
      simp only [follow_cons, recorded, gather]
      cases step move state with
      | none => rfl
      | some next => simp [ih]

/-- A move that can be made as long as a goal is not reached, and brings the state nearer to it,
leads there if it is made often enough. -/
theorem exists_goal {move : μ} (rank : σ → Nat) (holds goal : σ → Prop)
    (nearer : ∀ {state}, holds state →
      goal state ∨ ∃ next, step move state = some next ∧ holds next ∧ rank next < rank state)
    {state : σ} (h : holds state) :
    ∃ count ≤ rank state, ∃ last,
      follow step (List.replicate count move) state = some last ∧ goal last := by
  induction hrank : rank state using Nat.strongRecOn generalizing state with
  | ind steps ih =>
      rcases nearer h with hgoal | ⟨next, hmove, hnext, hless⟩
      · exact ⟨0, Nat.zero_le _, state, rfl, hgoal⟩
      · obtain ⟨count, hcount, last, hfollow, hlast⟩ := ih _ (hrank ▸ hless) hnext rfl
        refine ⟨count + 1, by omega, last, ?_, hlast⟩
        rw [List.replicate_succ, follow_cons, hmove]
        exact hfollow

/-- Whether a move of a certain kind is made can be found out by making the moves. -/
instance decidableNever (kind : σ → μ → Prop) [∀ state move, Decidable (kind state move)] :
    ∀ moves state, Decidable (Never step kind moves state)
  | [], _ => isTrue trivial
  | move :: moves, state =>
    match hmove : step move state with
    | none => decidable_of_iff (¬ kind state move) (by simp [Never, hmove])
    | some next =>
      have := decidableNever kind moves next
      decidable_of_iff (¬ kind state move ∧ Never step kind moves next) (by simp [Never, hmove])

/-- A course is without moves of two kinds if it is without either. -/
theorem never_or {kind other : σ → μ → Prop} {moves : List μ} {state : σ}
    (hkind : Never step kind moves state) (hother : Never step other moves state) :
    Never step (fun state move => kind state move ∨ other state move) moves state := by
  induction moves generalizing state with
  | nil => trivial
  | cons move moves ih =>
      exact ⟨not_or.2 ⟨hkind.1, hother.1⟩, fun next hmove =>
        ih (hkind.2 next hmove) (hother.2 next hmove)⟩

/-- What every move that is not of a certain kind preserves, with what it yields, is preserved by a
course without moves of that kind, with all that its moves yield. -/
theorem follow_gathers_of_never {α : Type} {yield : σ → μ → List α} {kind : σ → μ → Prop}
    (holds : List α → σ → Prop)
    (preserved : ∀ {move state next sofar}, holds sofar state → ¬ kind state move →
      step move state = some next → holds (sofar ++ yield state move) next)
    {moves : List μ} {state last : σ} {sofar : List α} (h : follow step moves state = some last)
    (never : Never step kind moves state) (first : holds sofar state) :
    holds (sofar ++ gather step yield moves state) last := by
  induction moves generalizing state sofar with
  | nil =>
      obtain rfl := Option.some.inj h
      simpa [gather] using first
  | cons move moves ih =>
      obtain ⟨next, hmove, hrest⟩ := follow_cons_eq_some.1 h
      have hnext := preserved first never.1 hmove
      simpa [gather, hmove] using ih hrest (never.2 next hmove) hnext

/-- What every move preserves, with what it yields, is preserved by a course with all that its moves
yield. -/
theorem follow_gathers {α : Type} {yield : σ → μ → List α} (holds : List α → σ → Prop)
    (preserved : ∀ {move state next sofar}, holds sofar state → step move state = some next →
      holds (sofar ++ yield state move) next)
    {moves : List μ} {state last : σ} {sofar : List α} (h : follow step moves state = some last)
    (first : holds sofar state) : holds (sofar ++ gather step yield moves state) last :=
  follow_gathers_of_never holds (fun hsofar _ hmove => preserved hsofar hmove) h
    (never_of_forall (fun _ _ => False) (fun _ _ _ => id) state) first

/-- If every move that is not of a certain kind gives out, in order, what was held before it and
what it takes in, up to what is held after it, so does a course without moves of that kind. -/
theorem gather_balance_of_never {α : Type} {held : σ → List α} {takes gives : σ → μ → List α}
    {kind : σ → μ → Prop} (holds : σ → Prop)
    (preserved : ∀ {move state next}, holds state → ¬ kind state move →
      step move state = some next → holds next)
    (balanced : ∀ {move state next}, holds state → ¬ kind state move →
      step move state = some next →
        held state ++ takes state move = gives state move ++ held next)
    {moves : List μ} {state last : σ} (h : follow step moves state = some last)
    (never : Never step kind moves state) (first : holds state) :
    held state ++ gather step takes moves state = gather step gives moves state ++ held last := by
  induction moves generalizing state with
  | nil =>
      obtain rfl := Option.some.inj h
      simp [gather]
  | cons move moves ih =>
      obtain ⟨next, hmove, hrest⟩ := follow_cons_eq_some.1 h
      have hhere := balanced first never.1 hmove
      have hthere := ih hrest (never.2 next hmove) (preserved first never.1 hmove)
      simp only [gather, hmove, Option.elim_some]
      rw [← List.append_assoc, hhere, List.append_assoc, hthere, List.append_assoc]

/-- If every move gives out, in order, what was held before it and what it takes in, up to what is
held after it, so does a course. -/
theorem gather_balance {α : Type} {held : σ → List α} {takes gives : σ → μ → List α}
    (holds : σ → Prop)
    (preserved : ∀ {move state next}, holds state → step move state = some next → holds next)
    (balanced : ∀ {move state next}, holds state → step move state = some next →
      held state ++ takes state move = gives state move ++ held next)
    {moves : List μ} {state last : σ} (h : follow step moves state = some last)
    (first : holds state) :
    held state ++ gather step takes moves state = gather step gives moves state ++ held last :=
  gather_balance_of_never holds (fun hstate _ hmove => preserved hstate hmove)
    (fun hstate _ hmove => balanced hstate hmove) h
    (never_of_forall (fun _ _ => False) (fun _ _ _ => id) state) first

/-- If every move gives out what was held before it and what it takes in, up to what is held after
it, so does a course, in whatever order. -/
theorem gather_balance_perm {α : Type} {held : σ → List α} {takes gives : σ → μ → List α}
    (balanced : ∀ {move state next}, step move state = some next →
      (held state ++ takes state move).Perm (gives state move ++ held next))
    {moves : List μ} {state last : σ} (h : follow step moves state = some last) :
    (held state ++ gather step takes moves state).Perm
      (gather step gives moves state ++ held last) := by
  induction moves generalizing state with
  | nil =>
      obtain rfl := Option.some.inj h
      simp [gather]
  | cons move moves ih =>
      obtain ⟨next, hmove, hrest⟩ := follow_cons_eq_some.1 h
      have hhere := balanced hmove
      have hthere := ih hrest
      simp only [gather, hmove, Option.elim_some]
      rw [← List.append_assoc, List.append_assoc (gives state move)]
      exact (hhere.append_right _).trans
        (by rw [List.append_assoc]; exact hthere.append_left _)

/-- A course yields of two sorts together what it yields of either. -/
theorem gather_both_perm {α : Type} (first second : σ → μ → List α) (moves : List μ) (state : σ) :
    (gather step (fun state move => first state move ++ second state move) moves state).Perm
      (gather step first moves state ++ gather step second moves state) := by
  induction moves generalizing state with
  | nil => exact .nil
  | cons move moves ih =>
      simp only [gather]
      cases step move state with
      | none => simp
      | some next =>
          simp only [Option.elim_some, List.append_assoc]
          refine .append_left _ (((ih next).append_left _).trans ?_)
          simpa only [List.append_assoc] using List.perm_append_comm_assoc ..

/-- The second sort makes no difference exactly if a course yields nothing of it. -/
theorem gather_both_eq_iff {α : Type} {first second : σ → μ → List α} {moves : List μ}
    {state : σ} :
    gather step (fun state move => first state move ++ second state move) moves state =
        gather step first moves state ↔ gather step second moves state = [] := by
  constructor
  · intro hsame
    have hperm : (gather step first moves state).Perm
        (gather step first moves state ++ gather step second moves state) :=
      .trans (.of_eq hsame.symm) (gather_both_perm first second moves state)
    have hlength := hperm.length_eq
    rw [List.length_append] at hlength
    exact List.length_eq_zero_iff.1 (by omega)
  · intro hnothing
    induction moves generalizing state with
    | nil => rfl
    | cons move moves ih =>
        simp only [gather, List.append_eq_nil_iff] at hnothing ⊢
        rw [hnothing.1, List.append_nil]
        cases hmove : step move state with
        | none => rfl
        | some next =>
            simp only [hmove, Option.elim_some] at hnothing ⊢
            rw [ih hnothing.2]

/-- A course yields nothing exactly if no move on it does. -/
theorem gather_eq_nil_iff {α : Type} {yield : σ → μ → List α} {moves : List μ} {state : σ} :
    gather step yield moves state = [] ↔
      Never step (fun state move => yield state move ≠ []) moves state := by
  induction moves generalizing state with
  | nil => exact iff_of_true rfl trivial
  | cons move moves ih =>
      rw [gather, List.append_eq_nil_iff, Never, not_not]
      cases hmove : step move state with
      | none => simp
      | some next => simp [ih]

theorem never_append {kind : σ → μ → Prop} {first second : List μ} {state next : σ}
    (h : Never step kind (first ++ second) state) (hfirst : follow step first state = some next) :
    Never step kind first state ∧ Never step kind second next := by
  induction first generalizing state with
  | nil => exact ⟨trivial, Option.some.inj hfirst ▸ h⟩
  | cons move moves ih =>
      obtain ⟨mid, hmove, hrest⟩ := follow_cons_eq_some.1 hfirst
      refine ⟨⟨h.1, fun other hother => ?_⟩, (ih (h.2 mid hmove) hrest).2⟩
      obtain rfl : other = mid := by
        rw [Option.mem_def] at hother
        exact Option.some.inj (hother.symm.trans hmove)
      exact (ih (h.2 other hmove) hrest).1

theorem never_of_parts {kind : σ → μ → Prop} {first second : List μ} {state next : σ}
    (hfirst : follow step first state = some next) (hnever : Never step kind first state)
    (hsecond : Never step kind second next) : Never step kind (first ++ second) state := by
  induction first generalizing state with
  | nil => exact Option.some.inj hfirst ▸ hsecond
  | cons move moves ih =>
      obtain ⟨mid, hmove, hrest⟩ := follow_cons_eq_some.1 hfirst
      refine ⟨hnever.1, fun other hother => ?_⟩
      obtain rfl : other = mid := by
        rw [Option.mem_def] at hother
        exact Option.some.inj (hother.symm.trans hmove)
      exact ih hrest (hnever.2 other hmove)

theorem never_cons {kind : σ → μ → Prop} {move : μ} {moves : List μ} {state next : σ}
    (h : step move state = some next) :
    Never step kind (move :: moves) state ↔ ¬ kind state move ∧ Never step kind moves next := by
  simp [Never, h]

/-- What can only have been so before a move if it is so after it holds at the start of a course
if it holds at its end. -/
theorem follow_reflects (good : σ → Prop)
    (earlier : ∀ {move state next}, step move state = some next → good next → good state)
    {moves : List μ} {state last : σ} (h : follow step moves state = some last)
    (hgood : good last) : good state := by
  induction moves generalizing state with
  | nil => exact Option.some.inj h ▸ hgood
  | cons move moves ih =>
      obtain ⟨next, hmove, hrest⟩ := follow_cons_eq_some.1 h
      exact earlier hmove (ih hrest)

/-- A course to a goal that is not reached where it starts has a move that reaches the goal. -/
theorem exists_crossing (goal : σ → Prop) {moves : List μ} {state last : σ}
    (h : follow step moves state = some last) (hstart : ¬ goal state) (hgoal : goal last) :
    ∃ before move after here next, moves = before ++ move :: after ∧
      follow step before state = some here ∧ ¬ goal here ∧ step move here = some next ∧
        goal next ∧ follow step after next = some last := by
  induction moves generalizing state with
  | nil => exact absurd (Option.some.inj h ▸ hgoal) hstart
  | cons move moves ih =>
      obtain ⟨next, hmove, hrest⟩ := follow_cons_eq_some.1 h
      by_cases hnext : goal next
      · exact ⟨[], move, moves, state, next, rfl, rfl, hstart, hmove, hnext, hrest⟩
      · obtain ⟨before, crossing, after, here, there, rfl, hbefore, hcross⟩ := ih hrest hnext
        refine ⟨move :: before, crossing, after, here, there, rfl, ?_, hcross⟩
        rw [follow_cons, hmove]
        exact hbefore

/-- Something that counts is among what is lost. -/
def Costs {ι α : Type} (counts : α → Prop) (loss : ι → List α) : Prop :=
  ∃ i, ∃ item ∈ loss i, counts item

section Losses

variable {ι α : Type} {counts : α → Prop} {loss lost : ι → List α}

theorem not_costs_nothing : ¬ Costs counts fun _ : ι => [] := by
  rintro ⟨_, item, hmem, -⟩
  exact List.not_mem_nil hmem

theorem costs_append :
    Costs counts (fun i => loss i ++ lost i) ↔ Costs counts loss ∨ Costs counts lost := by
  simp only [Costs, List.mem_append, or_and_right, exists_or]

/-- If everything counts, a loss costs something unless it is none. -/
theorem costs_anything : Costs (fun _ => True) loss ↔ ∃ i, loss i ≠ [] := by
  simp only [Costs, and_true, ne_eq, List.eq_nil_iff_forall_not_mem, not_forall, not_not]

/-- Books on what is lost, kept from move to move as long as all is good, with what the moves yield.
If exactly the moves of a certain kind lose something that counts, then courses without such moves
lose nothing that does, and all others do. -/
theorem exists_losses {β : Type} (good : σ → Prop) (books : List β → (ι → List α) → σ → Prop)
    (counts : α → Prop) (yield : σ → μ → List β) {kind : σ → μ → Prop}
    (earlier : ∀ {move state next}, step move state = some next → good next → good state)
    (kept : ∀ {move state next sofar lost}, good next → books sofar lost state →
      step move state = some next →
        ∃ loss : ι → List α, books (sofar ++ yield state move) (fun i => loss i ++ lost i) next ∧
          (Costs counts loss ↔ kind state move))
    {moves : List μ} {state last : σ} (sofar : List β)
    (h : follow step moves state = some last) (hgood : good last) (first : books sofar lost state) :
    ∃ loss : ι → List α,
      books (sofar ++ gather step yield moves state) (fun i => loss i ++ lost i) last ∧
        (Costs counts loss ↔ ¬ Never step kind moves state) := by
  induction moves generalizing state sofar lost with
  | nil =>
      obtain rfl := Option.some.inj h
      refine ⟨fun _ => [], ?_, by simp [Never, not_costs_nothing]⟩
      simpa [gather] using first
  | cons move moves ih =>
      obtain ⟨next, hmove, hrest⟩ := follow_cons_eq_some.1 h
      obtain ⟨loss, hbooks, hloss⟩ := kept (follow_reflects good earlier hrest hgood) first hmove
      obtain ⟨loss', hbooks', hloss'⟩ := ih _ hrest hbooks
      refine ⟨fun i => loss' i ++ loss i, ?_, ?_⟩
      · simpa [gather, hmove] using hbooks'
      · rw [never_cons hmove, not_and_or, not_not, ← hloss, ← hloss', costs_append]
        exact or_comm

/-- Books that tell nothing of what moves yield, and count everything. -/
theorem exists_loss (good : σ → Prop) (books : (ι → List α) → σ → Prop)
    {kind : σ → μ → Prop}
    (earlier : ∀ {move state next}, step move state = some next → good next → good state)
    (kept : ∀ {move state next lost}, good next → books lost state → step move state = some next →
      ∃ loss : ι → List α, books (fun i => loss i ++ lost i) next ∧
        ((∃ i, loss i ≠ []) ↔ kind state move))
    {moves : List μ} {state last : σ}
    (h : follow step moves state = some last) (hgood : good last) (first : books lost state) :
    ∃ loss : ι → List α, books (fun i => loss i ++ lost i) last ∧
      ((∃ i, loss i ≠ []) ↔ ¬ Never step kind moves state) := by
  have hlosses := exists_losses good (fun _ => books) (fun _ => True) (fun _ _ => []) earlier
    (fun hnext hbooks hmove => by simpa only [costs_anything] using kept hnext hbooks hmove)
    ([] : List Unit) h hgood first
  simpa only [costs_anything] using hlosses

end Losses

/-- Something that every state on a course without moves of a certain kind has, because it
follows from what the other moves preserve. -/
theorem always_of_never (holds : σ → Prop) {seen : σ → Prop} {kind : σ → μ → Prop}
    (preserved : ∀ {move state next}, holds state → ¬ kind state move →
      step move state = some next → holds next)
    (visible : ∀ {state}, holds state → seen state)
    {moves : List μ} {state : σ} (never : Never step kind moves state) (first : holds state) :
    Always step seen moves state := by
  induction moves generalizing state with
  | nil => exact visible first
  | cons move moves ih =>
      exact ⟨visible first, fun next hmove =>
        ih (never.2 next hmove) (preserved first never.1 hmove)⟩

/-- A kind of move is kept off a course without moves of another kind if the other moves preserve
something, and are not of the first kind where it holds. -/
theorem never_of_others (holds : σ → Prop) {kind other : σ → μ → Prop}
    (preserved : ∀ {move state next}, holds state → ¬ kind state move →
      step move state = some next → holds next)
    (excluded : ∀ {move state}, holds state → ¬ kind state move → ¬ other state move)
    {moves : List μ} {state : σ} (never : Never step kind moves state) (first : holds state) :
    Never step other moves state := by
  induction moves generalizing state with
  | nil => trivial
  | cons move moves ih =>
      exact ⟨excluded first never.1, fun next hmove =>
        ih (never.2 next hmove) (preserved first never.1 hmove)⟩

/-- A kind of move is kept off a course if it cannot be made in states that have what the moves
of another kind alone could take away. -/
theorem never_of_never (holds : σ → Prop) {kind other : σ → μ → Prop}
    (preserved : ∀ {move state next}, holds state → ¬ kind state move →
      step move state = some next → holds next)
    (excluded : ∀ {move state}, holds state → ¬ other state move)
    {moves : List μ} {state : σ} (never : Never step kind moves state) (first : holds state) :
    Never step other moves state :=
  never_of_others holds preserved (fun hstate _ => excluded hstate) never first

/-- Everything that a course yields has a property exactly if no move yields something without
it. -/
theorem forall_gather_iff {α : Type} (good : α → Prop) {yield : σ → μ → List α} {moves : List μ}
    {state : σ} :
    (∀ item ∈ gather step yield moves state, good item) ↔
      Never step (fun state move => ∃ item ∈ yield state move, ¬ good item) moves state := by
  induction moves generalizing state with
  | nil => simp [gather, Never]
  | cons move moves ih =>
      cases hmove : step move state with
      | none => simp [gather, Never, hmove]
      | some next => simp [gather, Never, hmove, ← ih, List.mem_append, or_imp, forall_and]

end SplitFeed.Course
