/-
# Waiting for threads that panicked

When everybody was told to leave, the owner of a supervisor waits for one fetcher after the other:
for its sign that it has ended, until time is up, and then for its thread.  A fetcher whose sign has
not come in time is left behind.

A thread gives the sign when its books are settled, as the last thing but one that it does, and
never if a call into the reader panics (`Signed`).  So whoever has given the sign has not panicked,
and whoever has panicked will never give it.  That what became of a thread stays so carries the
file: the owner never comes upon a thread of which it would say that it panicked, and leaves all of
them behind.
-/
import SplitFeed.Proofs.Supervisor.Workshop

namespace SplitFeed

open Supervisor (Stride Performs)

variable {ρ : Type} {f g : Fetcher ρ} {d e : Depot} {disturbed : List Bool}

/-! ### The sign -/

/-- Whether the loop is over, and the thread gone or about to be. -/
def Phase.hasEnded : Phase → Bool
  | ended _ | gone => true
  | _ => false

theorem Phase.not_panic_of_hasEnded {phase : Phase} (h : phase.hasEnded = true) :
    phase.isPanic = false := by
  cases phase <;> simp_all [Phase.hasEnded, Phase.isPanic]

namespace Fetcher

/-- The sign of termination is given exactly if the loop is over. -/
def Signed (f : Fetcher ρ) : Prop := f.terminated.done = f.phase.hasEnded

theorem signed_new (id : Nat) (reader : ρ) : ({ id, reader } : Fetcher ρ).beginLoop.Signed := rfl

theorem signed_enact (request : Request) (hf : f.Signed) : (request.enact f).1.Signed := by
  cases request with
  | addSplits splits | stop mode =>
      simp only [Request.enact]
      split <;> exact hf
  | removeSplits | wakeUp | pause | resume | releaseLatch => exact hf

variable [SplitReader ρ]

theorem signed_nudge (nudge : Nudge) (d : Depot) (hf : f.Signed) :
    (nudge.apply f d).1.Signed := by
  cases nudge <;> exact hf

theorem signed_advance (hf : f.Signed) (h : Advance disturbed f d g e) : g.Signed := by
  unfold Signed at hf ⊢
  cases h with
  | terminate => exact OneShot.done_complete _
  | _ => simp_all [Phase.hasEnded]

theorem signed_stride (hf : f.Signed) (h : Stride disturbed f d g e) : g.Signed := by
  cases h with
  | advance h => exact signed_advance hf h
  | vanish hphase => simpa [Signed, hphase, Phase.hasEnded] using hf

/-- A thread that panicked makes no more steps, and one whose loop is over can only vanish. -/
theorem outcome_stride (h : Stride disturbed f d g e) :
    f.phase.isPanic = false ∧ f.phase ≠ .gone ∧ (f.phase.hasEnded = true → g.phase = .gone) := by
  cases h with
  | advance h => cases h <;> simp_all [Phase.isPanic, Phase.hasEnded]
  | vanish hphase => simp [hphase, Phase.isPanic]

end Fetcher

/-! ### What became of threads -/

/-- Whether a fetcher's thread has panicked in a call into its reader. -/
def Supervisor.hasPanicked (supervisor : Supervisor ρ) (id : Nat) : Bool :=
  (supervisor.fetcher? id).any (·.phase.isPanic)

theorem Supervisor.hasPanicked_iff {s : Supervisor ρ} (hunique : s.ids.Nodup) {id : Nat} :
    s.hasPanicked id = true ↔ ∃ f ∈ s.crew, f.id = id ∧ f.phase.isPanic = true := by
  rw [hasPanicked, Option.any_eq_true]
  constructor
  · rintro ⟨f, hfound, hpanic⟩
    obtain ⟨hf, hid⟩ := mem_crew_of_fetcher? hfound
    exact ⟨f, hf, hid, hpanic⟩
  · rintro ⟨f, hf, rfl, hpanic⟩
    exact ⟨f, fetcher?_of_mem_crew hunique hf, hpanic⟩

namespace Workshop

/-- Whether a move is the owner's. -/
def Move.isOwners : Move → Bool
  | .work | .hear => true
  | move => move.isCall

variable [SplitReader ρ] {shop next : Workshop ρ} {move : Move}

theorem signed_goes (hall : ∀ f ∈ shop.supervisor.crew, f.Signed) (h : Goes shop move next) :
    ∀ f ∈ next.supervisor.crew, f.Signed :=
  forall_crew_asked Fetcher.signed_new Fetcher.signed_stride Fetcher.signed_enact
    Fetcher.signed_nudge hall h

theorem signed_follow {moves : List Move}
    (hs : shop.Orderly ∧ ∀ f ∈ shop.supervisor.crew, f.Signed)
    (h : Course.follow step moves shop = some next) :
    next.Orderly ∧ ∀ f ∈ next.supervisor.crew, f.Signed :=
  Course.follow_preserves
    (fun shop : Workshop ρ => shop.Orderly ∧ ∀ f ∈ shop.supervisor.crew, f.Signed)
    (fun ⟨ho, hsigned⟩ hstep => ⟨orderly_step ho hstep, signed_goes hsigned (goes_of_step hstep)⟩)
    h hs

/-- Nobody joins the crew but by the owner's doing. -/
theorem exists_before (hothers : move.isOwners = false) (h : Goes shop move next)
    (hg : g ∈ next.supervisor.crew) : ∃ f ∈ shop.supervisor.crew, Becomes shop move f g := by
  cases h with
  | @thread f changed e disturbed hf hstride =>
      rcases Supervisor.mem_crew_replace hg with rfl | ⟨hold, hne⟩
      · exact ⟨f, hf, .stride rfl hstride⟩
      · refine ⟨g, hold, .frees (fun disturbed hmove => hne ?_) {}⟩
        rw [(Supervisor.advanced_of_stride hstride).id]
        exact (Move.thread.inj hmove).1.symm
  | errand h =>
      rcases crew_performs h hg with ⟨f, hf, hfrees⟩ | ⟨⟨_, _, hgives⟩, -⟩
      · exact ⟨f, hf, .frees nofun hfrees⟩
      · cases hgives
  | queue => exact ⟨g, hg, .frees nofun {}⟩
  | beside hmove =>
      obtain ⟨_, rfl⟩ | rfl := hmove
      · exact ⟨g, hg, .frees nofun {}⟩
      · cases hothers
  | addSplits | reap | close | abandon | task | fail | shut => cases hothers

/-- What became of a thread stays so. -/
theorem outcome_becomes (h : Becomes shop move f g) :
    (f.phase.isPanic = true → g.phase.isPanic = true) ∧
      (f.phase.hasEnded = true → g.phase.hasEnded = true) ∧
        (f.phase = .gone → g.phase = .gone) := by
  cases h with
  | stride _ h =>
      obtain ⟨hcalm, hhere, hvanishes⟩ := Fetcher.outcome_stride h
      refine ⟨fun hpanic => ?_, fun hended => ?_, fun hgone => absurd hgone hhere⟩
      · rw [hcalm] at hpanic
        cases hpanic
      · rw [hvanishes hended]
        rfl
  | frees _ h =>
      rw [h.phase]
      exact ⟨id, id, id⟩

/-- Once it is known what became of a thread, it is known whether it has panicked. -/
theorem hasPanicked_goes {id : Nat} (ho : shop.Orderly) (hothers : move.isOwners = false)
    (h : Goes shop move next)
    (hknown : ∀ f ∈ shop.supervisor.crew, f.id = id →
      f.phase = .gone ∨ f.phase.isPanic = true) :
    next.supervisor.hasPanicked id = shop.supervisor.hasPanicked id := by
  rw [Bool.eq_iff_iff, Supervisor.hasPanicked_iff (orderly_goes ho h).staffed.unique,
    Supervisor.hasPanicked_iff ho.staffed.unique]
  constructor
  · rintro ⟨g, hg, rfl, hpanic⟩
    obtain ⟨f, hf, hbecomes⟩ := exists_before hothers h hg
    have hid := (id_of_becomes hbecomes).symm
    refine ⟨f, hf, hid, (hknown f hf hid).resolve_left fun hgone => ?_⟩
    rw [(outcome_becomes hbecomes).2.2 hgone] at hpanic
    cases hpanic
  · rintro ⟨f, hf, rfl, hpanic⟩
    obtain ⟨g, hg, hbecomes⟩ := exists_becomes ho.staffed h hf
    exact ⟨g, hg, id_of_becomes hbecomes, (outcome_becomes hbecomes).1 hpanic⟩

end Workshop

/-! ### Waiting -/

/-- A workshop whose owner waits for fetchers that were told to leave: those that are still to be
waited for, those that were left behind, whether time is up, and what closing has come to. -/
structure Joining (ρ : Type) where
  shop : Workshop ρ
  fetchers : List Nat
  timeoutMs : Nat
  stragglers : List Nat := []
  late : Bool := false
  result? : Option (Except Failure Unit) := none

namespace Joining

/-- What can happen while the owner waits. -/
inductive Move where
  /-- Somebody else makes a move. -/
  | others (move : Workshop.Move)
  /-- Time is up. -/
  | timeUp
  /-- The owner goes on to the next fetcher. -/
  | join

/-- What the owner does next, unless it has to wait. -/
def join? (joining : Joining ρ) : Option (Joining ρ) :=
  match joining.fetchers with
  | [] =>
    match joining.stragglers with
    | [] =>
      let (answer, supervisor) := joining.shop.supervisor.checkErrors
      some { joining with shop := { joining.shop with supervisor }, result? := some answer }
    | stragglers =>
      some { joining with result? := some (.error (.leftBehind stragglers joining.timeoutMs)) }
  | id :: rest =>
    match joining.shop.supervisor.fetcher? id with
    | none => some { joining with fetchers := rest }
    | some fetcher =>
      if fetcher.terminated.done then
        match fetcher.phase with
        | .panicked _ => some { joining with result? := some (.error (.fetcherPanicked id)) }
        | .gone => some { joining with fetchers := rest }
        | _ => none
      else if joining.late then
        some { joining with fetchers := rest, stragglers := joining.stragglers ++ [id] }
      else none

/-- What a move makes of it, if the move can be made. -/
def step [SplitReader ρ] (move : Move) (joining : Joining ρ) : Option (Joining ρ) :=
  match move with
  | .others move =>
    if move.isOwners then none
    else (joining.shop.step move).map fun shop => { joining with shop }
  | .timeUp => some { joining with late := true }
  | .join => if joining.result?.isSome then none else joining.join?

variable {j next last : Joining ρ} {move : Move} {moves : List Move}

/-- The moves, with what each of them makes of a workshop whose owner waits. -/
inductive Goes [SplitReader ρ] (j : Joining ρ) : Move → Joining ρ → Prop
  | others {move shop} (hothers : move.isOwners = false) (h : j.shop.step move = some shop) :
      Goes j (.others move) { j with shop }
  | timeUp : Goes j .timeUp { j with late := true }
  /-- There is no such fetcher. -/
  | absent {id rest} (hwaits : j.result? = none) (hfetchers : j.fetchers = id :: rest)
      (hnone : j.shop.supervisor.fetcher? id = none) : Goes j .join { j with fetchers := rest }
  /-- A thread is gone. -/
  | gone {id rest f} (hwaits : j.result? = none) (hfetchers : j.fetchers = id :: rest)
      (hfound : j.shop.supervisor.fetcher? id = some f) (hphase : f.phase = .gone) :
      Goes j .join { j with fetchers := rest }
  /-- A thread that gave the sign panicked. -/
  | panicked {id rest f} (hfetchers : j.fetchers = id :: rest)
      (hfound : j.shop.supervisor.fetcher? id = some f) (hdone : f.terminated.done = true)
      (hphase : f.phase.isPanic = true) :
      Goes j .join { j with result? := some (.error (.fetcherPanicked id)) }
  /-- The sign has not come in time. -/
  | leave {id rest f} (hwaits : j.result? = none) (hfetchers : j.fetchers = id :: rest)
      (hfound : j.shop.supervisor.fetcher? id = some f) (hdone : f.terminated.done = false)
      (hlate : j.late = true) :
      Goes j .join { j with fetchers := rest, stragglers := j.stragglers ++ [id] }
  | conclude (hfetchers : j.fetchers = []) (hstragglers : j.stragglers = []) :
      Goes j .join { j with
        shop := { j.shop with supervisor := j.shop.supervisor.checkErrors.2 }
        result? := some j.shop.supervisor.checkErrors.1 }
  | report (hfetchers : j.fetchers = []) (hstragglers : j.stragglers ≠ []) :
      Goes j .join { j with result? := some (.error (.leftBehind j.stragglers j.timeoutMs)) }

variable [SplitReader ρ]

theorem goes_of_join (h : j.step .join = some next) : Goes j .join next := by
  simp only [step, Option.ite_none_left_eq_some, Bool.not_eq_true, Option.isSome_eq_false_iff,
    Option.isNone_iff_eq_none] at h
  obtain ⟨hwaits, h⟩ := h
  unfold join? at h
  split at h
  · next hfetchers =>
      split at h <;> obtain rfl := Option.some.inj h
      · next hstragglers => exact .conclude hfetchers hstragglers
      · next hstragglers => exact .report hfetchers hstragglers
  · next id rest hfetchers =>
      split at h
      · next hnone =>
          obtain rfl := Option.some.inj h
          exact .absent hwaits hfetchers hnone
      · next f hfound =>
          split at h
          · next hdone =>
              split at h
              · next hphase =>
                  obtain rfl := Option.some.inj h
                  exact .panicked hfetchers hfound hdone (hphase ▸ rfl)
              · next hphase =>
                  obtain rfl := Option.some.inj h
                  exact .gone hwaits hfetchers hfound hphase
              · cases h
          · next hnot =>
              simp only [Option.ite_none_right_eq_some, Option.some.injEq] at h
              obtain ⟨hlate, rfl⟩ := h
              exact .leave hwaits hfetchers hfound (Bool.not_eq_true _ ▸ hnot) hlate

theorem goes_of_step (h : j.step move = some next) : Goes j move next := by
  cases move with
  | others move =>
      simp only [step, Option.ite_none_left_eq_some, Bool.not_eq_true, Option.map_eq_some_iff] at h
      obtain ⟨hothers, shop, hstep, rfl⟩ := h
      exact .others hothers hstep
  | timeUp =>
      obtain rfl := Option.some.inj h
      exact .timeUp
  | join => exact goes_of_join h

/-! ### What waiting keeps -/

/-- Time is up for a fetcher that has neither panicked nor given its sign. -/
def Hurries (j : Joining ρ) : Move → Prop
  | .timeUp => ∃ f ∈ j.shop.supervisor.crew, f.id ∈ j.fetchers ∧ f.phase.isPanic = false ∧
      f.terminated.done = false
  | _ => False

omit [SplitReader ρ] in
instance (j : Joining ρ) (move : Move) : Decidable (j.Hurries move) :=
  match move with
  | .timeUp => inferInstanceAs (Decidable (∃ f ∈ j.shop.supervisor.crew, f.id ∈ j.fetchers ∧
      f.phase.isPanic = false ∧ f.terminated.done = false))
  | .others _ | .join => isFalse not_false

/-- An owner has waited for some of the fetchers on its books.  Of those, the threads of which are
not gone were left behind, and if time was up for nobody too early they are the ones that
panicked. -/
structure Waits (inTime : Prop) (books passed : List Nat) (j : Joining ρ) : Prop where
  orderly : j.shop.Orderly
  signed : ∀ f ∈ j.shop.supervisor.crew, f.Signed
  inOrder : books = passed ++ j.fetchers
  stragglers : j.stragglers.Sublist passed
  accounted : ∀ f ∈ j.shop.supervisor.crew, f.id ∈ passed →
    f.phase = .gone ∨ f.id ∈ j.stragglers
  punctual : inTime → j.late = true → ∀ f ∈ j.shop.supervisor.crew, f.id ∈ j.fetchers →
    f.phase.isPanic = true ∨ f.phase.hasEnded = true
  exact : inTime → j.stragglers = passed.filter j.shop.supervisor.hasPanicked
  result : ∀ result, j.result? = some result → j.fetchers = [] ∧
    ((j.stragglers = [] ∧ ∀ id, result ≠ .error (.fetcherPanicked id)) ∨
      j.stragglers ≠ [] ∧ result = .error (.leftBehind j.stragglers j.timeoutMs))

variable {inTime : Prop} {books passed : List Nat}

omit [SplitReader ρ] in
/-- When nobody is waited for any more, everybody on the books was passed. -/
theorem passed_of_waits (hw : Waits inTime books passed j) (hnobody : j.fetchers = []) :
    books = passed := by
  have hall := hw.inOrder
  rwa [hnobody, List.append_nil] at hall

omit [SplitReader ρ] in
/-- Where nobody was left behind too early, it is known what became of everybody passed. -/
theorem known_of_waits (hw : Waits inTime books passed j) (hin : inTime)
    (hf : f ∈ j.shop.supervisor.crew) (hpassed : f.id ∈ passed) :
    f.phase = .gone ∨ f.phase.isPanic = true := by
  refine (hw.accounted f hf hpassed).imp_right fun hleft => ?_
  rw [hw.exact hin, List.mem_filter, Supervisor.hasPanicked_iff hw.orderly.staffed.unique] at hleft
  obtain ⟨-, other, hother, hid, hpanic⟩ := hleft
  rwa [Supervisor.eq_of_id_eq hw.orderly.staffed.unique hf hother hid.symm]

/-- Others do not change what the owner has found out. -/
theorem waits_others {move : Workshop.Move} {shop : Workshop ρ}
    (hw : Waits inTime books passed j) (hothers : move.isOwners = false)
    (h : j.shop.step move = some shop) : Waits inTime books passed { j with shop } := by
  have hgoes := Workshop.goes_of_step h
  refine
    { orderly := Workshop.orderly_goes hw.orderly hgoes
      signed := Workshop.signed_goes hw.signed hgoes
      inOrder := hw.inOrder
      stragglers := hw.stragglers
      accounted := fun g hg hpassed => ?_
      punctual := fun hin hlate g hg hwaits => ?_
      exact := fun hin => ?_
      result := hw.result }
  · obtain ⟨f, hf, hbecomes⟩ := Workshop.exists_before hothers hgoes hg
    rw [Workshop.id_of_becomes hbecomes] at hpassed ⊢
    exact (hw.accounted f hf hpassed).imp_left (Workshop.outcome_becomes hbecomes).2.2
  · obtain ⟨f, hf, hbecomes⟩ := Workshop.exists_before hothers hgoes hg
    rw [Workshop.id_of_becomes hbecomes] at hwaits
    obtain ⟨hpanics, hends, -⟩ := Workshop.outcome_becomes hbecomes
    exact (hw.punctual hin hlate f hf hwaits).imp hpanics hends
  · refine (hw.exact hin).trans (List.filter_congr fun id hid => ?_)
    refine (Workshop.hasPanicked_goes hw.orderly hothers hgoes fun f hf hsame => ?_).symm
    exact known_of_waits hw hin hf (hsame ▸ hid)

omit [SplitReader ρ] in
/-- Time is up. -/
theorem waits_timeUp (hw : Waits inTime books passed j) (hin : inTime → ¬ j.Hurries .timeUp) :
    Waits inTime books passed { j with late := true } := by
  refine { hw with punctual := fun hintime _ f hf hwaits => ?_ }
  cases hpanic : f.phase.isPanic with
  | true => exact .inl rfl
  | false =>
      refine .inr ((hw.signed f hf).symm.trans ?_)
      rw [← Bool.not_eq_false]
      exact fun hnot => hin hintime ⟨f, hf, hwaits, hpanic, hnot⟩

omit [SplitReader ρ] in
/-- The owner goes on from a fetcher that is gone, if it was ever there. -/
theorem waits_pass {id : Nat} {rest : List Nat} (hw : Waits inTime books passed j)
    (hwaits : j.result? = none) (hfetchers : j.fetchers = id :: rest)
    (hgone : ∀ f ∈ j.shop.supervisor.crew, f.id = id → f.phase = .gone) :
    Waits inTime books (passed ++ [id]) { j with fetchers := rest } := by
  refine
    { orderly := hw.orderly
      signed := hw.signed
      inOrder := by rw [hw.inOrder, hfetchers, List.append_assoc, List.singleton_append]
      stragglers := hw.stragglers.trans (List.sublist_append_left passed [id])
      accounted := fun f hf hpassed => ?_
      punctual := fun hin hlate f hf hmem => ?_
      exact := fun hin => ?_
      result := fun result hresult => ?_ }
  · rcases List.mem_append.1 hpassed with hbefore | hlast
    · exact hw.accounted f hf hbefore
    · exact .inl (hgone f hf (List.mem_singleton.1 hlast))
  · exact hw.punctual hin hlate f hf (hfetchers ▸ List.mem_cons_of_mem id hmem)
  · have hcalm : j.shop.supervisor.hasPanicked id = false := by
      rw [← Bool.not_eq_true, Supervisor.hasPanicked_iff hw.orderly.staffed.unique]
      rintro ⟨f, hf, hid, hpanic⟩
      rw [hgone f hf hid] at hpanic
      cases hpanic
    rw [List.filter_append, List.filter_singleton, hcalm, cond_false, List.append_nil]
    exact hw.exact hin
  · rw [hwaits] at hresult
    cases hresult

omit [SplitReader ρ] in
/-- The owner leaves a fetcher behind that has not given its sign. -/
theorem waits_leave {id : Nat} {rest : List Nat} (hw : Waits inTime books passed j)
    (hwaits : j.result? = none) (hfetchers : j.fetchers = id :: rest)
    (hfound : j.shop.supervisor.fetcher? id = some f) (hnot : f.terminated.done = false)
    (hlate : j.late = true) :
    Waits inTime books (passed ++ [id])
      { j with fetchers := rest, stragglers := j.stragglers ++ [id] } := by
  refine
    { orderly := hw.orderly
      signed := hw.signed
      inOrder := by rw [hw.inOrder, hfetchers, List.append_assoc, List.singleton_append]
      stragglers := hw.stragglers.append (List.Sublist.refl [id])
      accounted := fun g hg hpassed => ?_
      punctual := fun hin hlate g hg hmem => ?_
      exact := fun hin => ?_
      result := fun result hresult => ?_ }
  · rcases List.mem_append.1 hpassed with hbefore | hlast
    · exact (hw.accounted g hg hbefore).imp_right (List.mem_append_left _)
    · exact .inr (List.mem_append_right _ hlast)
  · exact hw.punctual hin hlate g hg (hfetchers ▸ List.mem_cons_of_mem id hmem)
  · obtain ⟨hf, hid⟩ := Supervisor.mem_crew_of_fetcher? hfound
    have hpanicked : j.shop.supervisor.hasPanicked id = true := by
      rw [Supervisor.hasPanicked_iff hw.orderly.staffed.unique]
      refine ⟨f, hf, hid, (hw.punctual hin hlate f hf ?_).resolve_right fun hended => ?_⟩
      · rw [hfetchers, hid]
        exact List.mem_cons_self
      · have hdone := (hw.signed f hf).trans hended
        exact Bool.noConfusion (hnot.symm.trans hdone)
    rw [List.filter_append, List.filter_singleton, hpanicked, cond_true, ← hw.exact hin]
  · rw [hwaits] at hresult
    cases hresult

omit [SplitReader ρ] in
/-- Asking for a failure that nobody has heard of concerns nobody's thread, and says nothing of
panics. -/
theorem checkErrors_cases (s : Supervisor ρ) :
    (∃ depot, s.checkErrors.2 = { s with depot }) ∧
      ∀ id, s.checkErrors.1 ≠ .error (.fetcherPanicked id) := by
  cases hfailures : s.depot.failures with
  | nil =>
      refine ⟨⟨s.depot, ?_⟩, ?_⟩ <;>
        simp [Supervisor.checkErrors, Supervisor.takeFailure, hfailures]
  | cons failure failures => simp [Supervisor.checkErrors, Supervisor.takeFailure, hfailures]

theorem waits_step {move : Move} (hw : Waits inTime books passed j)
    (hin : inTime → ¬ j.Hurries move) (h : Goes j move next) :
    ∃ passed, Waits inTime books passed next := by
  cases h with
  | others hothers h => exact ⟨passed, waits_others hw hothers h⟩
  | timeUp => exact ⟨passed, waits_timeUp hw hin⟩
  | @absent id rest hwaits hfetchers hnone =>
      refine ⟨passed ++ [id], waits_pass hw hwaits hfetchers fun f hf hid => ?_⟩
      rw [← hid, Supervisor.fetcher?_of_mem_crew hw.orderly.staffed.unique hf] at hnone
      cases hnone
  | @gone id rest found hwaits hfetchers hfound hphase =>
      refine ⟨passed ++ [id], waits_pass hw hwaits hfetchers fun f hf hid => ?_⟩
      rw [← hid, Supervisor.fetcher?_of_mem_crew hw.orderly.staffed.unique hf] at hfound
      exact Option.some.inj hfound ▸ hphase
  | panicked hfetchers hfound hdone hphase =>
      -- Whoever has given the sign has not panicked.
      obtain ⟨hf, -⟩ := Supervisor.mem_crew_of_fetcher? hfound
      have hended := (hw.signed _ hf).symm.trans hdone
      rw [Phase.not_panic_of_hasEnded hended] at hphase
      cases hphase
  | leave hwaits hfetchers hfound hnot hlate =>
      exact ⟨_, waits_leave hw hwaits hfetchers hfound hnot hlate⟩
  | conclude hfetchers hstragglers =>
      obtain ⟨⟨depot, hafter⟩, hanswer⟩ := checkErrors_cases j.shop.supervisor
      rw [hafter]
      refine ⟨passed, { hw with
        orderly := ⟨Supervisor.staffed_congr hw.orderly.staffed rfl (Nat.le_refl _),
          hw.orderly.runs, hw.orderly.fits⟩
        result := fun result hresult => ?_ }⟩
      obtain rfl := Option.some.inj hresult
      exact ⟨hfetchers, .inl ⟨hstragglers, hanswer⟩⟩
  | report hfetchers hstragglers =>
      refine ⟨passed, { hw with result := fun result hresult => ?_ }⟩
      obtain rfl := Option.some.inj hresult
      exact ⟨hfetchers, .inr ⟨hstragglers, rfl⟩⟩

omit [SplitReader ρ] in
/-- Before the owner waits for anybody nothing was found out. -/
theorem waits_begun {shop : Workshop ρ} (ho : shop.Orderly)
    (hsigned : ∀ f ∈ shop.supervisor.crew, f.Signed) (inTime : Prop) (books : List Nat)
    (timeoutMs : Nat) :
    Waits inTime books [] { shop, fetchers := books, timeoutMs } where
  orderly := ho
  signed := hsigned
  inOrder := rfl
  stragglers := List.nil_sublist _
  accounted _ _ := nofun
  punctual _ := nofun
  exact _ := rfl
  result _ := nofun

theorem waits_follow (hw : Waits False books passed j)
    (h : Course.follow step moves j = some last) : ∃ passed, Waits False books passed last :=
  Course.follow_preserves (fun j : Joining ρ => ∃ passed, Waits False books passed j)
    (fun ⟨_, hw⟩ hstep => waits_step hw nofun (goes_of_step hstep)) h ⟨passed, hw⟩

theorem waits_follow_inTime (hw : Waits True books passed j)
    (h : Course.follow step moves j = some last) (hnever : Course.Never step Hurries moves j) :
    ∃ passed, Waits True books passed last :=
  Course.follow_preserves_of_never (fun j : Joining ρ => ∃ passed, Waits True books passed j)
    (fun ⟨_, hw⟩ hnot hstep => waits_step hw (fun _ => hnot) (goes_of_step hstep)) h hnever
    ⟨passed, hw⟩

theorem timeoutMs_follow (h : Course.follow step moves j = some last) :
    last.timeoutMs = j.timeoutMs := by
  refine Course.follow_preserves (fun next : Joining ρ => next.timeoutMs = j.timeoutMs)
    (fun hsame hstep => ?_) h rfl
  cases goes_of_step hstep <;> exact hsame

/-! ### Waiting without a gap -/

omit [SplitReader ρ] in
/-- What closing comes to when some fetchers were left behind and the others are joined without a
gap. -/
def outcome (j : Joining ρ) : Except Failure Unit :=
  match j.shop.supervisor.join j.fetchers with
  | .error failure => .error failure
  | .ok more =>
    match j.stragglers ++ more with
    | [] => j.shop.supervisor.checkErrors.1
    | stragglers => .error (.leftBehind stragglers j.timeoutMs)

omit [SplitReader ρ] in
theorem outcome_eq_endClose (hstragglers : j.stragglers = []) :
    j.outcome = (j.shop.supervisor.endClose j.fetchers j.timeoutMs).1 := by
  rw [outcome, Supervisor.endClose, hstragglers]
  cases j.shop.supervisor.join j.fetchers with
  | error => rfl
  | ok more => cases more <;> rfl

/-- An owner whom nobody disturbs comes to that outcome. -/
def Concludes (j : Joining ρ) : Prop :=
  ∃ count closed, Course.follow step (List.replicate count .join) j = some closed ∧
    closed.result? = some j.outcome

theorem concludes_of_result (hjoin : j.step .join = some next)
    (hresult : next.result? = some j.outcome) : j.Concludes :=
  ⟨1, next, by simp [Course.follow_cons, hjoin], hresult⟩

theorem concludes_of_next (hjoin : j.step .join = some next) (h : next.Concludes)
    (hsame : next.outcome = j.outcome) : j.Concludes := by
  obtain ⟨count, closed, hfollow, hresult⟩ := h
  refine ⟨count + 1, closed, ?_, hsame ▸ hresult⟩
  rw [List.replicate_succ, Course.follow_cons, hjoin]
  exact hfollow

/-- When time is up and no thread is about to vanish, that is what the supervisor's function comes
to. -/
theorem concludes (hlate : j.late = true) (hwaits : j.result? = none)
    (hquiet : ∀ f ∈ j.shop.supervisor.crew, f.terminated.done = true →
      f.phase = .gone ∨ f.phase.isPanic = true) : j.Concludes := by
  induction hfetchers : j.fetchers generalizing j with
  | nil =>
      obtain ⟨closed, hjoin, hresult⟩ :
          ∃ closed, j.step .join = some closed ∧ closed.result? = some j.outcome := by
        cases hstragglers : j.stragglers <;>
          simp [step, join?, outcome, hwaits, hfetchers, hstragglers, Supervisor.join]
      exact concludes_of_result hjoin hresult
  | cons id rest ih =>
      cases hfound : j.shop.supervisor.fetcher? id with
      | none =>
          have hjoin : j.step .join = some { j with fetchers := rest } := by
            simp [step, join?, hwaits, hfetchers, hfound]
          refine concludes_of_next hjoin (ih hlate hwaits hquiet rfl) ?_
          simp [outcome, hfetchers, Supervisor.join, hfound]
      | some f =>
          obtain ⟨hf, -⟩ := Supervisor.mem_crew_of_fetcher? hfound
          cases hdone : f.terminated.done with
          | false =>
              have hjoin : j.step .join = some
                  { j with fetchers := rest, stragglers := j.stragglers ++ [id] } := by
                simp [step, join?, hwaits, hfetchers, hfound, hdone, hlate]
              refine concludes_of_next hjoin (ih hlate hwaits hquiet rfl) ?_
              simp only [outcome, hfetchers, Supervisor.join, hfound, hdone]
              cases j.shop.supervisor.join rest <;> simp [bind, Except.bind, pure, Except.pure]
          | true =>
              cases hphase : f.phase with
              | gone =>
                  have hjoin : j.step .join = some { j with fetchers := rest } := by
                    simp [step, join?, hwaits, hfetchers, hfound, hdone, hphase]
                  refine concludes_of_next hjoin (ih hlate hwaits hquiet rfl) ?_
                  simp [outcome, hfetchers, Supervisor.join, hfound, hdone, hphase]
              | panicked text =>
                  have hjoin : j.step .join = some
                      { j with result? := some (.error (.fetcherPanicked id)) } := by
                    simp [step, join?, hwaits, hfetchers, hfound, hdone, hphase]
                  refine concludes_of_result hjoin ?_
                  simp [outcome, hfetchers, Supervisor.join, hfound, hdone, hphase]
              | _ => simpa [hphase, Phase.isPanic] using hquiet f hf hdone

theorem follow_joins (hlate : j.late = true) (hwaits : j.result? = none)
    (hstragglers : j.stragglers = [])
    (hquiet : ∀ f ∈ j.shop.supervisor.crew, f.terminated.done = true →
      f.phase = .gone ∨ f.phase.isPanic = true) :
    ∃ count closed, Course.follow step (List.replicate count .join) j = some closed ∧
      closed.result? = some (j.shop.supervisor.endClose j.fetchers j.timeoutMs).1 :=
  outcome_eq_endClose hstragglers ▸ concludes hlate hwaits hquiet

/-! ### Waiting comes to an end -/

/-- Once time is up the owner gets past the next fetcher, when the thread is gone that has given
its sign. -/
theorem exists_pass {id : Nat} {rest : List Nat} (hw : Waits False books passed j)
    (hlate : j.late = true) (hwaits : j.result? = none) (hfetchers : j.fetchers = id :: rest) :
    ∃ more next, Course.follow step more j = some next ∧ next.late = true ∧
      next.fetchers = rest := by
  cases hfound : j.shop.supervisor.fetcher? id with
  | none =>
      exact ⟨[.join], { j with fetchers := rest },
        by simp [Course.follow_cons, step, join?, hwaits, hfetchers, hfound], hlate, rfl⟩
  | some f =>
      obtain ⟨hf, hid⟩ := Supervisor.mem_crew_of_fetcher? hfound
      cases hdone : f.terminated.done with
      | false =>
          exact ⟨[.join], { j with fetchers := rest, stragglers := j.stragglers ++ [id] },
            by simp [Course.follow_cons, step, join?, hwaits, hfetchers, hfound, hdone, hlate],
            hlate, rfl⟩
      | true =>
          have hended := (hw.signed f hf).symm.trans hdone
          cases hphase : f.phase with
          | gone =>
              exact ⟨[.join], { j with fetchers := rest },
                by simp [Course.follow_cons, step, join?, hwaits, hfetchers, hfound, hdone, hphase],
                hlate, rfl⟩
          | ended failure =>
              let g : Fetcher ρ := { f with phase := .gone }
              let depot := { j.shop.supervisor.depot with
                failures := j.shop.supervisor.depot.failures ++ failure.toList }
              let shop := { j.shop with
                supervisor := { j.shop.supervisor with depot }.replace g }
              have hvanishes : j.step (.others (.thread id [])) = some { j with shop } := by
                simp [step, Workshop.Move.isOwners, Workshop.Move.isCall, Workshop.step,
                  Supervisor.stepThread?, hfound, Supervisor.stepFetcher?, hphase, Fetcher.enter,
                  shop, g, depot]
              have hgone : shop.supervisor.fetcher? id = some g :=
                Supervisor.fetcher?_replace (g := g) hfound hid depot
              refine ⟨[.others (.thread id []), .join], { j with shop, fetchers := rest }, ?_,
                hlate, rfl⟩
              rw [Course.follow_cons, hvanishes]
              simp [Course.follow_cons, step, join?, hwaits, hfetchers, hgone, g, hdone]
          | _ => simp [hphase, Phase.hasEnded] at hended

theorem exists_result_of_late (hw : Waits False books passed j) (hlate : j.late = true) :
    ∃ more closed, Course.follow step more j = some closed ∧ closed.result?.isSome = true := by
  induction hfetchers : j.fetchers generalizing j passed with
  | nil =>
      cases hresult : j.result? with
      | some result => exact ⟨[], j, rfl, by simp [hresult]⟩
      | none =>
          have hjoin : ∃ closed, j.step .join = some closed ∧ closed.result?.isSome = true := by
            cases hstragglers : j.stragglers <;>
              simp [step, join?, hresult, hfetchers, hstragglers]
          obtain ⟨closed, hjoin, hclosed⟩ := hjoin
          exact ⟨[.join], closed, by simp [Course.follow_cons, hjoin], hclosed⟩
  | cons id rest ih =>
      have hwaits : j.result? = none := by
        cases hresult : j.result? with
        | none => rfl
        | some result =>
            have hnobody := (hw.result result hresult).1
            rw [hfetchers] at hnobody
            cases hnobody
      obtain ⟨first, mid, hfirst, hmid, hrest⟩ := exists_pass hw hlate hwaits hfetchers
      obtain ⟨_, hwmid⟩ := waits_follow hw hfirst
      obtain ⟨later, closed, hlater, hclosed⟩ := ih hwmid hmid hrest
      refine ⟨first ++ later, closed, ?_, hclosed⟩
      rw [Course.follow_append, hfirst]
      exact hlater

/-- Closing comes to an end, when time is up and the threads are gone that have given their sign. -/
theorem exists_result (hw : Waits False books passed j) :
    ∃ more closed, Course.follow step more j = some closed ∧ closed.result?.isSome = true := by
  obtain ⟨more, closed, hmore, hclosed⟩ := exists_result_of_late (waits_timeUp hw nofun) rfl
  exact ⟨.timeUp :: more, closed, hmore, hclosed⟩

/-! ### What closing comes to -/

/-- The owner of a supervisor begins to wait for those who were on its books. -/
def waiting (timeoutMs : Nat) (begun ended : Workshop ρ) : Joining ρ :=
  { shop := ended, fetchers := begun.supervisor.onBooks, timeoutMs }

/-- Threads that panicked are left behind.  Whatever a supervisor, its threads and all who hold on
to them have done before, and whoever comes between: when it is closed, waiting for its fetchers can
always come to an end; and what closing comes to then never says that one panicked.  Whoever
panicked in a call into its reader is said not to have stopped in time, whatever time there was; and
if all others have given their sign when time is up, it is said of exactly those that panicked. -/
theorem panicked_are_left_behind {capacity threads timeoutMs : Nat} {store : FileStore}
    {factory : Nat → Except Failure ρ} {begun ended : Workshop ρ}
    (before during : List Workshop.Move)
    (hbefore : Course.follow Workshop.step before (.opened capacity threads store factory) =
      some begun)
    (hduring : Course.follow Workshop.step (.close :: during) begun = some ended)
    (hwaiting : Course.follow step moves (waiting timeoutMs begun ended) = some last) :
    (∃ more closed, Course.follow step more last = some closed ∧ closed.result?.isSome = true) ∧
    ∀ result, last.result? = some result →
      (∀ id, result ≠ .error (.fetcherPanicked id)) ∧
      (∀ id ∈ begun.supervisor.onBooks, last.shop.supervisor.hasPanicked id = true →
        ∃ stragglers, result = .error (.leftBehind stragglers timeoutMs) ∧ id ∈ stragglers ∧
          stragglers.Sublist begun.supervisor.onBooks) ∧
      (Course.Never step Hurries moves (waiting timeoutMs begun ended) →
        let panicked := begun.supervisor.onBooks.filter last.shop.supervisor.hasPanicked
        panicked ≠ [] → result = .error (.leftBehind panicked timeoutMs)) := by
  obtain ⟨ho, hsigned⟩ := Workshop.signed_follow (Workshop.signed_follow
    ⟨Workshop.orderly_opened capacity threads store factory, List.forall_mem_nil _⟩ hbefore) hduring
  have htimeout : last.timeoutMs = timeoutMs := timeoutMs_follow hwaiting
  obtain ⟨passed, hw⟩ := waits_follow (waits_begun ho hsigned False _ timeoutMs) hwaiting
  refine ⟨exists_result hw, fun result hresult => ?_⟩
  obtain ⟨hnobody, hcomes⟩ := hw.result result hresult
  have hbooks := passed_of_waits hw hnobody
  refine ⟨?_, fun id hid hpanicked => ?_, fun hnever => ?_⟩
  · rcases hcomes with ⟨-, hcalm⟩ | ⟨-, rfl⟩
    · exact hcalm
    · exact fun _ => nofun
  · obtain ⟨f, hf, rfl, hpanic⟩ :=
      (Supervisor.hasPanicked_iff hw.orderly.staffed.unique).1 hpanicked
    have hleft : f.id ∈ last.stragglers := by
      refine (hw.accounted f hf (hbooks ▸ hid)).resolve_left fun hgone => ?_
      rw [hgone] at hpanic
      cases hpanic
    rcases hcomes with ⟨hnone, -⟩ | ⟨-, rfl⟩
    · rw [hnone] at hleft
      cases hleft
    · exact ⟨last.stragglers, by rw [htimeout], hleft, hbooks ▸ hw.stragglers⟩
  · intro panicked hsome
    obtain ⟨passed', hwell⟩ := waits_follow_inTime
      (waits_begun ho hsigned True _ timeoutMs) hwaiting hnever
    have hleft : last.stragglers = panicked := by
      rw [hwell.exact trivial, ← passed_of_waits hwell hnobody]
    rcases hcomes with ⟨hnone, -⟩ | ⟨-, rfl⟩
    · exact absurd (hleft.symm.trans hnone) hsome
    · rw [hleft, htimeout]

/-- A reader that finds nothing, or panics when it is to fetch. -/
structure Brittle where
  breaks : Bool

instance : SplitReader Brittle where
  fetch _ _ reader := (if reader.breaks then .panicked "boom" else .returned {}, reader)
  change _ reader := (.returned (), [], reader)
  wake reader := reader
  rewind := SplitBatch.letGo
  close reader := (.returned (), reader)

/-- A supervisor whose first reader panics when it is to fetch, and no other. -/
def firstBreaks (threads : Nat) : Workshop Brittle :=
  .opened 4 threads .empty fun built => .ok ⟨built == 0⟩

/-- Two splits are added, and the first fetcher panics over one of them. -/
def twoStarted : List Workshop.Move :=
  .addSplits [.range ⟨"a", 0, 1⟩, .range ⟨"b", 0, 1⟩] ::
    (Workshop.working 12 ++ Workshop.threads 7)

/-- The second fetcher leaves, and then time is up. -/
def secondLeaves : List Move :=
  (List.replicate 6 (.thread 1 [])).map .others ++ [.timeUp, .join, .join, .join]

/-- Whether closing comes to something then, and one fetcher has panicked. -/
def isOneLeftBehind : Bool :=
  (Course.follow Workshop.step twoStarted (firstBreaks 2)).any fun begun =>
    (Course.follow Workshop.step (.close :: Workshop.working 25) begun).any fun ended =>
      decide (Course.Never step Hurries secondLeaves (waiting 200 begun ended)) &&
        (Course.follow step secondLeaves (waiting 200 begun ended)).any fun last =>
          begun.supervisor.onBooks.filter last.shop.supervisor.hasPanicked == [0] &&
            last.result?.isSome

/-- It is said of that fetcher that it did not stop in time. -/
theorem one_panicked_is_left_behind :
    ∃ (begun ended : Workshop Brittle) (last : Joining Brittle),
      Course.follow Workshop.step twoStarted (firstBreaks 2) = some begun ∧
      Course.follow Workshop.step (.close :: Workshop.working 25) begun = some ended ∧
      Course.follow step secondLeaves (waiting 200 begun ended) = some last ∧
      begun.supervisor.onBooks.filter last.shop.supervisor.hasPanicked = [0] ∧
      last.result? = some (.error (.leftBehind [0] 200)) := by
  have htest : isOneLeftBehind = true := by decide +kernel
  obtain ⟨begun, hbefore, htest⟩ := (Option.any_eq_true _ _).1 htest
  obtain ⟨ended, hduring, htest⟩ := (Option.any_eq_true _ _).1 htest
  rw [Bool.and_eq_true, decide_eq_true_eq] at htest
  obtain ⟨hnever, htest⟩ := htest
  obtain ⟨last, hwaiting, htest⟩ := (Option.any_eq_true _ _).1 htest
  rw [Bool.and_eq_true, beq_iff_eq] at htest
  obtain ⟨hpanicked, hclosed⟩ := htest
  obtain ⟨result, hresult⟩ := Option.isSome_iff_exists.1 hclosed
  obtain ⟨-, -, hleft⟩ := (panicked_are_left_behind twoStarted (Workshop.working 25) hbefore hduring
    hwaiting).2 result hresult
  have hsome := hleft hnever
  rw [hpanicked] at hsome
  exact ⟨begun, ended, last, hbefore, hduring, hwaiting, hpanicked,
    hresult.trans (congrArg some (hsome (List.cons_ne_nil _ _)))⟩

/-- The only fetcher panics over its split. -/
def oneStarted : List Workshop.Move :=
  .addSplits [.range ⟨"a", 0, 1⟩] :: (Workshop.working 6 ++ Workshop.threads 7)

/-- Whether closing then says of it that it did not stop in time, where there is nobody else to wait
for. -/
def isMistaken : Bool :=
  (Course.follow Workshop.step oneStarted (firstBreaks 1)).any fun begun =>
    begun.supervisor.onBooks == [0] && begun.supervisor.hasPanicked 0 &&
      (Course.follow Workshop.step (.close :: Workshop.working 13) begun).any fun ended =>
        !ended.isBusy &&
          (Course.follow step [.timeUp, .join, .join] (waiting 200 begun ended)).any fun last =>
            last.result? == some (.error (.leftBehind [0] 200))

/-- A fetcher had panicked before its supervisor was closed, there was nobody else to wait for, and
closing did not say that one panicked. -/
theorem panic_not_told :
    ∃ (begun ended : Workshop Brittle) (last : Joining Brittle),
      Course.follow Workshop.step oneStarted (firstBreaks 1) = some begun ∧
      begun.supervisor.onBooks = [0] ∧ begun.supervisor.hasPanicked 0 = true ∧
      Course.follow Workshop.step (.close :: Workshop.working 13) begun = some ended ∧
      ended.isBusy = false ∧
      Course.follow step [.timeUp, .join, .join] (waiting 200 begun ended) = some last ∧
      last.result? = some (.error (.leftBehind [0] 200)) ∧
      last.result? ≠ some (.error (.fetcherPanicked 0)) := by
  have htest : isMistaken = true := by decide +kernel
  obtain ⟨begun, hbefore, htest⟩ := (Option.any_eq_true _ _).1 htest
  simp only [Bool.and_eq_true, beq_iff_eq] at htest
  obtain ⟨⟨hbooks, hpanicked⟩, htest⟩ := htest
  obtain ⟨ended, hduring, htest⟩ := (Option.any_eq_true _ _).1 htest
  rw [Bool.and_eq_true, Bool.not_eq_true'] at htest
  obtain ⟨hdone, htest⟩ := htest
  obtain ⟨last, hwaiting, hresult⟩ := (Option.any_eq_true _ _).1 htest
  rw [beq_iff_eq] at hresult
  refine ⟨begun, ended, last, hbefore, hbooks, hpanicked, hduring, hdone, hwaiting, hresult, ?_⟩
  rw [hresult]
  decide

end Joining

end SplitFeed
