/-
# Who gets the splits that are dealt

Adding splits deals them over the slots and offers each slot's share to the fetcher there, which is
started for it if nobody is there.  A fetcher that was there before may have failed or may have been
asked to stop, and then it turns its share away.  The call does not hear of that.

So a split that nobody has yet either gets on the list of a fetcher that is neither closed nor to
stop, or is turned away by one that is, and never both.  Until that happens the split is in one task
of the call and in no other place (`Awaits`), and after it in none (`IsPast`).
-/
import SplitFeed.Proofs.Supervisor.Workshop

namespace SplitFeed

open Supervisor (Stride Performs)

variable {ρ : Type} {f g : Fetcher ρ} {split other : Split}

/-- The splits that tasks are to give away. -/
def Task.waiting (tasks : List Task) : List Split := tasks.flatMap Task.splits

/-- A split that nobody has is among those that are new to a fetcher. -/
theorem Duty.mem_newcomers {assigned splits : List Split} (hmem : split ∈ splits)
    (honce : (splits.map Split.id).Nodup) (hnew : ∀ other ∈ assigned, other.id ≠ split.id) :
    split ∈ Duty.newcomers assigned splits := by
  induction splits generalizing assigned with
  | nil => exact hmem
  | cons first rest ih =>
      rw [List.map_cons, List.nodup_cons] at honce
      rcases List.mem_cons.1 hmem with rfl | hrest
      · have hfree : (assigned.any (·.id == split.id)) = false := by simpa using hnew
        simp [Duty.newcomers, hfree]
      · have hother : first.id ≠ split.id := fun hid =>
          honce.1 (hid ▸ List.mem_map_of_mem (f := Split.id) hrest)
        unfold Duty.newcomers
        split
        · exact ih hrest honce.2 hnew
        · refine List.mem_cons_of_mem _ (ih hrest honce.2 ?_)
          simpa [or_imp, forall_and] using ⟨hnew, hother⟩

namespace Fetcher

/-- A thread takes splits off its list only. -/
theorem assigned_of_stride [SplitReader ρ] {disturbed : List Bool} {d e : Depot}
    (h : Stride disturbed f d g e) (hmem : other ∈ g.duty.assigned) : other ∈ f.duty.assigned := by
  cases h with
  | vanish => exact hmem
  | advance h =>
      rw [assigned_eq_of_advance h] at hmem
      exact (List.mem_filter.1 hmem).1

/-- A request puts splits on the list only if it offers them. -/
theorem assigned_of_enact {request : Request} (hmem : other ∈ (request.enact f).1.duty.assigned) :
    other ∈ f.duty.assigned ∨ ∃ batch, request = .addSplits batch ∧ other ∈ batch := by
  cases request with
  | addSplits splits =>
      simp only [Request.enact] at hmem
      split at hmem
      · exact .inl hmem
      · exact (List.mem_append.1 hmem).imp_right fun hnew =>
          ⟨splits, rfl, Duty.mem_of_mem_newcomers hnew⟩
  | removeSplits => exact .inl (List.mem_filter.1 hmem).1
  | stop mode =>
      simp only [Request.enact] at hmem
      split at hmem <;> exact .inl hmem
  | wakeUp | pause | resume | releaseLatch => exact .inl hmem

theorem assigned_nudge [SplitReader ρ] (nudge : Nudge) (f : Fetcher ρ) (d : Depot) :
    (nudge.apply f d).1.duty.assigned = f.duty.assigned := by
  cases nudge <;> rfl

end Fetcher

namespace Workshop

variable [SplitReader ρ] {shop next last begun ended : Workshop ρ} {move : Move}
  {moves : List Move} {s after : Supervisor ρ} {task : Task}
  {result : Except Failure (List Task)}

/-! ### Who is there -/

/-- There are slots, and whoever is on the books or gets an errand is one of the crew. -/
structure Known (shop : Workshop ρ) : Prop where
  slots : 0 < shop.supervisor.slots.length
  booked : ∀ id ∈ shop.supervisor.onBooks, id ∈ shop.supervisor.ids
  targets : ∀ errand, .errand errand ∈ shop.tasks → errand.target ∈ shop.supervisor.ids

omit [SplitReader ρ] in
/-- Somebody new gets a slot, and nobody else does. -/
theorem mem_liveIds_manned {slot id : Nat} {reader : ρ}
    (hid : id ∈ (s.manned slot reader).liveIds) : id ∈ s.liveIds ∨ id = s.nextId := by
  obtain ⟨seat, hseat⟩ := Supervisor.mem_liveIds.1 hid
  by_cases hsame : slot = seat
  · subst hsame
    have hset : (s.slots.set slot (some s.nextId))[slot]? = some (some id) := hseat
    rw [List.getElem?_set] at hset
    split at hset
    · split at hset
      · exact .inr (Option.some.inj (Option.some.inj hset)).symm
      · cases hset
    · exact absurd rfl ‹_›
  · have hset : (s.slots.set slot (some s.nextId))[seat]? = some (some id) := hseat
    rw [List.getElem?_set_ne hsame] at hset
    exact .inl (Supervisor.mem_liveIds.2 ⟨seat, hset⟩)

/-- Nobody leaves the crew. -/
theorem ids_performs (h : Performs s task result after) {id : Nat} (hid : id ∈ s.ids) :
    id ∈ after.ids := by
  cases h with
  | ask => exact Supervisor.ids_replace s _ ▸ hid
  | @nudge f nudge hf =>
      exact Supervisor.ids_replace { s with depot := (nudge.apply f s.depot).2 } _ ▸ hid
  | man => exact Supervisor.ids_manned _ _ s ▸ List.mem_append_left _ hid
  | missing | skip | give | fail | spare | sweep => exact hid

/-- Tasks put only members of the crew on the books, and send errands only to them. -/
theorem known_performs (hbooked : ∀ id ∈ s.onBooks, id ∈ s.ids) (h : Performs s task result after) :
    (∀ id ∈ after.onBooks, id ∈ after.ids) ∧
      ∀ more, result = .ok more → ∀ errand, .errand errand ∈ more → errand.target ∈ after.ids := by
  have hkept {id : Nat} (hid : id ∈ s.ids) : id ∈ after.ids := ids_performs h hid
  cases h with
  | missing | skip | spare => exact ⟨hbooked, fun _ hmore _ hmem => by cases hmore; cases hmem⟩
  | @ask f request hf =>
      refine ⟨fun id hid => hkept (hbooked id hid), fun _ hmore errand hmem => ?_⟩
      cases hmore
      obtain ⟨nudge, -, hnudge⟩ := List.mem_map.1 hmem
      obtain rfl := Task.errand.inj hnudge
      exact hkept (List.mem_map_of_mem hf)
  | nudge =>
      exact ⟨fun id hid => hkept (hbooked id hid), fun _ hmore _ hmem => by cases hmore; cases hmem⟩
  | @give slot splits id _ hseat =>
      refine ⟨hbooked, fun _ hmore errand hmem => ?_⟩
      cases hmore
      obtain rfl := Task.errand.inj (List.mem_singleton.1 hmem)
      exact hbooked _ (List.mem_append_left _ (Supervisor.mem_liveIds.2 ⟨slot, hseat⟩))
  | @man slot splits reader =>
      have hnew : s.nextId ∈ (s.manned slot reader).ids :=
        Supervisor.ids_manned slot reader s ▸ List.mem_append_right _ List.mem_cons_self
      refine ⟨fun id hid => ?_, fun _ hmore errand hmem => ?_⟩
      · rcases List.mem_append.1 hid with hlive | hretired
        · rcases mem_liveIds_manned hlive with hold | rfl
          · exact hkept (hbooked id (List.mem_append_left _ hold))
          · exact hnew
        · exact hkept (hbooked id (List.mem_append_right _ hretired))
      · cases hmore
        obtain rfl := Task.errand.inj (List.mem_singleton.1 hmem)
        exact hnew
  | fail => exact ⟨hbooked, nofun⟩
  | @sweep f slot hf _ hseat =>
      have hhere : f.id ∈ s.ids := List.mem_map_of_mem hf
      refine ⟨fun id hid => ?_, fun _ hmore errand hmem => ?_⟩
      · obtain ⟨before, after, hlive, hset⟩ := Supervisor.liveIds_set hseat
        have hold := hbooked id
        simp only [Supervisor.onBooks, hlive, hset, Option.toList_some, Option.toList_none,
          List.mem_append, List.mem_singleton, List.not_mem_nil] at hid hold
        rcases hid with hid | hid | rfl <;> tauto
      · cases hmore
        obtain rfl := Task.errand.inj (List.mem_singleton.1 hmem)
        exact hhere

omit [SplitReader ρ] in
theorem target_parting {errand : Errand} (hbooked : ∀ id ∈ s.onBooks, id ∈ s.ids)
    (hmem : .errand errand ∈ parting s) : errand.target ∈ s.ids := by
  obtain ⟨id, hid, request, hask⟩ := errand_of_mem_parting hmem
  obtain rfl := Task.errand.inj hask
  exact hbooked id hid

theorem known_goes (hk : shop.Known) (h : Goes shop move next) : next.Known := by
  obtain ⟨hslots, hbooked, htargets⟩ := hk
  cases h with
  | @thread f g e _ hf h =>
      have hids := Supervisor.ids_replace { shop.supervisor with depot := e } g
      exact ⟨hslots, fun id hid => hids.symm ▸ hbooked id hid,
        fun errand hmem => hids.symm ▸ htargets errand hmem⟩
  | errand h =>
      exact ⟨(Supervisor.slots_performs h).1.symm ▸ hslots, (known_performs hbooked h).1,
        fun errand hmem => ids_performs h (htargets errand hmem)⟩
  | queue | beside | shut => exact ⟨hslots, hbooked, htargets⟩
  | addSplits =>
      refine ⟨hslots, hbooked, fun errand hmem => ?_⟩
      obtain ⟨slot, -, hgive⟩ := List.mem_map.1 hmem
      cases hgive
  | reap =>
      refine ⟨hslots, hbooked, fun errand hmem => ?_⟩
      obtain ⟨slot, -, hsweep⟩ := List.mem_map.1 hmem
      cases hsweep
  | close =>
      refine ⟨by simpa [cleared] using hslots, fun id hid => ?_, fun _ => target_parting hbooked⟩
      simp [Supervisor.onBooks, Supervisor.liveIds, cleared] at hid
  | abandon => exact ⟨hslots, hbooked, fun _ => target_parting hbooked⟩
  | @task task later more after htasks h =>
      obtain ⟨hbooked', htargets'⟩ := known_performs hbooked h
      refine ⟨(Supervisor.slots_performs h).1.symm ▸ hslots, hbooked', fun errand hmem => ?_⟩
      rcases List.mem_append.1 hmem with hnew | hold
      · exact htargets' more rfl errand hnew
      · exact ids_performs h (htargets errand (htasks ▸ List.mem_cons_of_mem task hold))
  | fail _ h =>
      exact ⟨(Supervisor.slots_performs h).1.symm ▸ hslots, (known_performs hbooked h).1,
        fun _ hmem => absurd hmem List.not_mem_nil⟩

/-! ### Whose list grows -/

/-- A task puts splits on a list only by asking the fetcher to take them on. -/
theorem assigned_of_performs (h : Performs s task result after) (hg : g ∈ after.crew)
    (hmem : other ∈ g.duty.assigned) :
    (∃ f ∈ s.crew, f.id = g.id ∧ other ∈ f.duty.assigned) ∨
      ∃ batch, task = .errand (.ask g.id (.addSplits batch)) ∧ other ∈ batch := by
  cases h with
  | missing | skip | give | fail | spare | sweep => exact .inl ⟨g, hg, rfl, hmem⟩
  | @ask f request hf =>
      rcases Supervisor.mem_crew_replace hg with rfl | ⟨hold, -⟩
      · have hid := Fetcher.id_enact request f
        rcases Fetcher.assigned_of_enact hmem with hhad | ⟨batch, rfl, hbatch⟩
        · exact .inl ⟨f, hf, hid.symm, hhad⟩
        · exact .inr ⟨batch, by rw [hid], hbatch⟩
      · exact .inl ⟨g, hold, rfl, hmem⟩
  | @nudge f nudge hf =>
      rcases Supervisor.mem_crew_replace hg with rfl | ⟨hold, -⟩
      · rw [Fetcher.assigned_nudge] at hmem
        exact .inl ⟨f, hf, (Fetcher.id_nudge nudge f s.depot).symm, hmem⟩
      · exact .inl ⟨g, hold, rfl, hmem⟩
  | man =>
      rcases List.mem_append.1 hg with hold | hnew
      · exact .inl ⟨g, hold, rfl, hmem⟩
      · rw [List.mem_singleton.1 hnew] at hmem
        cases hmem

/-- The splits that a move offers to a fetcher. -/
def offered (shop : Workshop ρ) : Move → List Split
  | .errand errand => Task.splits (.errand errand)
  | .work =>
    match shop.tasks with
    | .errand errand :: _ => Task.splits (.errand errand)
    | _ => []
  | _ => []

theorem assigned_of_goes (h : Goes shop move next) (hg : g ∈ next.supervisor.crew)
    (hmem : other ∈ g.duty.assigned) :
    (∃ f ∈ shop.supervisor.crew, f.id = g.id ∧ other ∈ f.duty.assigned) ∨
      other ∈ shop.offered move := by
  cases h with
  | @thread f g' e _ hf h =>
      rcases Supervisor.mem_crew_replace hg with rfl | ⟨hold, -⟩
      · exact .inl ⟨f, hf, (Supervisor.advanced_of_stride h).id.symm,
          Fetcher.assigned_of_stride h hmem⟩
      · exact .inl ⟨g, hold, rfl, hmem⟩
  | errand h =>
      refine (assigned_of_performs h hg hmem).imp_right ?_
      rintro ⟨batch, hask, hbatch⟩
      obtain rfl := Task.errand.inj hask
      exact hbatch
  | task htasks h | fail htasks h =>
      refine (assigned_of_performs h hg hmem).imp_right ?_
      rintro ⟨batch, rfl, hbatch⟩
      simp only [offered, htasks]
      exact hbatch
  | queue | beside | addSplits | reap | close | abandon | shut =>
      exact .inl ⟨g, hg, rfl, hmem⟩

/-! ### One split -/

/-- A move puts a split on the list of a fetcher that is neither closed nor to stop. -/
def PutsOn (split : Split) (shop : Workshop ρ) (move : Move) : Prop :=
  ∃ next, shop.step move = some next ∧ ∃ f ∈ shop.supervisor.crew, ∃ g ∈ next.supervisor.crew,
    g.id = f.id ∧ f.duty.closed = false ∧ f.duty.stop = none ∧
      split ∉ f.duty.assigned ∧ split ∈ g.duty.assigned

instance decidablePutsOn (split : Split) (shop : Workshop ρ) (move : Move) :
    Decidable (PutsOn split shop move) :=
  match hmove : shop.step move with
  | none => isFalse fun ⟨_, h, _⟩ => by simp [hmove] at h
  | some next =>
    decidable_of_iff (∃ f ∈ shop.supervisor.crew, ∃ g ∈ next.supervisor.crew,
      g.id = f.id ∧ f.duty.closed = false ∧ f.duty.stop = none ∧
        split ∉ f.duty.assigned ∧ split ∈ g.duty.assigned) (by simp [PutsOn, hmove])

omit [SplitReader ρ] in
/-- The owner offers a split to a fetcher that is closed or to stop. -/
def TurnsAway (split : Split) (shop : Workshop ρ) (move : Move) : Prop :=
  move = .work ∧ ∃ f ∈ shop.supervisor.crew, ∃ batch later,
    shop.tasks = .errand (.ask f.id (.addSplits batch)) :: later ∧ split ∈ batch ∧
      (f.duty.closed = true ∨ f.duty.stop ≠ none)

/-- A split is still to be offered, once, and nobody has it. -/
structure Awaits (split : Split) (shop : Workshop ρ) : Prop where
  waits : split ∈ Task.waiting shop.tasks
  once : ((Task.waiting shop.tasks).map Split.id).Nodup
  new : ∀ f ∈ shop.supervisor.crew, ∀ other ∈ f.duty.assigned, other.id ≠ split.id

/-- A split is not to be offered any more. -/
def IsPast (split : Split) (shop : Workshop ρ) : Prop :=
  ∀ other ∈ Task.waiting shop.tasks, other.id ≠ split.id

/-- Others than the owner keep a split to themselves. -/
def Move.spares (split : Split) : Move → Prop
  | .errand sent => ∀ other ∈ Task.splits (.errand sent), other.id ≠ split.id
  | _ => True

omit [SplitReader ρ] in
/-- Nudges give nothing away. -/
theorem waiting_nudges (id : Nat) (nudges : List Nudge) :
    Task.waiting (nudges.map fun nudge => .errand (.nudge id nudge)) = [] :=
  List.flatMap_eq_nil_iff.2 fun task htask => by
    obtain ⟨nudge, -, rfl⟩ := List.mem_map.1 htask
    rfl

/-- What follows from a task are the splits that it had to give away, or none. -/
theorem waiting_performs {more : List Task} (h : Performs s task (.ok more) after) :
    (Task.waiting more).Sublist task.splits := by
  generalize hok : (Except.ok more : Except Failure (List Task)) = answer at h
  cases h with
  | fail => cases hok
  | missing | nudge | skip | spare | sweep =>
      obtain rfl := Except.ok.inj hok
      exact List.nil_sublist _
  | ask =>
      obtain rfl := Except.ok.inj hok
      rw [waiting_nudges]
      exact List.nil_sublist _
  | give | man =>
      obtain rfl := Except.ok.inj hok
      simp [Task.waiting, Task.splits]

/-- A split that a task does not offer to anybody yet is to be given away after it. -/
theorem waiting_give {more : List Task} (h : Performs s task (.ok more) after)
    (hmem : split ∈ task.splits)
    (hnot : ∀ id batch, task = .errand (.ask id (.addSplits batch)) → split ∉ batch) :
    split ∈ Task.waiting more := by
  cases task with
  | errand errand =>
      cases errand with
      | ask id request =>
          cases request with
          | addSplits batch => exact absurd hmem (hnot id batch rfl)
          | _ => cases hmem
      | nudge => cases hmem
  | give slot splits =>
      cases h with
      | skip => cases hmem
      | give | man => simpa [Task.waiting, Task.splits] using hmem
  | sweep => cases hmem

omit [SplitReader ρ] in
theorem waiting_cons (task : Task) (later : List Task) :
    Task.waiting (task :: later) = task.splits ++ Task.waiting later := List.flatMap_cons

omit [SplitReader ρ] in
theorem waiting_append (more later : List Task) :
    Task.waiting (more ++ later) = Task.waiting more ++ Task.waiting later :=
  List.flatMap_append

/-- Where nobody has a split after a move, the move has put it on no list. -/
theorem not_putsOn (hnew : ∀ f ∈ next.supervisor.crew, ∀ other ∈ f.duty.assigned,
    other.id ≠ split.id) (h : shop.step move = some next) : ¬ PutsOn split shop move := by
  rintro ⟨next', h', f, -, g, hg, -, -, -, -, hhas⟩
  obtain rfl := Option.some.inj (h.symm.trans h')
  exact hnew g hg split hhas rfl

/-- What was offered once is not offered again. -/
theorem isPast_goes (hp : IsPast split shop) (hcall : move.isCall = false)
    (h : Goes shop move next) : IsPast split next := by
  cases h with
  | thread | errand | queue | beside | shut => exact hp
  | addSplits | reap | close | abandon => cases hcall
  | @task task later more after htasks h =>
      unfold IsPast at hp ⊢
      rw [htasks, waiting_cons] at hp
      rw [waiting_append]
      intro other hother
      rcases List.mem_append.1 hother with hnew | hold
      · exact hp other (List.mem_append_left _ ((waiting_performs h).subset hnew))
      · exact hp other (List.mem_append_right _ hold)
  | fail => exact List.forall_mem_nil _

omit [SplitReader ρ] in
theorem not_offered (hp : IsPast split shop) (hspares : move.spares split) :
    ∀ other ∈ shop.offered move, other.id ≠ split.id := by
  intro other hother
  unfold offered at hother
  split at hother
  · exact hspares other hother
  · split at hother
    · next htasks =>
        refine hp other ?_
        rw [htasks, waiting_cons]
        exact List.mem_append_left _ hother
    · cases hother
  · cases hother

/-- Then nobody gets it, and nobody turns it away. -/
theorem not_handled (ho : shop.Orderly) (hp : IsPast split shop) (hspares : move.spares split) :
    ¬ PutsOn split shop move ∧ ¬ TurnsAway split shop move := by
  constructor
  · rintro ⟨next, h, f, hf, g, hg, hid, -, -, hnot, hhas⟩
    rcases assigned_of_goes (goes_of_step h) hg hhas with ⟨f', hf', hid', hhad⟩ | hoffered
    · obtain rfl := Supervisor.eq_of_id_eq ho.staffed.unique hf' hf (hid'.trans hid)
      exact hnot hhad
    · exact not_offered hp hspares split hoffered rfl
  · rintro ⟨-, f, -, batch, later, htasks, hmem, -⟩
    refine hp split ?_ rfl
    rw [htasks, waiting_cons]
    exact List.mem_append_left _ hmem

/-- A split that is not offered by a task, and waits after it, is still awaited. -/
theorem awaits_task {later more : List Task} (ha : Awaits split shop)
    (htasks : shop.tasks = task :: later) (h : Performs shop.supervisor task (.ok more) after)
    (hwaits : split ∈ Task.waiting (more ++ later))
    (hnot : ∀ id batch, task = .errand (.ask id (.addSplits batch)) → split ∉ batch) :
    Awaits split { shop with supervisor := after, tasks := more ++ later } := by
  obtain ⟨hhad, honce, hnew⟩ := ha
  rw [htasks, waiting_cons] at hhad honce
  refine ⟨hwaits, ?_, fun g hg other hother => ?_⟩
  · rw [waiting_append]
    exact honce.sublist (((waiting_performs h).append_right _).map Split.id)
  · rcases assigned_of_performs h hg hother with ⟨f, hf, -, hhas⟩ | ⟨batch, rfl, hbatch⟩
    · exact hnew f hf other hhas
    · have hlater := (List.mem_append.1 hhad).resolve_left (hnot _ batch rfl)
      rw [List.map_append, List.nodup_append] at honce
      exact honce.2.2 _ (List.mem_map_of_mem hbatch) _ (List.mem_map_of_mem hlater)

omit [SplitReader ρ] in
/-- Whoever takes splits on puts a new one among them on the list. -/
theorem assigned_enact {batch : List Split} (htakes : f.duty.refuses = false) (hmem : split ∈ batch)
    (honce : (batch.map Split.id).Nodup) (hnew : ∀ other ∈ f.duty.assigned, other.id ≠ split.id) :
    split ∈ ((Request.addSplits batch).enact f).1.duty.assigned := by
  have hadded := Duty.mem_newcomers hmem honce hnew
  have hsome : (Duty.newcomers f.duty.assigned batch).isEmpty = false := by
    cases hnone : Duty.newcomers f.duty.assigned batch with
    | nil => simp [hnone] at hadded
    | cons => rfl
  simpa [Request.enact, htakes, hsome, Duty.assign] using .inr hadded

/-- What the owner's next step does if it asks a fetcher to take splits on. -/
theorem step_ask {later : List Task} {batch : List Split} (ho : shop.Orderly)
    (hf : f ∈ shop.supervisor.crew)
    (htasks : shop.tasks = .errand (.ask f.id (.addSplits batch)) :: later) :
    shop.step .work = some { shop with
      supervisor := shop.supervisor.replace ((Request.addSplits batch).enact f).1
      tasks := ((Request.addSplits batch).enact f).2.map (fun nudge =>
        .errand (.nudge f.id nudge)) ++ later } := by
  have hfound := Supervisor.fetcher?_of_mem_crew ho.staffed.unique hf
  simp [step, work, htasks, Supervisor.perform, Supervisor.run, hfound, Function.comp_def]

/-- A split that is offered to a fetcher gets on its list, or is turned away. -/
theorem handled_ask {later : List Task} {batch : List Split} (ho : shop.Orderly)
    (ha : Awaits split shop) (hf : f ∈ shop.supervisor.crew)
    (htasks : shop.tasks = .errand (.ask f.id (.addSplits batch)) :: later)
    (hmem : split ∈ batch) (h : shop.step .work = some next) :
    IsPast split next ∧ (PutsOn split shop .work ↔ ¬ TurnsAway split shop .work) := by
  obtain ⟨-, honce, hnew⟩ := ha
  rw [htasks, waiting_cons, List.map_append, List.nodup_append] at honce
  have hstep := step_ask ho hf htasks
  obtain rfl := Option.some.inj (h.symm.trans hstep)
  refine ⟨fun other hother hid => ?_, fun hputs hturns => ?_, fun hkeeps => ?_⟩
  · rw [waiting_append, waiting_nudges, List.nil_append] at hother
    exact honce.2.2 _ (List.mem_map_of_mem hmem) _ (List.mem_map_of_mem hother) hid.symm
  · obtain ⟨-, refuser, hrefuser, _, _, htasks', -, hrefuses⟩ := hturns
    obtain ⟨_, h', taker, htaker, g, hg, hid, hopen, hgoes, -, hhas⟩ := hputs
    obtain rfl := Option.some.inj (hstep.symm.trans h')
    have hasked : refuser.id = f.id := by
      rw [htasks] at htasks'
      simp only [List.cons.injEq, Task.errand.injEq, Errand.ask.injEq] at htasks'
      exact htasks'.1.1.symm
    have htook : taker.id = f.id := by
      rcases Supervisor.mem_crew_replace hg with rfl | ⟨hold, -⟩
      · exact hid.symm.trans (Fetcher.id_enact _ f)
      · exact absurd rfl (hnew g hold split hhas)
    obtain rfl := Supervisor.eq_of_id_eq ho.staffed.unique hrefuser htaker (hasked.trans htook.symm)
    rcases hrefuses with hclosed | hstops
    · exact absurd (hopen.symm.trans hclosed) Bool.noConfusion
    · exact hstops hgoes
  · have htakes : ¬ (f.duty.closed = true ∨ f.duty.stop ≠ none) := fun hrefuses =>
      hkeeps ⟨rfl, f, hf, batch, later, htasks, hmem, hrefuses⟩
    rw [not_or, Bool.not_eq_true, not_ne_iff] at htakes
    have hnot : split ∉ f.duty.assigned := fun hhad => hnew f hf split hhad rfl
    have hadded := assigned_enact (by simp [Duty.refuses, htakes]) hmem honce.1 (hnew f hf)
    exact ⟨_, hstep, f, hf, _, Supervisor.mem_replace_self hf (Fetcher.id_enact _ f),
      Fetcher.id_enact _ f, htakes.1, htakes.2, hnot, hadded⟩

/-- A move that is not the owner's next step leaves a split that is awaited as it is. -/
theorem awaits_beside (ha : Awaits split shop) (hspares : move.spares split)
    (hcall : move.isCall = false) (hmove : move ≠ .work) (h : Goes shop move next) :
    Awaits split next := by
  obtain ⟨hwaits, honce, hnew⟩ := ha
  have htasks : next.tasks = shop.tasks := by
    cases h with
    | addSplits | reap | close | abandon => cases hcall
    | task | fail | shut => exact absurd rfl hmove
    | thread | errand | queue | beside => rfl
  refine ⟨htasks ▸ hwaits, htasks ▸ honce, fun g hg other hother => ?_⟩
  rcases assigned_of_goes h hg hother with ⟨f, hf, -, hhad⟩ | hoffered
  · exact hnew f hf other hhad
  · unfold offered at hoffered
    split at hoffered
    · exact hspares other hoffered
    · exact absurd rfl hmove
    · cases hoffered

/-- What becomes of a split that is awaited: it still is, or it has been offered, or the call has
failed. -/
theorem awaits_step (ho : shop.Orderly) (hk : shop.Known) (ha : Awaits split shop)
    (hspares : move.spares split) (hcall : move.isCall = false) (h : shop.step move = some next) :
    (Awaits split next ∧ ¬ TurnsAway split shop move) ∨
      (IsPast split next ∧ (PutsOn split shop move ↔ ¬ TurnsAway split shop move)) ∨
      ∃ failure, next.answer = .error failure := by
  by_cases hmove : move = .work
  · subst hmove
    cases goes_of_step h with
    | beside hmove => obtain ⟨_, hwork⟩ | hwork := hmove <;> cases hwork
    | shut htasks =>
        have hwaits := ha.waits
        rw [htasks] at hwaits
        cases hwaits
    | fail => exact .inr (.inr ⟨_, rfl⟩)
    | @task task later more after htasks hperforms =>
        have hwaits := ha.waits
        rw [htasks, waiting_cons, List.mem_append] at hwaits
        by_cases hoffers : ∃ id batch, task = .errand (.ask id (.addSplits batch)) ∧ split ∈ batch
        · obtain ⟨id, batch, rfl, hmem⟩ := hoffers
          obtain ⟨f, hf, rfl⟩ := List.mem_map.1 (hk.targets _ (htasks ▸ List.mem_cons_self))
          exact .inr (.inl (handled_ask ho ha hf htasks hmem h))
        · simp only [not_exists, not_and] at hoffers
          refine .inl ⟨awaits_task ha htasks hperforms ?_ hoffers, ?_⟩
          · rw [waiting_append, List.mem_append]
            exact hwaits.imp_left fun hhere => waiting_give hperforms hhere hoffers
          · rintro ⟨-, f, -, batch, _, hask, hmem, -⟩
            obtain ⟨rfl, -⟩ := List.cons.inj (htasks.symm.trans hask)
            exact hoffers _ _ rfl hmem
  · exact .inl ⟨awaits_beside ha hspares hcall hmove (goes_of_step h), fun hturns => hmove hturns.1⟩

/-! ### One call -/

omit [SplitReader ρ] in
theorem known_opened (capacity threads : Nat) (store : FileStore)
    (factory : Nat → Except Failure ρ) : (opened capacity threads store factory).Known where
  slots := by
    rw [opened, Supervisor.create, List.length_replicate]
    exact Nat.le_max_right threads 1
  booked id hid := by
    simp [opened, Supervisor.create, Supervisor.onBooks, Supervisor.liveIds] at hid
  targets _ := nofun

/-- A call that has failed stays failed. -/
theorem answer_goes (hfailed : shop.answer ≠ .ok ()) (hcall : move.isCall = false)
    (h : Goes shop move next) : next.answer ≠ .ok () := by
  cases h with
  | thread | errand | queue | beside | task | shut => exact hfailed
  | addSplits | reap | close | abandon => cases hcall
  | fail => nofun

/-- A split that is past is never dealt with again. -/
theorem past_never (ho : shop.Orderly) (hp : IsPast split shop)
    (hone : ∀ move ∈ moves, move.isCall = false) (hspares : ∀ move ∈ moves, move.spares split) :
    Course.Never step (PutsOn split) moves shop ∧
      Course.Never step (TurnsAway split) moves shop := by
  induction moves generalizing shop with
  | nil => exact ⟨trivial, trivial⟩
  | cons move moves ih =>
      rw [List.forall_mem_cons] at hone hspares
      obtain ⟨hputs, hturns⟩ := not_handled ho hp hspares.1
      have hrest (next : Workshop ρ) (h : shop.step move = some next) :=
        ih (orderly_step ho h) (isPast_goes hp hone.1 (goes_of_step h)) hone.2 hspares.2
      exact ⟨⟨hputs, fun next h => (hrest next h).1⟩, hturns, fun next h => (hrest next h).2⟩

/-- A split that is awaited is put on a list by the end of the call, or is turned away. -/
theorem awaits_follow (ho : shop.Orderly) (hk : shop.Known) (ha : Awaits split shop)
    (hone : ∀ move ∈ moves, move.isCall = false) (hspares : ∀ move ∈ moves, move.spares split)
    (h : Course.follow step moves shop = some ended) (hdone : ended.isBusy = false)
    (hok : ended.answer = .ok ()) :
    ¬ Course.Never step (PutsOn split) moves shop ↔
      Course.Never step (TurnsAway split) moves shop := by
  induction moves generalizing shop with
  | nil =>
      obtain rfl := Option.some.inj h
      have hwaits := ha.waits
      rw [(not_busy hdone).1] at hwaits
      cases hwaits
  | cons move moves ih =>
      rw [List.forall_mem_cons] at hone hspares
      obtain ⟨next, hmove, hrest⟩ := Course.follow_cons_eq_some.1 h
      have horderly := orderly_step ho hmove
      rw [Course.never_cons hmove, Course.never_cons hmove]
      rcases awaits_step ho hk ha hspares.1 hone.1 hmove with
        ⟨hawaits, hkeeps⟩ | ⟨hpast, hhandled⟩ | ⟨failure, hfailed⟩
      · have hnobody := not_putsOn hawaits.new hmove
        have hlater := ih horderly (known_goes hk (goes_of_step hmove)) hawaits hone.2 hspares.2
          hrest
        tauto
      · obtain ⟨hputs, hturns⟩ := past_never horderly hpast hone.2 hspares.2
        tauto
      · have hnever : Course.Never step (fun _ move => move.isCall = true) moves next :=
          Course.never_of_forall _ (fun move hmem _ => by simp [hone.2 move hmem]) next
        refine absurd hok (Course.follow_preserves_of_never
          (fun shop : Workshop ρ => shop.answer ≠ .ok ()) (fun hfailed hcall hstep => ?_) hrest
          hnever (by simp [hfailed]))
        exact answer_goes hfailed (Bool.not_eq_true _ ▸ hcall) (goes_of_step hstep)

omit [SplitReader ρ] in
/-- Every split falls to some slot. -/
theorem waiting_dealing (hk : shop.Known) (splits : List Split) :
    (Task.waiting (dealing splits shop.supervisor)).Perm splits := by
  rw [Task.waiting, dealing, List.flatMap_map]
  exact Floor.dealt_perm hk.slots shop.supervisor.nextSlot splits

omit [SplitReader ρ] in
/-- When a call begins, each of its splits is awaited. -/
theorem awaits_begun {splits : List Split} {s : Supervisor ρ} (hk : shop.Known)
    (honce : (splits.map Split.id).Nodup)
    (hnew : ∀ f ∈ s.crew, ∀ other ∈ f.duty.assigned, other.id ∉ splits.map Split.id)
    (hmem : split ∈ splits) :
    Awaits split
      { shop with supervisor := s, tasks := dealing splits shop.supervisor, answer := .ok () } where
  waits := (waiting_dealing hk splits).mem_iff.2 hmem
  once := ((waiting_dealing hk splits).map Split.id).nodup_iff.2 honce
  new f hf other hother hid := hnew f hf other hother (hid ▸ List.mem_map_of_mem hmem)

/-- Who gets the splits that are dealt.  Whatever a supervisor, its threads and all who hold on to
them have done before, and whoever comes between: when splits that nobody has are added and the
call succeeds, then each of them gets on the list of a fetcher that is neither closed nor to stop,
unless it is turned away by one that is. -/
theorem assigned_iff_not_turned_away {capacity threads : Nat} {store : FileStore}
    {factory : Nat → Except Failure ρ} {splits : List Split} (before during : List Move)
    (hbefore : Course.follow step before (opened capacity threads store factory) = some begun)
    (hduring : Course.follow step (.addSplits splits :: during) begun = some ended)
    (hone : ∀ move ∈ during, move.isCall = false)
    (hothers : ∀ move ∈ during, ∀ split ∈ splits, move.spares split)
    (honce : (splits.map Split.id).Nodup)
    (hnew : ∀ f ∈ begun.supervisor.crew, ∀ other ∈ f.duty.assigned,
      other.id ∉ splits.map Split.id)
    (hdone : ended.isBusy = false) (hok : ended.answer = .ok ()) :
    ∀ split ∈ splits,
      (¬ Course.Never step (PutsOn split) (.addSplits splits :: during) begun ↔
        Course.Never step (TurnsAway split) (.addSplits splits :: during) begun) := by
  intro split hmem
  obtain ⟨ho, hk⟩ : begun.Orderly ∧ begun.Known :=
    Course.follow_preserves (fun shop : Workshop ρ => shop.Orderly ∧ shop.Known)
      (fun ⟨ho, hk⟩ h => ⟨orderly_step ho h, known_goes hk (goes_of_step h)⟩) hbefore
      ⟨orderly_opened capacity threads store factory, known_opened capacity threads store factory⟩
  obtain ⟨called, hbegins, hrest⟩ := Course.follow_cons_eq_some.1 hduring
  have hawaits : Awaits split called := by
    cases goes_of_step hbegins with
    | addSplits => exact awaits_begun hk honce hnew hmem
    | beside hmove => obtain ⟨_, h⟩ | h := hmove <;> cases h
  have hturns : ¬ TurnsAway split begun (.addSplits splits) := nofun
  rw [Course.never_cons hbegins, Course.never_cons hbegins]
  have hputs := not_putsOn hawaits.new hbegins
  have hcall := awaits_follow (orderly_step ho hbegins) (known_goes hk (goes_of_step hbegins))
    hawaits hone (fun move hmove => hothers move hmove split hmem) hrest hdone hok
  tauto

/-- Whether no call is under way, and the last one has succeeded. -/
def hasSucceeded (shop : Workshop ρ) : Bool := !shop.isBusy && shop.answer.isOk

omit [SplitReader ρ] in
theorem succeeded (h : shop.hasSucceeded = true) : shop.isBusy = false ∧ shop.answer = .ok () := by
  rw [hasSucceeded, Bool.and_eq_true, Bool.not_eq_true'] at h
  refine ⟨h.1, ?_⟩
  cases hanswer : shop.answer with
  | ok => rfl
  | error => simp [hanswer, Except.isOk, Except.toBool] at h

/-- A file is added, and the first fetcher fails over it, as its reader knows ranges only. -/
def failing (steps : Nat) : List Move :=
  .addSplits [.file ⟨"a", "a"⟩] :: working steps ++ threads 10

/-- Two splits are added. -/
def addingTwo : List Move :=
  .addSplits [.range ⟨"b", 0, 2⟩, .range ⟨"c", 0, 2⟩] :: working 8

/-- Whether the first of them gets on a list and the second on none, where a fetcher in one of two
slots has failed. -/
def isHalfDealt : Bool :=
  (Course.follow step (failing 7) (opened 4 2 .empty fun _ =>
      .ok (.ranges (.withLimits 5 0)) : Workshop Backend)).any fun begun =>
    begun.supervisor.crew.all (fun f => f.duty.assigned.all (·.id == "a")) &&
      !decide (Course.Never step (PutsOn (.range ⟨"b", 0, 2⟩)) addingTwo begun) &&
      decide (Course.Never step (PutsOn (.range ⟨"c", 0, 2⟩)) addingTwo begun) &&
      (Course.follow step addingTwo begun).any hasSucceeded

/-- So the second is turned away, and the first is not. -/
theorem half_is_turned_away :
    ∃ begun ended : Workshop Backend,
      Course.follow step (failing 7) (opened 4 2 .empty fun _ => .ok (.ranges (.withLimits 5 0))) =
          some begun ∧
        Course.follow step addingTwo begun = some ended ∧ ended.answer = .ok () ∧
        Course.Never step (TurnsAway (.range ⟨"b", 0, 2⟩)) addingTwo begun ∧
        ¬ Course.Never step (TurnsAway (.range ⟨"c", 0, 2⟩)) addingTwo begun := by
  have htest : isHalfDealt = true := by decide +kernel
  obtain ⟨begun, hbefore, htest⟩ := (Option.any_eq_true _ _).1 htest
  simp only [Bool.and_eq_true, Bool.not_eq_true', decide_eq_true_eq, decide_eq_false_iff_not,
    List.all_eq_true, beq_iff_eq] at htest
  obtain ⟨⟨⟨hold, hputs⟩, hlost⟩, htest⟩ := htest
  obtain ⟨ended, hduring, htest⟩ := (Option.any_eq_true _ _).1 htest
  obtain ⟨hdone, hok⟩ := succeeded htest
  have hnew : ∀ f ∈ begun.supervisor.crew, ∀ other ∈ f.duty.assigned, other.id ∉ ["b", "c"] := by
    intro f hf other hother
    rw [hold f hf other hother]
    decide
  have hhandled := assigned_iff_not_turned_away (failing 7) (working 8) hbefore hduring (by decide)
    (fun move hmove _ _ => List.eq_of_mem_replicate hmove ▸ trivial) (by decide) hnew hdone hok
  have hfirst := hhandled (.range ⟨"b", 0, 2⟩) (by simp)
  have hsecond := hhandled (.range ⟨"c", 0, 2⟩) (by simp)
  exact ⟨begun, ended, hbefore, hduring, hok, hfirst.1 hputs, fun h => hsecond.2 h hlost⟩

/-- Whether one split gets on no list, where the fetcher in the only slot has failed. -/
def isLost : Bool :=
  (Course.follow step (failing 6) (opened 4 1 .empty fun _ =>
      .ok (.ranges (.withLimits 5 0)) : Workshop Backend)).any fun begun =>
    let adding := .addSplits [.range ⟨"b", 0, 2⟩] :: working 2
    begun.supervisor.crew.all (fun f => f.duty.assigned.all (·.id != "b")) &&
      decide (Course.Never step (PutsOn (.range ⟨"b", 0, 2⟩)) adding begun) &&
      (Course.follow step adding begun).any hasSucceeded

/-- The call succeeds all the same. -/
theorem lost_on_the_failed :
    ∃ begun ended : Workshop Backend,
      let adding := .addSplits [.range ⟨"b", 0, 2⟩] :: working 2
      Course.follow step (failing 6) (opened 4 1 .empty fun _ => .ok (.ranges (.withLimits 5 0))) =
          some begun ∧
        (∀ f ∈ begun.supervisor.crew, ∀ other ∈ f.duty.assigned, other.id ≠ "b") ∧
        Course.follow step adding begun = some ended ∧ ended.isBusy = false ∧
        ended.answer = .ok () ∧
        Course.Never step (PutsOn (.range ⟨"b", 0, 2⟩)) adding begun := by
  have htest : isLost = true := by decide +kernel
  obtain ⟨begun, hbefore, htest⟩ := (Option.any_eq_true _ _).1 htest
  simp only [Bool.and_eq_true, decide_eq_true_eq, List.all_eq_true, bne_iff_ne] at htest
  obtain ⟨⟨hnew, hlost⟩, htest⟩ := htest
  obtain ⟨ended, hduring, htest⟩ := (Option.any_eq_true _ _).1 htest
  obtain ⟨hdone, hok⟩ := succeeded htest
  exact ⟨begun, ended, hbefore, hnew, hduring, hdone, hok, hlost⟩

end Workshop

end SplitFeed
