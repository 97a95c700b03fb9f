/-
# Supervisors whose threads are never hasty

As long as no thread raises the idle flag over the heads of splits, a fetcher leaves its slot only
at rest, and no splits are given to it after that.  So no thread ever forsakes its splits, and once
every slot is empty all fetchers are spent.
-/
import SplitFeed.Proofs.Supervisor.Sound

namespace SplitFeed.Supervisor

variable {store : FileStore} {sort : ReaderSort} {s next : Supervisor Backend}
  {f g : Fetcher Backend} {d e : Depot} {disturbed : List Bool} {id slot : Nat}

/-- Idle flags are up only where there is nothing to do, and who is not in a slot is at rest. -/
structure Calm (s : Supervisor Backend) : Prop where
  quiet : ∀ f ∈ s.crew, f.Quiet
  atRest : ∀ f ∈ s.crew, f.id ∉ s.liveIds → f.AtRest

theorem calm_congr (hc : s.Calm) (hcrew : next.crew = s.crew)
    (hslots : next.slots = s.slots) : next.Calm where
  quiet := hcrew ▸ hc.quiet
  atRest := by simpa only [liveIds, hslots, hcrew] using hc.atRest

/-- A fetcher's place is taken by one that is as quiet. -/
theorem calm_replace (hc : s.Calm) (hid : g.id = f.id) (hquiet : g.Quiet)
    (hrest : f.id ∉ s.liveIds → g.AtRest) (depot : Depot) :
    ({ s with depot }.replace g).Calm where
  quiet := forall_crew_replace hc.quiet hquiet
  atRest := by
    intro h hmem hleft
    rcases mem_crew_replace hmem with rfl | ⟨hold, -⟩
    · exact hrest (hid ▸ hleft)
    · exact hc.atRest h hold hleft

theorem calm_stride (hcoherent : f.Coherent) (hhasty : ¬ f.IsHasty)
    (h : Stride disturbed f d g e) :
    (f.Quiet → g.Quiet) ∧ (f.AtRest → g.AtRest) := by
  cases h with
  | advance h =>
      exact ⟨fun hquiet => Fetcher.quiet_advance hquiet hcoherent hhasty h,
        fun hrest => Fetcher.atRest_advance hrest h⟩
  | vanish hphase =>
      refine ⟨fun hquiet hopen hidle => ?_, fun hrest => ⟨hrest.assigned, rfl, hrest.leftover⟩⟩
      obtain ⟨hassigned, -, hleft⟩ := hquiet hopen hidle
      exact ⟨hassigned, rfl, hleft⟩

theorem calm_thread (hs : s.Sound store sort) (hc : s.Calm)
    (hhasty : ∀ f ∈ s.crew, f.id = id → ¬ f.IsHasty)
    (h : s.stepThread? id disturbed = some next) : next.Calm := by
  obtain ⟨f, hf, hid, g, e, hstride, rfl⟩ := stride_of_stepThread? h
  obtain ⟨hquiet, hrest⟩ := calm_stride (hs.reliable f hf).coherent (hhasty f hf hid) hstride
  exact calm_replace hc (advanced_of_stride hstride).id (hquiet (hc.quiet f hf))
    (fun hleft => hrest (hc.atRest f hf hleft)) e

theorem calm_run {errand : Errand} (hc : s.Calm) (hfair : errand.IsFair store sort s) :
    (s.run errand).2.Calm := by
  cases errand with
  | nudge id nudge =>
      cases hfound : s.fetcher? id with
      | none => simpa [run, hfound] using hc
      | some f =>
          obtain ⟨hf, -⟩ := mem_crew_of_fetcher? hfound
          have hquiet : (nudge.apply f s.depot).1.Quiet := by
            cases nudge <;> exact hc.quiet f hf
          simp only [run, hfound]
          exact calm_replace hc (Fetcher.id_nudge _ _ _) hquiet
            (fun hleft => Fetcher.atRest_nudge nudge s.depot (hc.atRest f hf hleft)) _
  | ask id request =>
      cases hfound : s.fetcher? id with
      | none => simpa [run, hfound] using hc
      | some f =>
          obtain ⟨hf, rfl⟩ := mem_crew_of_fetcher? hfound
          simp only [run, hfound]
          refine calm_replace hc (Fetcher.id_enact _ _)
            (Fetcher.quiet_enact request (hc.quiet f hf))
            (fun hleft => Fetcher.atRest_enact (hc.atRest f hf hleft)
              fun splits hadds => ?_) s.depot
          subst hadds
          exact hleft hfair.2

/-- A fetcher in a slot that has no more to do there is at rest. -/
theorem atRest_of_isFinished (hs : s.Sound store sort) (hc : s.Calm) (hf : f ∈ s.crew)
    (hlive : f.id ∈ s.liveIds) (hfinished : isFinished f = true) : f.AtRest := by
  have hseated := isSeated_of_live hs hf hlive
  have hrefuses := Fetcher.refuses_of_isSeated (hs.reliable f hf).coherent hseated
  simp only [Duty.refuses, Bool.or_eq_false_iff] at hrefuses
  simp only [isFinished, hrefuses.1, Bool.or_false] at hfinished
  exact Fetcher.atRest_of_quiet (hc.quiet f hf) hrefuses.1 hfinished

theorem calm_perform {task : Task} (hs : s.Sound store sort) (hc : s.Calm)
    (hfair : task.IsFair store sort s) : (s.perform task).2.Calm := by
  cases task with
  | errand errand => exact calm_run hc hfair
  | give slot splits =>
      rcases perform_give_cases hs hfair.1 splits with
        ⟨-, hperform⟩ | ⟨id, -, hperform⟩ | ⟨reader, hnew, hsort, hempty, hperform⟩
      · rwa [hperform]
      · rwa [hperform]
      · obtain ⟨-, hself, hothers⟩ := sound_withSeated hs hempty hnew hsort
        rw [hperform]
        refine ⟨fun f hf => ?_, fun f hf hleft => ?_⟩ <;>
          rcases List.mem_append.1 hf with hold | hadded
        · exact hc.quiet f hold
        · rw [List.mem_singleton.1 hadded]
          exact fun _ _ => ⟨rfl, rfl, rfl⟩
        · exact hc.atRest f hold fun hlive => hleft (hothers f.id hlive)
        · rw [List.mem_singleton.1 hadded] at hleft
          exact absurd hself hleft
  | sweep slot =>
      rcases vacate_cases s slot with hnone | ⟨f, hf, hfinished, hseat, hsome⟩
      · simpa only [perform, hnone] using hc
      · simp only [perform, hsome]
        refine ⟨hc.quiet, fun g hg hleft => ?_⟩
        by_cases hlive : g.id ∈ s.liveIds
        · obtain ⟨-, -, hothers⟩ := sound_vacate hs hseat
          have hself : g.id = f.id := by_contra fun hne => hleft (hothers g.id hlive hne)
          obtain rfl := eq_of_id_eq hs.unique hg hf hself
          exact atRest_of_isFinished hs hc hg hlive hfinished
        · exact hc.atRest g hg hlive

/-- In a calm supervisor no thread forsakes its splits. -/
theorem not_forsakes_of_calm (hs : s.Sound store sort) (hc : s.Calm) (hf : f ∈ s.crew) :
    ¬ f.Forsakes := by
  intro hforsakes
  by_cases hlive : f.id ∈ s.liveIds
  · obtain ⟨⟨failed, hphase⟩, -⟩ := hforsakes
    have hgoesOn := (isSeated_of_live hs hf hlive).goesOn
    simp [hphase, Phase.isWinding] at hgoesOn
  · exact Fetcher.not_forsakes_of_atRest (hc.atRest f hf hlive) hforsakes

/-- Once every slot is empty, all fetchers are spent. -/
theorem isSpent_of_vacant (hc : s.Calm) (hvacant : s.isVacant = true) (hf : f ∈ s.crew) :
    f.IsSpent := by
  refine Fetcher.isSpent_of_atRest (hc.atRest f hf ?_)
  simp only [isVacant, List.all_eq_true] at hvacant
  simp only [liveIds, List.mem_filterMap, not_exists, not_and]
  intro seat hseat hlive
  have hnone := hvacant seat hseat
  rw [show seat = some f.id from hlive] at hnone
  cases hnone

end SplitFeed.Supervisor
