/-
# Runs in rounds

The program lets everybody who can make one step per round, the consumer first.  Before that it
deals all splits without a gap.  Whatever comes of it comes of some course of a run, so what holds
of runs in all interleavings holds of the program's own.

The crew can be told apart by ids, because the next id is always new.
-/
import SplitFeed.Proofs.Pipeline.Journal
import SplitFeed.Proofs.Supervisor.Calls
import SplitFeed.Proofs.Supervisor.Turns

namespace SplitFeed

open Supervisor

/-! ### Dealing without a gap -/

namespace Supervisor

variable {ρ : Type} [SplitReader ρ] {s : Supervisor ρ} {tasks : List Task}
  {result : Except Failure Unit × Supervisor ρ}

/-- A crew stays one of which all can be told apart. -/
theorem staffed_through (h : Through tasks s result) (hs : s.Staffed) : result.2.Staffed := by
  induction h with
  | done s => exact hs
  | @goOn task _ _ s _ _ hperform _ ih =>
      have hperforms := performs task s
      rw [hperform] at hperforms
      exact ih (staffed_performs hs hperforms)
  | @fail task _ s _ _ hperform =>
      have hperforms := performs task s
      rw [hperform] at hperforms
      exact staffed_performs hs hperforms

/-- Only a reader that cannot be built makes a task fail. -/
theorem perform_ne_error (hbuilds : ∀ built, ∃ reader, s.factory built = .ok reader)
    (task : Task) (failure : Failure) : (s.perform task).1 ≠ .error failure := by
  cases task with
  | errand errand => exact nofun
  | give slot splits =>
      have hgives := gives slot splits s
      rcases hperform : s.perform (.give slot splits) with ⟨answer, after⟩
      rw [hperform] at hgives
      cases hgives with
      | nothing | tenant | started => exact nofun
      | missed hsplits hfree hcause =>
          obtain ⟨reader, hreader⟩ := hbuilds s.built
          cases hcause.symm.trans hreader
  | sweep slot =>
      rcases vacate_cases s slot with hspared | ⟨f, -, -, -, hvacated⟩
      · simp [perform, hspared]
      · simp [perform, hvacated]

theorem through_ok (h : Through tasks s result)
    (hbuilds : ∀ built, ∃ reader, s.factory built = .ok reader) : result.1 = .ok () := by
  induction h with
  | done s => rfl
  | @goOn task _ _ s _ _ hperform _ ih =>
      have hperforms := performs task s
      rw [hperform] at hperforms
      exact ih ((frame_performs hperforms).1 ▸ hbuilds)
  | @fail task _ s _ failure hperform =>
      exact absurd (congrArg Prod.fst hperform) (perform_ne_error hbuilds task failure)

/-- An errand starts nobody. -/
theorem ids_run {ρ : Type} [SplitReader ρ] (errand : Errand) (s : Supervisor ρ) :
    (s.run errand).2.ids = s.ids := by
  cases errand with
  | ask id request =>
      simp only [run]
      split
      · rfl
      · exact ids_replace _ _
  | nudge id nudge =>
      simp only [run]
      split
      · rfl
      · exact ids_replace _ _

/-- Where every reader can be built, splits are dealt whole. -/
theorem through_addSplits {s : Supervisor Backend} (hs : s.Staffed)
    (hbuilds : ∀ built, ∃ reader, s.factory built = .ok reader) (splits : List Split) :
    (s.addSplits splits).1 = .ok () ∧ (s.addSplits splits).2.Staffed ∧
      Through (Floor.dealing splits s) (Floor.dealtPast splits s) (s.addSplits splits) := by
  have hthrough : Through (Floor.dealing splits s) (Floor.dealtPast splits s)
      (s.addSplits splits) := through_giveAll _ _ _
  exact ⟨through_ok hthrough hbuilds,
    staffed_through hthrough (staffed_congr hs rfl (Nat.le_refl s.nextId)), hthrough⟩

end Supervisor

namespace Run

variable {p q : Pipeline Backend} {s : Supervisor Backend} {numbers : List Nat}

/-- The dealing goes on to its end if nobody comes between. -/
theorem follow_dealing (run : Run) {tasks : List Task}
    {result : Except Failure Unit × Supervisor Backend}
    (h : Through tasks run.pipeline.supervisor result) (htasks : run.dealing = tasks)
    (hok : result.1 = .ok ()) :
    ∃ count, Course.follow step (List.replicate count .work) run =
      some { pipeline := { run.pipeline with supervisor := result.2 } } := by
  subst htasks
  let ended : Except Failure Unit × Supervisor Backend → Run
    | (.ok (), supervisor) => { pipeline := { run.pipeline with supervisor } }
    | (.error cause, supervisor) =>
      { pipeline :=
          { run.pipeline with supervisor, phase := .over (.error (.splitsNotDealt cause)) } }
  obtain ⟨count, hcount⟩ := follow_through step .work
    (fun supervisor dealing => { pipeline := { run.pipeline with supervisor }, dealing }) ended
    (fun _ => rfl) (fun hperform => by simp only [step, hperform])
    (fun hperform => by simp only [step, hperform, ended]) h
  refine ⟨count, hcount.trans ?_⟩
  obtain ⟨answer, supervisor⟩ := result
  obtain rfl : answer = .ok () := hok
  rfl

/-- Setting up a run is beginning one and dealing all its splits. -/
theorem follow_start (settings : Settings) (store : FileStore) :
    (∃ error, opened settings store = .error error ∧
        Pipeline.start settings store = .error error) ∨
      ∃ first p count, opened settings store = .ok first ∧
        Pipeline.start settings store = .ok p ∧ p.supervisor.ids.Nodup ∧
          Course.follow step (List.replicate count .work) first = some ⟨p, []⟩ := by
  simp only [opened, Pipeline.start, bind, Except.bind, pure, Except.pure]
  split
  · exact .inl ⟨_, rfl, rfl⟩
  · next splits _ =>
    split
    · exact .inl ⟨_, rfl, rfl⟩
    · next described _ =>
      split
      · exact .inl ⟨_, rfl, rfl⟩
      · next sunk _ =>
        let idle := Supervisor.create settings.runtime.queueCapacity settings.runtime.fetcherThreads
          sunk.2 fun _ => .ok (Backend.ofSettings settings.source)
        obtain ⟨hok, hstaffed, hthrough⟩ := through_addSplits (s := idle)
          (staffed_create _ _ _ _) (fun _ => ⟨_, rfl⟩) splits
        rcases hadded : idle.addSplits splits with ⟨result, after⟩
        rw [hadded] at hok hstaffed hthrough
        obtain rfl := hok
        let first : Run :=
          { pipeline :=
              { supervisor := Floor.dealtPast splits idle
                sink := sunk.1
                books :=
                  { totals := { source := described.1, expected := described.2 }
                    limit := settings.runtime.recordLimit }
                closeTimeoutMs := settings.runtime.closeTimeoutMs }
            dealing := Floor.dealing splits idle }
        obtain ⟨count, hcount⟩ := follow_dealing first hthrough rfl rfl
        exact .inr ⟨first, _, count, rfl, rfl, hstaffed.unique, hcount⟩

/-! ### Round after round -/

/-- A run goes on as its threads do. -/
theorem follow_threads (run : Run)
    (h : Course.follow (stepWilling? fun _ => true) numbers run.pipeline.supervisor = some s) :
    Course.follow step (numbers.map (.thread · [])) run =
      some { run with pipeline := { run.pipeline with supervisor := s } } := by
  induction numbers generalizing run with
  | nil =>
      obtain rfl := Option.some.inj h
      rfl
  | cons number numbers ih =>
      obtain ⟨mid, hmid, hlater⟩ := Course.follow_cons_eq_some.1 h
      obtain ⟨-, hthread⟩ := Option.ite_none_right_eq_some.1 hmid
      rw [List.map_cons, Course.follow_cons]
      simp only [step, hthread]
      exact ih { run with pipeline := { run.pipeline with supervisor := mid } } hlater

/-- All threads taking their turns is part of a course. -/
theorem follow_stepFetchers (honce : p.supervisor.ids.Nodup) :
    ∃ numbers : List Nat, Course.follow step (numbers.map (.thread · [])) ⟨p, []⟩ =
      some ⟨p.stepFetchers.2, []⟩ := by
  obtain ⟨numbers, hturn⟩ := follow_turned (fun _ => true) honce
  exact ⟨numbers, follow_threads ⟨p, []⟩ hturn⟩

theorem ids_stepFetchers (p : Pipeline Backend) :
    p.stepFetchers.2.supervisor.ids = p.supervisor.ids :=
  ids_turned (fun _ => true) p.supervisor

/-- The consumer starts nobody, and lets nobody vanish. -/
theorem ids_stepConsumer (h : p.stepConsumer? = some q) :
    q.supervisor.ids = p.supervisor.ids := by
  cases herrands : p.errands with
  | cons errand rest =>
      rw [errand_consumer herrands h]
      exact ids_run errand p.supervisor
  | nil =>
      obtain ⟨hcrew, -⟩ := Pipeline.crew_works (Pipeline.works_of_consumer herrands h)
      rw [ids, ids, hcrew]

/-- Rounds are a course. -/
theorem follow_run (rounds : Nat) (honce : p.supervisor.ids.Nodup) :
    ∃ moves, Course.follow step moves ⟨p, []⟩ = some ⟨p.run rounds, []⟩ := by
  induction rounds generalizing p with
  | zero => exact ⟨[], rfl⟩
  | succ rounds ih =>
      -- The threads take their turns, and what comes after that is the induction hypothesis.
      have hround (mid : Pipeline Backend) (honce : mid.supervisor.ids.Nodup) :
          ∃ moves, Course.follow step moves ⟨mid, []⟩ =
            some ⟨mid.stepFetchers.2.run rounds, []⟩ := by
        obtain ⟨numbers, hthreads⟩ := follow_stepFetchers honce
        obtain ⟨moves, hmoves⟩ := ih ((ids_stepFetchers mid).symm ▸ honce)
        exact ⟨_, by rw [Course.follow_append, hthreads]; exact hmoves⟩
      rw [Pipeline.run]
      split
      · exact ⟨[], rfl⟩
      · split
        · next next hnext =>
          obtain ⟨moves, hmoves⟩ := hround next (ids_stepConsumer hnext ▸ honce)
          have hwork : step .work ⟨p, []⟩ = some ⟨next, []⟩ := by simp only [step, hnext]; rfl
          exact ⟨.work :: moves, by rw [Course.follow_cons, hwork]; exact hmoves⟩
        · rcases hfetched : p.stepFetchers with ⟨moved, next⟩
          cases moved with
          | true => simpa [hfetched] using hround p honce
          | false =>
              cases hlate : p.late with
              | true => exact ⟨[], by simp⟩
              | false =>
                  obtain ⟨moves, hmoves⟩ := ih (p := { p with late := true }) honce
                  exact ⟨.late :: moves, by simpa [step] using hmoves⟩

/-- What the program does with settings is part of some course of a run: if anything is wrong before
the run begins, that is the result and the files are left alone; otherwise result and files are
those at the end of a course from where the run begins. -/
theorem runSettings_goes (rounds : Nat) (settings : Settings) (store : FileStore) :
    (∃ error, opened settings store = .error error ∧
        Pipeline.runSettings rounds settings store = (some (.error error), store)) ∨
      ∃ first moves last, opened settings store = .ok first ∧
        Course.follow step moves first = some last ∧ last.dealing = [] ∧
          Pipeline.runSettings rounds settings store =
            (last.pipeline.result?, last.pipeline.store) := by
  obtain ⟨error, hopened, hstart⟩ | ⟨first, p, count, hopened, hstart, honce, hdealt⟩ :=
    follow_start settings store
  · exact .inl ⟨error, hopened, by simp only [Pipeline.runSettings, hstart]⟩
  · obtain ⟨moves, hmoves⟩ := follow_run rounds honce
    refine .inr ⟨first, List.replicate count .work ++ moves, ⟨p.run rounds, []⟩, hopened, ?_, rfl,
      ?_⟩
    · rw [Course.follow_append, hdealt]
      exact hmoves
    · simp only [Pipeline.runSettings, hstart]

end Run

end SplitFeed
