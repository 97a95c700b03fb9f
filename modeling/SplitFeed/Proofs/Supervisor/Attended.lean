/-
# Supervisors that a consumer may rely on

While the consumer takes batches, the fetchers in the slots are on duty, and whatever it decided
about one of them has reached it or is on the agenda.  What the consumer has found out on its way to
waiting for a bell stays true as long as the bell is silent and no failure is reported: of the slots
it has swept, only fetchers that stir are left; of the fetchers it has counted, all wait for the
drain; and when it waits, somebody stirs.

Threads, errands, the dealing of splits and the consumer itself keep it that way.
-/
import SplitFeed.Pipeline
import SplitFeed.Proofs.Supervisor.OnDuty
import SplitFeed.Proofs.Supervisor.Sound

namespace SplitFeed

/-- The bell that the consumer asked for and may come to wait for. -/
def ConsumerPhase.bell? : ConsumerPhase → Option Nat
  | looking bell | reaping bell _ | counting bell _ | waiting bell => some bell
  | _ => none

/-- The fetcher that an errand is to. -/
def Errand.target : Errand → Nat
  | .ask id _ | .nudge id _ => id

/-- What may be on the agenda when given fetchers are in slots: splits are added, fetchers in slots
are told to drain when it is time for that, and others are stopped. -/
def Errand.Suits (draining : Bool) (live : List Nat) : Errand → Prop
  | .ask _ (.addSplits _) => True
  | .ask _ (.stop .draining) => draining = true
  | .ask id (.stop .immediate) => id ∉ live
  | .ask _ _ => False
  | .nudge id .wakePut => id ∉ live
  | .nudge _ _ => True

/-- As above; slots are swept by the consumer itself. -/
def Task.Suits (draining : Bool) (live : List Nat) : Task → Prop
  | .errand single => single.Suits draining live
  | .give _ _ => True
  | .sweep _ => False

namespace Fetcher

variable {ρ : Type} {f g : Fetcher ρ} {d e : Depot} {disturbed : List Bool} {draining : Bool}
  {agenda agenda' : List Task}

/-- What was decided about a fetcher has reached it, or is on the agenda: if its thread naps there
is nothing to do for it, and it was told to drain if it is time for that. -/
structure Reached (agenda : List Task) (draining : Bool) (f : Fetcher ρ) : Prop where
  roused : f.phase = .parked → f.napping = true →
    f.duty.mayPark = true ∨ .errand (.nudge f.id .rouse) ∈ agenda
  told : draining = true →
    f.duty.stop ≠ none ∨ .errand (.ask f.id (.stop .draining)) ∈ agenda

theorem reached_of_agenda (hr : f.Reached agenda draining)
    (hrouse : Task.errand (.nudge f.id .rouse) ∈ agenda →
      Task.errand (.nudge f.id .rouse) ∈ agenda')
    (hask : Task.errand (.ask f.id (.stop .draining)) ∈ agenda →
      Task.errand (.ask f.id (.stop .draining)) ∈ agenda') : f.Reached agenda' draining where
  roused hphase hnapping := (hr.roused hphase hnapping).imp_right hrouse
  told hdrains := (hr.told hdrains).imp_right hask

/-- To a fetcher that is new nothing is due. -/
theorem reached_new (id : Nat) (reader : ρ) :
    ({ id, reader } : Fetcher ρ).beginLoop.Reached agenda false where
  roused := nofun
  told := nofun

/-- Errands to others may be run. -/
theorem reached_of_other {errand : Errand} (hr : f.Reached (.errand errand :: agenda) draining)
    (hne : f.id ≠ errand.target) : f.Reached agenda draining := by
  have hkeeps (own : Errand) (hown : own.target = f.id)
      (hmem : Task.errand own ∈ Task.errand errand :: agenda) : Task.errand own ∈ agenda := by
    rcases List.mem_cons.1 hmem with hsame | hlater
    · obtain rfl := Task.errand.inj hsame
      exact absurd hown.symm hne
    · exact hlater
  exact reached_of_agenda hr (hkeeps _ rfl) (hkeeps _ rfl)

/-- What follows from them does not get in the way. -/
theorem reached_append (more : List Task) (hr : f.Reached agenda draining) :
    f.Reached (more ++ agenda) draining :=
  reached_of_agenda hr (List.mem_append_right more) (List.mem_append_right more)

/-- A request that suits a fetcher on duty leaves it reached, with the nudges that follow. -/
theorem reached_enact {request : Request} {live : List Nat} (hstays : request ≠ .stop .immediate)
    (hsuits : (Errand.ask f.id request).Suits draining live)
    (hr : f.Reached (.errand (.ask f.id request) :: agenda) draining) :
    (request.enact f).1.Reached
      ((request.enact f).2.map (fun nudge => .errand (.nudge f.id nudge)) ++ agenda) draining := by
  have hrouse (own : Nudge)
      (hmem : Task.errand (.nudge f.id own) ∈ Task.errand (.ask f.id request) :: agenda) :
      Task.errand (.nudge f.id own) ∈ agenda := by
    simpa using hmem
  cases request with
  | addSplits splits =>
      have hask (hmem : Task.errand (.ask f.id (.stop .draining)) ∈
          Task.errand (.ask f.id (.addSplits splits)) :: agenda) :
          Task.errand (.ask f.id (.stop .draining)) ∈ agenda := by
        simpa using hmem
      simp only [Request.enact]
      split
      · exact reached_of_agenda hr (hrouse _) hask
      · refine ⟨fun _ _ => .inr (List.mem_append_left _ List.mem_cons_self), fun hdrains => ?_⟩
        exact (hr.told hdrains).imp_right fun hmem => List.mem_append_right _ (hask hmem)
  | stop mode =>
      cases mode with
      | immediate => exact absurd rfl hstays
      | draining =>
          simp only [Request.enact]
          split
          · next hstop =>
              refine ⟨fun hphase hnapping => ?_, fun _ => .inl (by simp [hstop])⟩
              exact (hr.roused hphase hnapping).imp_right (hrouse _)
          · exact ⟨fun _ _ => .inr (List.mem_append_left _ List.mem_cons_self),
              fun _ => .inl (Option.some_ne_none _)⟩
  | removeSplits _ | wakeUp _ | pause | resume | releaseLatch => exact hsuits.elim

theorem reached_nudge [SplitReader ρ] {nudge : Nudge} (depot : Depot)
    (hr : f.Reached (.errand (.nudge f.id nudge) :: agenda) draining) :
    (nudge.apply f depot).1.Reached agenda draining := by
  have hask (hmem : Task.errand (.ask f.id (.stop .draining)) ∈
      Task.errand (.nudge f.id nudge) :: agenda) :
      Task.errand (.ask f.id (.stop .draining)) ∈ agenda := by
    simpa using hmem
  cases nudge with
  | rouse => exact ⟨fun _ hnapping => Bool.noConfusion hnapping, fun hdrains =>
      (hr.told hdrains).imp_right hask⟩
  | requestWake | wakeReader | wakePut =>
      obtain ⟨hroused, htold⟩ := reached_of_agenda hr (fun hmem => by simpa using hmem) hask
      exact ⟨hroused, htold⟩

theorem reached_stride [SplitReader ρ] (hr : f.Reached agenda draining)
    (h : Supervisor.Stride disturbed f d g e) : g.Reached agenda draining := by
  cases h with
  | vanish => exact ⟨nofun, hr.told⟩
  | advance h =>
      constructor
      · intro hphase hnapping
        cases h with
        | nap _ hmay => exact .inl hmay
        | doze | flush | flushAgain | flushShut | flushDoze => exact hr.roused hphase hnapping
        | _ => cases hphase
      · intro hdrains
        cases h with
        | stop => exact .inl nofun
        | _ => exact hr.told hdrains

end Fetcher

namespace Supervisor

variable {ρ : Type} {s next : Supervisor ρ} {f g : Fetcher ρ} {d e : Depot}
  {disturbed : List Bool} {draining : Bool} {agenda agenda' : List Task}
  {phase phase' : ConsumerPhase} {id slot : Nat}

/-- A bell is silent, and no failure waits to be heard. -/
def Pending (bell : Nat) (d : Depot) : Prop :=
  d.queue.hasRung bell = false ∧ d.failures = []

/-- What the consumer has found out about fetchers on its way to waiting for a bell. -/
def Knows (draining : Bool) (s : Supervisor ρ) : ConsumerPhase → Prop
  | .reaping bell slot =>
    draining = false ∧ (Pending bell s.depot →
      ∀ swept < slot, ∀ f ∈ s.crew, s.slots[swept]? = some (some f.id) → f.Stirs)
  | .counting _ rest =>
    draining = true ∧ rest ⊆ s.liveIds ∧
      ∀ f ∈ s.crew, f.id ∈ s.liveIds → f.id ∉ rest → isDrained f = true
  | .waiting bell =>
    Pending bell s.depot → ∃ f ∈ s.crew, f.id ∈ s.liveIds ∧ f.Stirs
  | _ => True

/-- A supervisor on which the consumer, at a phase that may take batches, can rely. -/
structure Attended (agenda : List Task) (draining : Bool) (phase : ConsumerPhase)
    (s : Supervisor ρ) : Prop where
  unique : s.ids.Nodup
  below : ∀ id ∈ s.ids, id < s.nextId
  seats : s.liveIds.Nodup
  seated : s.liveIds ⊆ s.ids
  queue : s.queue.InOrder phase.bell?.toList
  woken : ∀ id ∈ s.queue.wokenProducers, id ∈ s.ids ∧ id ∉ s.liveIds
  onDuty : ∀ f ∈ s.crew, f.id ∈ s.liveIds → f.OnDuty draining s.depot
  reached : ∀ f ∈ s.crew, f.id ∈ s.liveIds → f.Reached agenda draining
  suits : ∀ task ∈ agenda, task.Suits draining s.liveIds
  knows : s.Knows draining phase

/-- What was found out about fetchers stays true when one of them takes a step that leaves it as
drained as it was, and stirring if the bell is still silent. -/
theorem knows_replace (hunique : s.ids.Nodup) (hk : s.Knows draining phase) (hf : f ∈ s.crew)
    (hid : g.id = f.id) (hfails : s.depot.failures <+: e.failures)
    (hsilent : ∀ bell ∈ phase.bell?, e.queue.hasRung bell = false →
      s.depot.queue.hasRung bell = false)
    (hstirs : f.id ∈ s.liveIds → ∀ bell ∈ phase.bell?, Pending bell e → f.Stirs → g.Stirs)
    (hdrained : f.id ∈ s.liveIds → isDrained f = true → isDrained g = true) :
    ({ s with depot := e }.replace g).Knows draining phase := by
  have hpending (bell : Nat) (hbell : bell ∈ phase.bell?) (h : Pending bell e) :
      Pending bell s.depot :=
    ⟨hsilent bell hbell h.1, List.prefix_nil.1 (h.2 ▸ hfails)⟩
  cases phase with
  | reaping bell slot =>
      refine ⟨hk.1, fun hp swept hswept other hother hseat => ?_⟩
      have hbefore := hk.2 (hpending bell rfl hp) swept hswept
      rcases mem_crew_replace hother with rfl | ⟨hold, -⟩
      · rw [hid] at hseat
        have hlive : f.id ∈ s.liveIds :=
          List.mem_filterMap.2 ⟨some f.id, List.mem_of_getElem? hseat, rfl⟩
        exact hstirs hlive bell rfl hp (hbefore f hf hseat)
      · exact hbefore other hold hseat
  | counting bell rest =>
      refine ⟨hk.1, hk.2.1, fun other hother hlive hcounted => ?_⟩
      rcases mem_crew_replace hother with rfl | ⟨hold, -⟩
      · rw [hid] at hlive hcounted
        exact hdrained hlive (hk.2.2 f hf hlive hcounted)
      · exact hk.2.2 other hold hlive hcounted
  | waiting bell =>
      intro hp
      obtain ⟨other, hother, hlive, hs⟩ := hk (hpending bell rfl hp)
      by_cases hsame : other.id = f.id
      · obtain rfl := eq_of_id_eq hunique hother hf hsame
        exact ⟨g, mem_replace_self (s := { s with depot := e }) hf hid, hid ▸ hlive,
          hstirs hlive bell rfl hp hs⟩
      · have hstill := mem_replace_other (s := { s with depot := e }) hother (hid ▸ hsame)
        exact ⟨other, hstill, hlive, hs⟩
  | _ => trivial

/-- A fetcher's place is taken by one that is as good. -/
theorem attended_replace (ha : s.Attended agenda draining phase) (hf : f ∈ s.crew)
    (hid : g.id = f.id) (hqueue : e.queue.InOrder phase.bell?.toList)
    (hwoken : ∀ id ∈ e.queue.wokenProducers,
      id ∈ s.queue.wokenProducers ∨ id = f.id ∧ f.id ∉ s.liveIds)
    (hfails : s.depot.failures <+: e.failures)
    (hsilent : ∀ bell ∈ phase.bell?, e.queue.hasRung bell = false →
      s.depot.queue.hasRung bell = false)
    (hsuits : ∀ task ∈ agenda', task.Suits draining s.liveIds)
    (hothers : ∀ other : Fetcher ρ, other.id ≠ f.id → other.Reached agenda draining →
      other.Reached agenda' draining)
    (honDuty : f.id ∈ s.liveIds → g.OnDuty draining e ∧ g.Reached agenda' draining)
    (hstirs : f.id ∈ s.liveIds → ∀ bell ∈ phase.bell?, Pending bell e → f.Stirs → g.Stirs)
    (hdrained : f.id ∈ s.liveIds → isDrained f = true → isDrained g = true) :
    ({ s with depot := e }.replace g).Attended agenda' draining phase where
  unique := by
    rw [ids_replace]
    exact ha.unique
  below := by
    rw [ids_replace]
    exact ha.below
  seats := ha.seats
  seated := by
    rw [ids_replace]
    exact ha.seated
  queue := hqueue
  woken id hmem := by
    rw [ids_replace]
    rcases hwoken id hmem with hold | ⟨rfl, hnot⟩
    · exact ha.woken id hold
    · exact ⟨List.mem_map_of_mem hf, hnot⟩
  onDuty other hother hlive := by
    have hfailures : s.depot.failures ≠ [] → e.failures ≠ [] := fun hsome hnone =>
      hsome (List.prefix_nil.1 (hnone ▸ hfails))
    rcases mem_crew_replace hother with rfl | ⟨hold, -⟩
    · exact (honDuty (hid ▸ hlive)).1
    · exact Fetcher.onDuty_mono (ha.onDuty other hold hlive) id hfailures
  reached other hother hlive := by
    rcases mem_crew_replace hother with rfl | ⟨hold, hne⟩
    · exact (honDuty (hid ▸ hlive)).2
    · exact hothers other (hid ▸ hne) (ha.reached other hold hlive)
  suits := hsuits
  knows := knows_replace ha.unique ha.knows hf hid hfails hsilent hstirs hdrained

/-- More that suits may be put on the agenda. -/
theorem attended_append {more : List Task} (ha : s.Attended agenda draining phase)
    (hmore : ∀ task ∈ more, task.Suits draining s.liveIds) :
    s.Attended (more ++ agenda) draining phase :=
  { ha with
    reached := fun f hf hlive => Fetcher.reached_append more (ha.reached f hf hlive)
    suits := fun task hmem => (List.mem_append.1 hmem).elim (hmore task) (ha.suits task) }

/-! ### Threads -/

theorem attended_thread [SplitReader ρ] (ha : s.Attended agenda draining phase)
    (h : s.stepThread? id disturbed = some next) : next.Attended agenda draining phase := by
  obtain ⟨f, hf, -, g, e, hstride, rfl⟩ := stride_of_stepThread? h
  have hsilent (bell : Nat) (hbell : bell ∈ phase.bell?) :
      e.queue.hasRung bell = false → s.depot.queue.hasRung bell = false := fun hsilent =>
    Fetcher.silent_before_stride ha.queue (Option.mem_toList.2 hbell) hsilent hstride
  refine attended_replace ha hf (advanced_of_stride hstride).id
    (Fetcher.inOrder_stride ha.queue hstride)
    (fun id hmem => .inl (Fetcher.wokenProducers_stride hstride hmem))
    (Fetcher.failures_stride hstride) hsilent ha.suits (fun _ _ hr => hr) ?_ ?_ ?_
  · intro hlive
    have hcalm : f.id ∉ s.depot.queue.wokenProducers := fun hmem => (ha.woken f.id hmem).2 hlive
    exact ⟨Fetcher.onDuty_stride (ha.onDuty f hf hlive) ha.queue.isOpen hcalm hstride,
      Fetcher.reached_stride (ha.reached f hf hlive) hstride⟩
  · intro hlive bell hbell hp hs
    exact Fetcher.stirs_stride (ha.onDuty f hf hlive) ha.queue (Option.mem_toList.2 hbell) hp.1 hp.2
      hs hstride
  · exact fun _ hd => Fetcher.isDrained_stride hd hstride

theorem attended_timeOut (ha : s.Attended agenda draining phase) (hfound : s.fetcher? id = some f) :
    (s.replace f.timeOut).Attended agenda draining phase := by
  obtain ⟨hf, -⟩ := mem_crew_of_fetcher? hfound
  refine attended_replace (e := s.depot) ha hf rfl ha.queue (fun _ hmem => .inl hmem)
    List.prefix_rfl (fun _ _ hsilent => hsilent) ha.suits (fun _ _ hr => hr) ?_ ?_ (fun _ hd => hd)
  · intro hlive
    have hr := ha.reached f hf hlive
    exact ⟨Fetcher.onDuty_timeOut (ha.onDuty f hf hlive), nofun, hr.told⟩
  · exact fun _ _ _ _ hs => Fetcher.stirs_congr hs rfl rfl

/-! ### Errands -/

/-- The nudges that follow from a request suit if the request does. -/
theorem suits_enact {request : Request} {live : List Nat} (f : Fetcher ρ)
    (h : (Errand.ask id request).Suits draining live) :
    ∀ nudge ∈ (request.enact f).2, (Errand.nudge id nudge).Suits draining live := by
  intro nudge hmem
  cases request with
  | addSplits splits =>
      simp only [Request.enact] at hmem
      split at hmem
      · cases hmem
      · simp only [Nudge.wakeUp, List.mem_cons, List.mem_append] at hmem
        cases nudge <;> simp_all [Errand.Suits]
  | stop mode =>
      simp only [Request.enact] at hmem
      split at hmem
      · cases hmem
      · cases mode with
        | draining =>
            obtain rfl : nudge = .rouse := by simpa using hmem
            trivial
        | immediate =>
            cases nudge with
            | wakePut => exact h
            | rouse | requestWake | wakeReader => trivial
  | removeSplits _ | wakeUp _ | pause | resume | releaseLatch => exact h.elim

/-- A request that suits a fetcher in a slot leaves it on duty, and stirring if it was. -/
theorem onDuty_enact {request : Request} {live : List Nat} (hstays : request ≠ .stop .immediate)
    (hsuits : (Errand.ask id request).Suits draining live) (hf : f.OnDuty draining d) :
    (request.enact f).1.OnDuty draining d ∧ (f.Stirs → (request.enact f).1.Stirs) := by
  cases request with
  | addSplits splits =>
      exact ⟨Fetcher.onDuty_addSplits splits hf, Fetcher.stirs_addSplits splits⟩
  | stop mode =>
      cases mode with
      | immediate => exact absurd rfl hstays
      | draining =>
          obtain rfl : draining = true := hsuits
          exact ⟨Fetcher.onDuty_stop hf, Fetcher.stirs_stop .draining⟩
  | removeSplits _ | wakeUp _ | pause | resume | releaseLatch => exact hsuits.elim

/-- An errand to nobody is as good as run. -/
theorem attended_of_missing {errand : Errand}
    (ha : s.Attended (.errand errand :: agenda) draining phase)
    (hnone : s.fetcher? errand.target = none) : s.Attended agenda draining phase :=
  { ha with
    reached := fun f hf hlive => by
      refine Fetcher.reached_of_other (ha.reached f hf hlive) fun hsame => ?_
      rw [← hsame, fetcher?_of_mem_crew ha.unique hf] at hnone
      cases hnone
    suits := fun task hmem => ha.suits task (List.mem_cons_of_mem _ hmem) }

theorem attended_ask {request : Request}
    (ha : s.Attended (.errand (.ask id request) :: agenda) draining phase)
    (hfound : s.fetcher? id = some f) :
    (s.replace (request.enact f).1).Attended
      ((request.enact f).2.map (fun nudge => .errand (.nudge id nudge)) ++ agenda)
      draining phase := by
  obtain ⟨hf, rfl⟩ := mem_crew_of_fetcher? hfound
  have hsuits : (Errand.ask f.id request).Suits draining s.liveIds :=
    ha.suits _ List.mem_cons_self
  have hstays (hlive : f.id ∈ s.liveIds) : request ≠ .stop .immediate := by
    rintro rfl
    exact hsuits hlive
  refine attended_replace (e := s.depot) ha hf (Fetcher.id_enact request f) ha.queue
    (fun _ hmem => .inl hmem) List.prefix_rfl (fun _ _ hsilent => hsilent) (fun task hmem => ?_)
    (fun other hne hr => Fetcher.reached_append _ (Fetcher.reached_of_other hr hne))
    (fun hlive => ⟨?_, ?_⟩) (fun hlive _ _ _ => ?_)
    (fun _ hd => (Fetcher.isDrained_enact request f).trans hd)
  · rcases List.mem_append.1 hmem with hnew | hlater
    · obtain ⟨nudge, hnudge, rfl⟩ := List.mem_map.1 hnew
      exact suits_enact f hsuits nudge hnudge
    · exact ha.suits task (List.mem_cons_of_mem _ hlater)
  · exact (onDuty_enact (hstays hlive) hsuits (ha.onDuty f hf hlive)).1
  · exact Fetcher.reached_enact (hstays hlive) hsuits (ha.reached f hf hlive)
  · exact (onDuty_enact (hstays hlive) hsuits (ha.onDuty f hf hlive)).2

theorem attended_nudge [SplitReader ρ] {nudge : Nudge}
    (ha : s.Attended (.errand (.nudge id nudge) :: agenda) draining phase)
    (hfound : s.fetcher? id = some f) :
    ({ s with depot := (nudge.apply f s.depot).2 }.replace (nudge.apply f s.depot).1).Attended
      agenda draining phase := by
  obtain ⟨hf, rfl⟩ := mem_crew_of_fetcher? hfound
  have hsuits : (Errand.nudge f.id nudge).Suits draining s.liveIds := ha.suits _ List.mem_cons_self
  have hfails : (nudge.apply f s.depot).2.failures = s.depot.failures := by cases nudge <;> rfl
  refine attended_replace ha hf (Fetcher.id_nudge nudge f s.depot) ?_ (fun id hmem => ?_)
    (hfails ▸ List.prefix_rfl) (fun bell _ hsilent => ?_)
    (fun task hmem => ha.suits task (List.mem_cons_of_mem _ hmem))
    (fun other hne hr => Fetcher.reached_of_other hr hne) (fun hlive => ⟨?_, ?_⟩)
    (fun _ _ _ _ => Fetcher.stirs_nudge nudge s.depot)
    (fun _ hd => (Fetcher.isDrained_nudge nudge s.depot f).trans hd)
  · cases nudge with
    | wakePut => exact HandoffQueue.inOrder_wakeProducer ha.queue f.id
    | rouse | requestWake | wakeReader => exact ha.queue
  · cases nudge with
    | wakePut =>
        rcases List.mem_insert_iff.1 hmem with rfl | hold
        · exact .inr ⟨rfl, hsuits⟩
        · exact .inl hold
    | rouse | requestWake | wakeReader => exact .inl hmem
  · cases nudge <;> exact hsilent
  · exact Fetcher.onDuty_mono (Fetcher.onDuty_nudge nudge s.depot (ha.onDuty f hf hlive)) id
      (hfails ▸ id)
  · exact Fetcher.reached_nudge s.depot (ha.reached f hf hlive)

/-- An errand that suits leaves everything attended, with what follows from it on the agenda. -/
theorem attended_run [SplitReader ρ] {errand : Errand}
    (ha : s.Attended (.errand errand :: agenda) draining phase) :
    (s.run errand).2.Attended ((s.run errand).1.map .errand ++ agenda) draining phase := by
  cases errand with
  | ask id request =>
      cases hfound : s.fetcher? id with
      | none => simpa [run, hfound] using attended_of_missing ha hfound
      | some f => simpa [run, hfound, Function.comp_def] using attended_ask ha hfound
  | nudge id nudge =>
      cases hfound : s.fetcher? id with
      | none => simpa [run, hfound] using attended_of_missing ha hfound
      | some f => simpa [run, hfound] using attended_nudge ha hfound

/-! ### Dealing -/

/-- A fetcher that is put into a slot where nobody is takes nobody's seat. -/
theorem liveIds_seat {number : Nat} (hseats : s.liveIds.Nodup) (hnew : number ∉ s.liveIds)
    (hfree : s.slots.getD slot none = none) :
    ({ s with slots := s.slots.set slot (some number) } : Supervisor ρ).liveIds.Nodup ∧
      ∀ id ∈ ({ s with slots := s.slots.set slot (some number) } : Supervisor ρ).liveIds,
        id = number ∨ id ∈ s.liveIds := by
  cases hseat : s.slots[slot]? with
  | none =>
      have hsame : s.slots.set slot (some number) = s.slots :=
        List.set_eq_of_length_le (List.getElem?_eq_none_iff.1 hseat)
      rw [hsame]
      exact ⟨hseats, fun _ hid => .inr hid⟩
  | some seat =>
      obtain rfl : seat = none := by simpa [List.getD, hseat] using hfree
      obtain ⟨before, after, hlive, hset⟩ := liveIds_set hseat
      have hafter := hset (some number) s.retired
      rw [hlive] at hseats hnew
      simp only [Option.toList_none, List.append_nil] at hseats hnew
      rw [hafter, hlive]
      refine ⟨?_, fun id hid => ?_⟩
      · rw [Option.toList_some, List.append_assoc, List.singleton_append, List.nodup_middle,
          List.nodup_cons]
        exact ⟨hnew, hseats⟩
      · simp only [Option.toList_some, Option.toList_none, List.mem_append, List.mem_singleton]
          at hid ⊢
        tauto

/-- The supervisor with a new fetcher in a slot. -/
def manned (slot : Nat) (reader : ρ) (s : Supervisor ρ) : Supervisor ρ :=
  { s with
    nextId := s.nextId + 1
    built := s.built + 1
    crew := s.crew ++ [({ id := s.nextId, reader } : Fetcher ρ).beginLoop]
    slots := s.slots.set slot (some s.nextId) }

theorem attended_manned (ha : s.Attended agenda false .listening)
    (htimeless : ∀ task ∈ agenda, ∀ live, task.Suits false live)
    (hfree : s.slots.getD slot none = none) (reader : ρ) :
    (s.manned slot reader).Attended agenda false .listening := by
  have hnew : s.nextId ∉ s.ids := fun hmem => Nat.lt_irrefl _ (ha.below _ hmem)
  obtain ⟨hseats, hlive⟩ : (s.manned slot reader).liveIds.Nodup ∧
      ∀ id ∈ (s.manned slot reader).liveIds, id = s.nextId ∨ id ∈ s.liveIds :=
    liveIds_seat ha.seats (fun hmem => hnew (ha.seated hmem)) hfree
  have hids : (s.manned slot reader).ids = s.ids ++ [s.nextId] := by
    simp [ids, manned, Fetcher.beginLoop]
  have hold (f : Fetcher ρ) (hf : f ∈ s.crew) (h : f.id ∈ (s.manned slot reader).liveIds) :
      f.id ∈ s.liveIds :=
    (hlive f.id h).resolve_left fun hid => hnew (hid ▸ List.mem_map_of_mem hf)
  refine ⟨?_, ?_, hseats, ?_, ha.queue, ?_, ?_, ?_, fun task hmem => htimeless task hmem _,
    trivial⟩
  · rw [hids]
    simpa [List.nodup_append, hnew] using
      ⟨ha.unique, fun id hid hsame => hnew (hsame ▸ hid)⟩
  · intro id hid
    rw [hids] at hid
    rcases List.mem_append.1 hid with hold | hadded
    · exact Nat.lt_succ_of_lt (ha.below id hold)
    · rw [List.mem_singleton.1 hadded]
      exact Nat.lt_succ_self _
  · intro id hid
    rw [hids]
    rcases hlive id hid with rfl | hold
    · exact List.mem_append_right _ List.mem_cons_self
    · exact List.mem_append_left _ (ha.seated hold)
  · intro id hmem
    obtain ⟨hid, hnot⟩ := ha.woken id hmem
    refine ⟨hids ▸ List.mem_append_left _ hid, fun h => ?_⟩
    rcases hlive id h with rfl | hold
    · exact hnew hid
    · exact hnot hold
  · intro f hf h
    rcases List.mem_append.1 hf with hthere | hadded
    · exact ha.onDuty f hthere (hold f hthere h)
    · rw [List.mem_singleton.1 hadded]
      exact Fetcher.onDuty_new s.nextId reader s.depot
  · intro f hf h
    rcases List.mem_append.1 hf with hthere | hadded
    · exact ha.reached f hthere (hold f hthere h)
    · rw [List.mem_singleton.1 hadded]
      exact Fetcher.reached_new s.nextId reader

/-- What follows from an errand suits if the errand does. -/
theorem suits_run [SplitReader ρ] {errand : Errand} {live : List Nat} (s : Supervisor ρ)
    (h : errand.Suits draining live) :
    ∀ task ∈ (s.run errand).1.map Task.errand, task.Suits draining live := by
  intro task hmem
  obtain ⟨later, hlater, rfl⟩ := List.mem_map.1 hmem
  cases errand with
  | nudge id nudge =>
      simp only [run] at hlater
      split at hlater <;> cases hlater
  | ask id request =>
      simp only [run] at hlater
      split at hlater
      · cases hlater
      · obtain ⟨nudge, hnudge, rfl⟩ := List.mem_map.1 hlater
        exact suits_enact _ h nudge hnudge

/-- Giving splits to a slot does nothing without splits, names who is in the slot, or mans it. -/
theorem give_cases [SplitReader ρ] {splits : List Split} {more : List Task}
    (h : s.perform (.give slot splits) = (.ok more, next)) :
    (more = [] ∧ next = s) ∨
      (∃ id, more = [.errand (.ask id (.addSplits splits))] ∧ next = s) ∨
      ∃ reader, more = [.errand (.ask s.nextId (.addSplits splits))] ∧
        s.slots.getD slot none = none ∧ next = s.manned slot reader := by
  simp only [perform, spawn] at h
  split at h
  · cases h
    exact .inl ⟨rfl, rfl⟩
  · split at h
    · cases h
      exact .inr (.inl ⟨_, rfl, rfl⟩)
    · next hfree =>
        cases hbuilt : s.factory s.built with
        | error cause => simp [hbuilt] at h
        | ok reader =>
            simp only [hbuilt] at h
            cases h
            exact .inr (.inr ⟨reader, rfl, hfree, rfl⟩)

/-- A task of the dealing that does not fail leaves everything attended. -/
theorem attended_perform [SplitReader ρ] {task : Task} {more : List Task}
    (ha : s.Attended (task :: agenda) false .listening)
    (htimeless : ∀ other ∈ task :: agenda, ∀ live, other.Suits false live)
    (h : s.perform task = (.ok more, next)) :
    next.Attended (more ++ agenda) false .listening ∧
      ∀ other ∈ more, ∀ live, other.Suits false live := by
  have hlater : ∀ other ∈ agenda, ∀ live, other.Suits false live := fun other hmem =>
    htimeless other (List.mem_cons_of_mem _ hmem)
  cases task with
  | sweep _ => exact (htimeless _ List.mem_cons_self []).elim
  | errand single =>
      rw [perform_errand] at h
      obtain ⟨hmore, rfl⟩ := Prod.mk.inj h
      obtain rfl := Except.ok.inj hmore
      exact ⟨attended_run ha, fun other hmem live =>
        suits_run s (htimeless _ List.mem_cons_self live) other hmem⟩
  | give slot splits =>
      have hrest : s.Attended agenda false .listening :=
        { ha with
          reached := fun f hf hlive => Fetcher.reached_of_agenda (ha.reached f hf hlive)
            (fun hmem => by simpa using hmem) (fun hmem => by simpa using hmem)
          suits := fun other hmem => hlater other hmem _ }
      have hadds (id : Nat) : ∀ other ∈ [Task.errand (.ask id (.addSplits splits))],
          ∀ live, other.Suits false live :=
        List.forall_mem_singleton.2 fun _ => trivial
      obtain ⟨rfl, rfl⟩ | ⟨id, rfl, rfl⟩ | ⟨reader, rfl, hfree, rfl⟩ := give_cases h
      · exact ⟨hrest, List.forall_mem_nil _⟩
      · exact ⟨attended_append hrest fun other hmem => hadds id other hmem _, hadds id⟩
      · exact ⟨attended_append (attended_manned hrest hlater hfree reader)
          fun other hmem => hadds s.nextId other hmem _, hadds s.nextId⟩

/-! ### The consumer -/

/-- The consumer goes on to a phase for which it knows enough. -/
theorem attended_enter (ha : s.Attended agenda draining phase)
    (hbell : phase'.bell? = phase.bell? ∨ phase'.bell? = none) (hk : s.Knows draining phase') :
    s.Attended agenda draining phase' := by
  have hqueue : s.queue.InOrder phase'.bell?.toList := by
    rcases hbell with hsame | hnone
    · rw [hsame]
      exact ha.queue
    · rw [hnone]
      exact HandoffQueue.inOrder_mono ha.queue (List.nil_subset _)
  exact { ha with queue := hqueue, knows := hk }

/-- The consumer uses the queue, or recycles a batch. -/
theorem attended_depot (ha : s.Attended agenda draining phase)
    (hqueue : e.queue.InOrder phase'.bell?.toList)
    (hwoken : e.queue.wokenProducers = s.queue.wokenProducers)
    (hfails : e.failures = s.depot.failures)
    (hk : ({ s with depot := e } : Supervisor ρ).Knows draining phase') :
    ({ s with depot := e } : Supervisor ρ).Attended agenda draining phase' where
  unique := ha.unique
  below := ha.below
  seats := ha.seats
  seated := ha.seated
  queue := hqueue
  woken id hmem := ha.woken id (hwoken ▸ hmem)
  onDuty f hf hlive := Fetcher.onDuty_mono (ha.onDuty f hf hlive) id (hfails ▸ id)
  reached := ha.reached
  suits := ha.suits
  knows := hk

/-- The consumer has enough, and is about to tell all fetchers to drain. -/
theorem attended_tell (ha : s.Attended [] draining .listening) :
    s.Attended ((s.liveIds.map (Errand.ask · (.stop .draining))).map .errand) true .listening :=
  { ha with
    onDuty := fun f hf hlive => Fetcher.onDuty_mono (ha.onDuty f hf hlive) (fun _ => rfl) id
    reached := fun f hf hlive =>
      ⟨fun hphase hnapping => ((ha.reached f hf hlive).roused hphase hnapping).imp_right nofun,
        fun _ => .inr (List.mem_map_of_mem (List.mem_map_of_mem hlive))⟩
    suits := fun task hmem => by
      obtain ⟨errand, herrand, rfl⟩ := List.mem_map.1 hmem
      obtain ⟨id, -, rfl⟩ := List.mem_map.1 herrand
      rfl
    knows := trivial }

/-- Whoever is left in a slot that was swept has more to do there. -/
theorem unfinished_of_vacate (hunique : s.ids.Nodup) (hf : f ∈ s.crew)
    (hseat : s.slots[slot]? = some (some f.id)) (h : s.vacate slot = (none, s)) :
    isFinished f = false := by
  simp only [vacate, List.getD, hseat, Option.getD_some, fetcher?_of_mem_crew hunique hf] at h
  split at h
  · cases (Prod.mk.inj h).1
  · next hnot => simpa using hnot

/-- Sweeping a slot leaves nobody there who does not stir. -/
theorem attended_sweep {bell : Nat} (ha : s.Attended [] draining (.reaping bell slot)) :
    (s.vacate slot).2.Attended
      (((s.vacate slot).1.toList.map (.ask · (.stop .immediate))).map Task.errand) draining
      (.reaping bell (slot + 1)) := by
  obtain ⟨hdraining, hswept⟩ := ha.knows
  rcases vacate_cases s slot with hnone | ⟨f, hf, -, hseat, hsome⟩
  · rw [hnone]
    refine attended_enter ha (.inl rfl) ⟨hdraining, fun hp swept hlt f hf hseat => ?_⟩
    rcases Nat.lt_succ_iff_lt_or_eq.1 hlt with hbefore | rfl
    · exact hswept hp swept hbefore f hf hseat
    · have hlive : f.id ∈ s.liveIds :=
        List.mem_filterMap.2 ⟨some f.id, List.mem_of_getElem? hseat, rfl⟩
      subst hdraining
      exact Fetcher.stirs_of_unfinished (ha.onDuty f hf hlive)
        (unfinished_of_vacate ha.unique hf hseat hnone)
  · obtain ⟨before, after, hlive, hset⟩ := liveIds_set hseat
    have hleft := hset none (s.retired ++ [f.id])
    have hseats := ha.seats
    simp only [Option.toList_none, List.append_nil] at hleft
    simp only [hlive, Option.toList_some, List.append_assoc, List.singleton_append,
      List.nodup_middle, List.nodup_cons] at hseats
    rw [hsome]
    have hsub : before ++ after ⊆ s.liveIds := by
      rw [hlive]
      intro id hid
      simp only [List.mem_append] at hid ⊢
      tauto
    have hstays {id : Nat} (hid : id ∈ ({ s with
        slots := s.slots.set slot none, retired := s.retired ++ [f.id] } :
          Supervisor ρ).liveIds) : id ∈ s.liveIds :=
      hsub (hleft ▸ hid)
    exact
      { unique := ha.unique
        below := ha.below
        seats := hleft ▸ hseats.2
        seated := fun id hid => ha.seated (hstays hid)
        queue := ha.queue
        woken := fun id hmem =>
          ⟨(ha.woken id hmem).1, fun hid => (ha.woken id hmem).2 (hstays hid)⟩
        onDuty := fun other hother hid => ha.onDuty other hother (hstays hid)
        reached := fun other hother hid =>
          Fetcher.reached_of_agenda (ha.reached other hother (hstays hid)) nofun nofun
        suits := List.forall_mem_singleton.2 (by
          show f.id ∉ _
          rw [hleft]
          exact hseats.1)
        knows := by
          refine ⟨hdraining, fun hp swept hlt other hother hseat' => ?_⟩
          rw [List.getElem?_set] at hseat'
          split at hseat'
          · split at hseat' <;> cases hseat'
          · next hne =>
              exact hswept hp swept (Nat.lt_of_le_of_ne (Nat.lt_succ_iff.1 hlt) (Ne.symm hne))
                other hother hseat' }

end Supervisor

end SplitFeed
