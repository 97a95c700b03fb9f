/-
# What becomes of failures

The journal of a course of traffic tells whose calls failed, what was reported, and what the
consumer heard of.  Failures are heard of in the order in which they were reported, each once at
most; what was reported and not heard of waits in the depot.  What a thread's calls failed with is
what it reported and what it still carries.

The supervisor is closed without an error only when all threads are gone and nothing waits in the
depot, because everybody who was ever started is joined.  A consumer that hears of a failure, or
whose sink fails, can only end with an error.  So a run that is over with a summary has seen no
failure at all, and none can be reported any more.
-/
import SplitFeed.Proofs.Pipeline.Journal

namespace SplitFeed

namespace ConsumerPhase

/-- Whether the sink was closed and the run is not over. -/
def isSunk : ConsumerPhase → Bool
  | dismissing _ | closingQueue _ _ | joining _ _ _ | lastWords _ => true
  | _ => false

theorem not_sunk_of_taking {phase : ConsumerPhase} (h : phase.isTaking = true) :
    phase.isSunk = false := by
  cases phase <;> first | rfl | cases h

end ConsumerPhase

namespace Traffic

open Run (errand_consumer doomed_consumer)
open Supervisor (Staffed Stride Performs)

variable {ρ : Type} {traffic next last : Traffic ρ} {move : Run.Move} {moves : List Run.Move}
  {log sofar : List Incident} {p q : Pipeline ρ} {s after : Supervisor ρ} {f g : Fetcher ρ}
  {phase : ConsumerPhase}

/-! ### Who is joined -/

/-- Who still has to be joined.  Until the books are cleared for closing, everybody who was ever
started is on them; after that everybody is waited for, was left behind, or is gone. -/
def Awaits (s : Supervisor ρ) : ConsumerPhase → Prop
  | .closingQueue _ fetchers => ∀ f ∈ s.crew, f.id ∈ fetchers
  | .joining _ fetchers stragglers =>
    ∀ f ∈ s.crew, f.id ∈ fetchers ∨ f.id ∈ stragglers ∨ f.phase = .gone
  | .lastWords _ => ∀ f ∈ s.crew, f.phase = .gone
  | .over _ | .fallen _ => True
  | _ => ∀ id ∈ s.ids, id ∈ s.onBooks

theorem awaits_of_taking (htakes : phase.isTaking = true) :
    Awaits s phase ↔ ∀ id ∈ s.ids, id ∈ s.onBooks := by
  cases phase <;> first | exact Iff.rfl | cases htakes

/-- A fetcher that takes another's place is awaited if the other was. -/
theorem awaits_replace (depot : Depot) (ha : Awaits s phase) (hf : f ∈ s.crew)
    (hid : g.id = f.id) (hgone : f.phase = .gone → g.phase = .gone) :
    Awaits ({ s with depot }.replace g) phase := by
  have hcrew {holds : Fetcher ρ → Prop} (hall : ∀ other ∈ s.crew, holds other)
      (hnew : holds f → holds g) : ∀ other ∈ ({ s with depot }.replace g).crew, holds other :=
    Supervisor.forall_crew_replace (s := { s with depot }) hall (hnew (hall f hf))
  cases phase with
  | closingQueue _ fetchers => exact hcrew ha fun h => hid ▸ h
  | joining _ fetchers stragglers =>
      exact hcrew ha fun h => by
        rw [hid]
        exact h.imp_right (Or.imp_right hgone)
  | lastWords _ => exact hcrew ha hgone
  | «over» _ | fallen _ => trivial
  | _ => exact fun id hmem => ha id (Supervisor.ids_replace { s with depot } g ▸ hmem)

/-- Errands take nobody off the books, and make nobody come back. -/
theorem awaits_errand [SplitReader ρ] {errand : Errand} {more : List Task} (ha : Awaits s phase)
    (h : Performs s (.errand errand) (.ok more) after) : Awaits after phase := by
  cases h with
  | missing => exact ha
  | @ask f request hf =>
      obtain ⟨hid, -, hphase⟩ := Supervisor.same_enact request f
      exact awaits_replace s.depot ha hf hid fun hgone => hphase.trans hgone
  | @nudge f nudge hf =>
      obtain ⟨⟨hid, -, hphase⟩, -⟩ := Supervisor.same_nudge nudge f s.depot
      exact awaits_replace _ ha hf hid fun hgone => hphase.trans hgone

/-- A thread that is gone makes no step. -/
theorem not_gone_of_stride [SplitReader ρ] {disturbed : List Bool} {d e : Depot}
    (h : Stride disturbed f d g e) : f.phase ≠ .gone := by
  intro hgone
  cases h with
  | vanish hphase => cases hgone.symm.trans hphase
  | advance h => cases h <;> simp_all

/-- Nor does the consumer, until it clears the books; then it waits for everybody on them. -/
theorem awaits_works (hs : p.supervisor.Staffed)
    (ha : Awaits p.supervisor p.phase) (h : Pipeline.Works p log q) :
    Awaits q.supervisor q.phase := by
  have hbooked (hkeeps : Pipeline.Keeps p.supervisor q.supervisor)
      (hall : ∀ id ∈ p.supervisor.ids, id ∈ p.supervisor.onBooks) :
      ∀ id ∈ q.supervisor.ids, id ∈ q.supervisor.onBooks := fun id hid => by
    rw [Supervisor.ids, hkeeps.crew] at hid
    exact hkeeps.onBooks id (hall id hid)
  cases h with
  | feed hphase hafter hkeeps =>
      have hall := hbooked hkeeps ((awaits_of_taking hphase).1 ha)
      rcases hafter with htakes | hleaves
      · exact (awaits_of_taking htakes).2 hall
      · rw [hleaves]
        exact hall
  | choke hphase hafter hkeeps =>
      have hall := hbooked hkeeps ((awaits_of_taking hphase).1 ha)
      rcases hafter with ⟨failure, hfails⟩ | ⟨cause, hfalls⟩
      · rw [hfails]
        exact hall
      · rw [hfalls]
        trivial
  | hear hphase => exact (awaits_of_taking hphase).1 ha
  | closeSink hphase =>
      rw [hphase] at ha
      exact ha
  | dismiss hphase =>
      rw [hphase] at ha
      exact fun f hf => ha f.id (List.mem_map_of_mem hf)
  | closeQueue hphase =>
      rw [hphase] at ha
      exact fun f hf => .inl (ha f hf)
  | @join sofar id rest stragglers hphase hgone =>
      rw [hphase] at ha
      intro f hf
      rcases ha f hf with hwaits | hthere
      · rcases List.mem_cons.1 hwaits with rfl | hlater
        · exact .inr (.inr (hgone f (Supervisor.fetcher?_of_mem_crew hs.unique hf)))
        · exact .inl hlater
      · exact .inr hthere
  | @leaveBehind sofar id rest stragglers hphase =>
      rw [hphase] at ha
      intro f hf
      rcases ha f hf with hwaits | hleft | hgone
      · rcases List.mem_cons.1 hwaits with hfirst | hlater
        · exact .inr (.inl (List.mem_append_right _ (List.mem_singleton.2 hfirst)))
        · exact .inl hlater
      · exact .inr (.inl (List.mem_append_left _ hleft))
      · exact .inr (.inr hgone)
  | joined hphase =>
      rw [hphase] at ha
      intro f hf
      simpa using ha f hf
  | giveUp | hearLast | conclude => trivial

/-- The supervisor is staffed, what is dealt fits the slots, and everybody is awaited. -/
structure Mustered (traffic : Traffic ρ) : Prop where
  staffed : traffic.pipeline.supervisor.Staffed
  dealing : traffic.dealing ≠ [] → traffic.pipeline.phase = .listening ∧
    ∀ task ∈ traffic.dealing, task.Fits traffic.pipeline.supervisor.slots.length
  awaits : Awaits traffic.pipeline.supervisor traffic.pipeline.phase

theorem mustered_goes [SplitReader ρ] (hm : traffic.Mustered) (h : Goes traffic log next) :
    next.Mustered := by
  obtain ⟨hs, hdealing, ha⟩ := hm
  cases h with
  | @thread f g e _ _ hf hstride _ _ hnext hdealing' =>
      have hadvanced := Supervisor.advanced_of_stride hstride
      rw [← hdealing'] at hdealing
      refine ⟨?_, ?_, ?_⟩ <;> rw [hnext]
      · exact Supervisor.staffed_replace hs hf hadvanced.looping _
      · exact hdealing
      · exact awaits_replace e ha hf hadvanced.id fun hgone =>
          absurd hgone (not_gone_of_stride hstride)
  | timeOut hf _ hnext hdealing' =>
      rw [← hdealing'] at hdealing
      have hstaffed := Supervisor.staffed_replace (g := Fetcher.timeOut _) hs hf rfl
        traffic.pipeline.supervisor.depot
      refine ⟨?_, ?_, ?_⟩ <;> rw [hnext]
      · exact hstaffed
      · exact hdealing
      · exact awaits_replace traffic.pipeline.supervisor.depot ha hf rfl id
  | late _ hnext hdealing' =>
      rw [← hdealing'] at hdealing
      refine ⟨?_, ?_, ?_⟩ <;> rw [hnext]
      · exact hs
      · exact hdealing
      · exact ha
  | @deal task later more after hdealt hperforms _ hnext hdealing' =>
      obtain ⟨hphase, hfits⟩ := hdealing (by simp [hdealt])
      rw [hdealt] at hfits
      obtain ⟨hslots, hmore⟩ := Supervisor.slots_performs hperforms
      rw [hphase] at ha
      refine ⟨?_, ?_, ?_⟩ <;> rw [hnext]
      · exact Supervisor.staffed_performs hs hperforms
      · rw [hdealing']
        refine fun _ => ⟨hphase, List.forall_mem_append.2 ⟨hmore more rfl, fun other hother => ?_⟩⟩
        show other.Fits after.slots.length
        rw [hslots]
        exact hfits other (List.mem_cons_of_mem _ hother)
      · show Awaits after traffic.pipeline.phase
        rw [hphase]
        intro id hid
        rcases Supervisor.booked_performs hperforms (hfits task List.mem_cons_self) hid with
          hold | hnew
        · exact Supervisor.onBooks_performs hperforms (ha id hold)
        · exact hnew
  | fail _ hperforms _ hnext hdealing' =>
      refine ⟨?_, fun hsome => absurd hdealing' hsome, ?_⟩ <;> rw [hnext]
      · exact Supervisor.staffed_performs hs hperforms
      · trivial
  | errand _ _ hperforms _ hsupervisor hphase hdealing' =>
      refine ⟨?_, fun hsome => absurd hdealing' hsome, ?_⟩ <;> rw [hsupervisor]
      · exact Supervisor.staffed_performs hs hperforms
      · rw [hphase]
        exact awaits_errand ha hperforms
  | work _ _ hworks hdealing' =>
      obtain ⟨hcrew, hnextId⟩ := Pipeline.crew_works hworks
      exact ⟨Supervisor.staffed_congr hs hcrew (Nat.le_of_eq hnextId.symm),
        fun hsome => absurd hdealing' hsome, awaits_works hs ha hworks⟩

theorem fits_deals {slotCount start : Nat} (hands : List (List Split)) :
    ∀ task ∈ deals slotCount start hands, task.Fits slotCount := by
  induction hands generalizing start with
  | nil => exact List.forall_mem_nil _
  | cons splits hands ih =>
      refine List.forall_mem_append.2 ⟨List.forall_mem_map.2 fun slot hslot => ?_, ih⟩
      exact List.mem_range.1 hslot

theorem mustered_opened (plan : Plan ρ) : (opened plan).Mustered where
  staffed := Supervisor.staffed_congr
    (Supervisor.staffed_create plan.capacity plan.threads plan.files plan.factory) rfl
    (Nat.le_refl _)
  dealing _ := ⟨rfl, fits_deals plan.hands⟩
  awaits := List.forall_mem_nil _

/-! ### What threads tell -/

/-- The journal tells of the crew only, and whatever a thread's calls failed with it has reported
or still carries. -/
structure Told (sofar : List Incident) (s : Supervisor ρ) : Prop where
  known : ∀ incident ∈ sofar, ∀ id ∈ incident.fetcher?, id ∈ s.ids
  told : ∀ f ∈ s.crew, sofar.flatMap (·.complaint f.id) =
    sofar.flatMap (·.reportedBy f.id) ++ f.carries

/-- A journal without incidents about a fetcher tells nothing of it. -/
theorem silent_of_unknown (id : Nat)
    (h : ∀ incident ∈ log, ∀ other ∈ incident.fetcher?, other ≠ id) :
    log.flatMap (·.complaint id) = [] ∧ log.flatMap (·.reportedBy id) = [] :=
  ⟨List.flatMap_eq_nil_iff.2 fun incident hmem => (Incident.silent_of_ne (h incident hmem)).1,
    List.flatMap_eq_nil_iff.2 fun incident hmem => (Incident.silent_of_ne (h incident hmem)).2⟩

/-- Incidents that are not about threads may be added. -/
theorem told_append (ht : Told sofar s) (hcrew : after.crew = s.crew)
    (hlog : ∀ incident ∈ log, incident.fetcher? = none) : Told (sofar ++ log) after where
  known := by
    rw [Supervisor.ids, hcrew]
    refine List.forall_mem_append.2 ⟨ht.known, fun incident hmem id hid => ?_⟩
    rw [hlog incident hmem] at hid
    cases hid
  told f hf := by
    obtain ⟨hcomplaints, hreports⟩ := silent_of_unknown f.id fun incident hmem id hid => by
      rw [hlog incident hmem] at hid
      cases hid
    rw [List.flatMap_append, List.flatMap_append, hcomplaints, hreports, List.append_nil,
      List.append_nil]
    exact ht.told f (hcrew ▸ hf)

/-- A fetcher that takes another's place carries what the other has not reported. -/
theorem told_replace (depot : Depot) (ht : Told sofar s) (hf : f ∈ s.crew)
    (hid : g.id = f.id) (hlog : ∀ incident ∈ log, incident.fetcher? = some f.id)
    (htells : f.carries ++ log.flatMap (·.complaint f.id) =
      log.flatMap (·.reportedBy f.id) ++ g.carries) :
    Told (sofar ++ log) ({ s with depot }.replace g) where
  known := by
    rw [Supervisor.ids_replace]
    refine List.forall_mem_append.2 ⟨ht.known, fun incident hmem id hmine => ?_⟩
    rw [hlog incident hmem] at hmine
    exact Option.some.inj hmine ▸ List.mem_map_of_mem hf
  told other hother := by
    rw [List.flatMap_append, List.flatMap_append]
    rcases Supervisor.mem_crew_replace hother with rfl | ⟨hold, hne⟩
    · rw [hid, ht.told f hf, List.append_assoc, htells, List.append_assoc]
    · obtain ⟨hcomplaints, hreports⟩ := silent_of_unknown other.id fun incident hmem id hmine => by
        rw [hlog incident hmem] at hmine
        rw [← Option.some.inj hmine, ← hid]
        exact hne.symm
      rw [hcomplaints, hreports, List.append_nil, List.append_nil]
      exact ht.told other hold

/-- One that stands where the other stood carries the same. -/
theorem told_same (depot : Depot) (ht : Told sofar s) (hf : f ∈ s.crew) (hid : g.id = f.id)
    (hphase : g.phase = f.phase) : Told sofar ({ s with depot }.replace g) := by
  have hreplaced : Told (sofar ++ []) ({ s with depot }.replace g) :=
    told_replace depot ht hf hid (List.forall_mem_nil _)
      (by simp [Fetcher.carries_congr hid hphase])
  rwa [List.append_nil] at hreplaced

/-- Tasks make nobody call a reader. -/
theorem told_performs [SplitReader ρ] {task : Task} {result : Except Failure (List Task)}
    (ht : Told sofar s) (hs : s.Staffed) (h : Performs s task result after) : Told sofar after := by
  cases h with
  | missing | skip | give | spare | fail | sweep => exact ⟨ht.known, ht.told⟩
  | @ask f request hf =>
      obtain ⟨hid, -, hphase⟩ := Supervisor.same_enact request f
      exact told_same s.depot ht hf hid hphase
  | @nudge f nudge hf =>
      obtain ⟨⟨hid, -, hphase⟩, -⟩ := Supervisor.same_nudge nudge f s.depot
      exact told_same _ ht hf hid hphase
  | @man slot splits reader =>
      refine ⟨fun incident hmem id hid => ?_, fun f hf => ?_⟩
      · rw [Supervisor.ids_manned]
        exact List.mem_append_left _ (ht.known incident hmem id hid)
      · rcases List.mem_append.1 hf with hold | hnew
        · exact ht.told f hold
        · rw [List.mem_singleton.1 hnew]
          obtain ⟨hcomplaints, hreports⟩ := silent_of_unknown s.nextId
            fun incident hmem id hid => Nat.ne_of_lt (hs.below id (ht.known incident hmem id hid))
          exact hcomplaints.trans (List.append_eq_nil_iff.2 ⟨hreports, rfl⟩).symm

theorem told_goes [SplitReader ρ] (hm : traffic.Mustered)
    (ht : Told sofar traffic.pipeline.supervisor) (h : Goes traffic log next) :
    Told (sofar ++ log) next.pipeline.supervisor := by
  cases h with
  | @thread f g e disturbed reported hf hstride hreported hlog hnext =>
      obtain ⟨reported', hreported', htells⟩ := Fetcher.reports_stride hstride
      obtain rfl := List.append_cancel_left (hreported.symm.trans hreported')
      rw [hnext]
      rw [hlog]
      refine told_replace e ht hf (Supervisor.advanced_of_stride hstride).id
        (fetcher?_threadLog disturbed f _ reported) ?_
      rw [complaint_threadLog, (reported_threadLog disturbed f _ reported).1]
      exact htells
  | @timeOut f hf hlog hnext =>
      have hphase : f.timeOut.phase = f.phase := rfl
      rw [hnext, hlog, List.append_nil]
      exact told_same traffic.pipeline.supervisor.depot ht hf rfl hphase
  | late hlog hnext =>
      rw [hnext, hlog, List.append_nil]
      exact ht
  | deal _ hperforms hlog hnext | fail _ hperforms hlog hnext =>
      rw [hnext, hlog, List.append_nil]
      exact told_performs ht hm.staffed hperforms
  | errand _ _ hperforms hlog hsupervisor =>
      rw [hsupervisor, hlog, List.append_nil]
      exact told_performs ht hm.staffed hperforms
  | work _ _ hworks =>
      exact told_append ht (Pipeline.crew_works hworks).1 (Pipeline.fetcher?_works hworks)

/-- What was reported was heard of, or waits to be. -/
theorem heard_goes [SplitReader ρ] (h : Goes traffic log next) :
    traffic.pipeline.supervisor.depot.failures ++ log.flatMap (·.reported) =
      log.flatMap (·.heard) ++ next.pipeline.supervisor.depot.failures := by
  cases h with
  | @thread f g e disturbed reported hf hstride hreported hlog hnext =>
      obtain ⟨-, hreports, hheard⟩ :=
        reported_threadLog disturbed f traffic.pipeline.supervisor.depot reported
      rw [hnext, hlog, hreports, hheard, List.nil_append]
      exact hreported.symm
  | timeOut _ hlog hnext | late hlog hnext =>
      rw [hnext, hlog]
      exact List.append_nil _
  | deal _ hperforms hlog hnext | fail _ hperforms hlog hnext =>
      rw [hnext, hlog]
      exact (List.append_nil _).trans (Supervisor.failures_performs hperforms).symm
  | errand _ _ hperforms hlog hsupervisor =>
      rw [hsupervisor, hlog]
      exact (List.append_nil _).trans (Supervisor.failures_performs hperforms).symm
  | work _ _ hworks => exact Pipeline.heard_works hworks

/-! ### How it ends -/

/-- What the journal says about how a run can end.  Whatever goes wrong for the consumer dooms the
run.  Before there is a summary the sink is closed, and then the supervisor, without an error; when
that has happened, all threads are gone and nothing waits to be heard of. -/
structure Judged (sofar : List Incident) (p : Pipeline ρ) : Prop where
  doomed : ∀ incident ∈ sofar, incident.fetcher? = none → incident.isTrouble = true →
    p.phase.Doomed
  sunk : p.phase.isSunk = true → ∃ result, .closeSink result ∈ sofar
  ended : ∀ summary, p.phase = .over (.ok summary) →
    (∃ result, .closeSink result ∈ sofar) ∧ .closeSupervisor (.ok ()) ∈ sofar
  gone : .closeSupervisor (.ok ()) ∈ sofar → (∃ result, p.phase = .over result) ∧
    (∀ f ∈ p.supervisor.crew, f.phase = .gone) ∧ p.supervisor.depot.failures = []

/-- The consumer closes the sink on its way. -/
theorem sunk_works (h : Pipeline.Works p log q) (hsunk : q.phase.isSunk = true) :
    p.phase.isSunk = true ∨ ∃ result, .closeSink result ∈ log := by
  cases h with
  | feed _ hafter =>
      rcases hafter with htakes | hleaves
      · rw [ConsumerPhase.not_sunk_of_taking htakes] at hsunk
        cases hsunk
      · rw [hleaves] at hsunk
        cases hsunk
  | choke _ hafter =>
      rcases hafter with ⟨failure, hfails⟩ | ⟨cause, hfalls⟩
      · rw [hfails] at hsunk
        cases hsunk
      · rw [hfalls] at hsunk
        cases hsunk
  | hear | giveUp | hearLast | conclude => cases hsunk
  | closeSink => exact .inr ⟨_, List.mem_singleton_self _⟩
  | dismiss hphase | closeQueue hphase | join hphase | leaveBehind hphase | joined hphase =>
      rw [hphase]
      exact .inl rfl

/-- Its last step before a summary closes the supervisor without an error. -/
theorem ended_works {summary : Report.Summary} (h : Pipeline.Works p log q)
    (hover : q.phase = .over (.ok summary)) :
    p.phase.isSunk = true ∧ .closeSupervisor (.ok ()) ∈ log := by
  cases h with
  | feed _ hafter =>
      rw [hover] at hafter
      rcases hafter with htakes | hleaves
      · cases htakes
      · cases hleaves
  | choke _ hafter =>
      rw [hover] at hafter
      rcases hafter with ⟨failure, hfails⟩ | ⟨cause, hfalls⟩
      · cases hfails
      · cases hfalls
  | @giveUp sofar _ _ failure | @hearLast sofar failure =>
      exact absurd (hover ▸ Pipeline.doomed_over sofar _ p.books.summary)
        (ConsumerPhase.not_doomed_over summary)
  | conclude hphase =>
      rw [hphase]
      exact ⟨rfl, List.mem_singleton_self _⟩
  | hear | closeSink | dismiss | closeQueue | join | leaveBehind | joined => cases hover

/-- When the supervisor is closed without an error, everybody was joined. -/
theorem gone_works (ha : Awaits p.supervisor p.phase) (h : Pipeline.Works p log q)
    (hmem : .closeSupervisor (.ok ()) ∈ log) :
    (∃ result, q.phase = .over result) ∧ (∀ f ∈ q.supervisor.crew, f.phase = .gone) ∧
      q.supervisor.depot.failures = [] := by
  cases h with
  | feed _ _ _ hlog => cases hlog _ hmem
  | choke _ _ _ hlog =>
      obtain ⟨result, hsends⟩ := hlog _ hmem
      cases hsends
  | conclude hphase hfailures =>
      rw [hphase] at ha
      exact ⟨⟨_, rfl⟩, ha, hfailures⟩
  | _ => simp at hmem

/-- A run that is over makes no more steps of its own. -/
theorem not_over_of_works (h : Pipeline.Works p log q) (result : Except Failure Report.Summary) :
    p.phase ≠ .over result := by
  intro hover
  cases h with
  | feed hphase | choke hphase | hear hphase =>
      rw [hover] at hphase
      cases hphase
  | _ => simp_all

theorem judged_works (ha : Awaits p.supervisor p.phase) (hj : Judged sofar p)
    (hdoomed : p.phase.Doomed → q.phase.Doomed) (h : Pipeline.Works p log q) :
    Judged (sofar ++ log) q := by
  have hsink (hsunk : p.phase.isSunk = true) : ∃ result, .closeSink result ∈ sofar ++ log := by
    obtain ⟨result, hold⟩ := hj.sunk hsunk
    exact ⟨result, List.mem_append_left _ hold⟩
  constructor
  case doomed =>
    intro incident hmem hnobody htrouble
    rcases List.mem_append.1 hmem with hold | hnew
    · exact hdoomed (hj.doomed incident hold hnobody htrouble)
    · exact Pipeline.doomed_of_trouble h hnew htrouble
  case sunk =>
    intro hsunk
    rcases sunk_works h hsunk with hbefore | ⟨result, hnew⟩
    · exact hsink hbefore
    · exact ⟨result, List.mem_append_right _ hnew⟩
  case ended =>
    intro summary hover
    obtain ⟨hsunk, hclosed⟩ := ended_works h hover
    exact ⟨hsink hsunk, List.mem_append_right _ hclosed⟩
  case gone =>
    intro hmem
    rcases List.mem_append.1 hmem with hold | hnew
    · obtain ⟨⟨result, hover⟩, -⟩ := hj.gone hold
      exact absurd hover (not_over_of_works h result)
    · exact gone_works ha h hnew

/-- What threads and errands do has no say in how a run can end. -/
theorem judged_beside (hj : Judged sofar p) (hlog : ∀ incident ∈ log, incident.fetcher? ≠ none)
    (hphase : q.phase = p.phase)
    (hgone : ∀ result, p.phase = .over result → (∀ f ∈ p.supervisor.crew, f.phase = .gone) →
      (∀ f ∈ q.supervisor.crew, f.phase = .gone) ∧
        q.supervisor.depot.failures = p.supervisor.depot.failures) :
    Judged (sofar ++ log) q := by
  obtain ⟨hdoomed, hsunk, hended, hjoined⟩ := hj
  rw [← hphase] at hdoomed hsunk hended hjoined
  constructor
  case doomed =>
    intro incident hmem hnobody
    rcases List.mem_append.1 hmem with hold | hnew
    · exact hdoomed incident hold hnobody
    · exact absurd hnobody (hlog incident hnew)
  case sunk =>
    intro hphase
    obtain ⟨result, hold⟩ := hsunk hphase
    exact ⟨result, List.mem_append_left _ hold⟩
  case ended =>
    intro summary hover
    obtain ⟨⟨result, hsink⟩, hclosed⟩ := hended summary hover
    exact ⟨⟨result, List.mem_append_left _ hsink⟩, List.mem_append_left _ hclosed⟩
  case gone =>
    intro hmem
    rcases List.mem_append.1 hmem with hold | hnew
    · obtain ⟨⟨result, hover⟩, hall, hnothing⟩ := hjoined hold
      obtain ⟨hstill, hsame⟩ := hgone result (hphase ▸ hover) hall
      exact ⟨⟨result, hover⟩, hstill, hsame.trans hnothing⟩
    · exact absurd rfl (hlog _ hnew)

/-- Tasks for fetchers make nobody come back, but for those who are started. -/
theorem gone_errand [SplitReader ρ] {errand : Errand} {result : Except Failure (List Task)}
    (h : Performs s (.errand errand) result after) (hgone : ∀ f ∈ s.crew, f.phase = .gone) :
    ∀ f ∈ after.crew, f.phase = .gone := by
  cases h with
  | missing => exact hgone
  | @ask f request hf =>
      exact Supervisor.forall_crew_replace hgone
        ((Supervisor.same_enact request f).2.2.trans (hgone f hf))
  | @nudge f nudge hf =>
      exact Supervisor.forall_crew_replace (s := { s with depot := _ }) hgone
        ((Supervisor.same_nudge nudge f s.depot).1.2.2.trans (hgone f hf))

theorem judged_goes [SplitReader ρ] (hm : traffic.Mustered) (hj : Judged sofar traffic.pipeline)
    (h : Goes traffic log next) : Judged (sofar ++ log) next.pipeline := by
  cases h with
  | @thread f g e disturbed reported hf hstride hreported hlog hnext =>
      rw [hnext, hlog]
      refine judged_beside hj (fun incident hmem => ?_) rfl fun _ _ hgone =>
        absurd (hgone f hf) (not_gone_of_stride hstride)
      rw [fetcher?_threadLog disturbed f _ reported incident hmem]
      exact Option.some_ne_none _
  | @timeOut f hf hlog hnext =>
      rw [hnext, hlog]
      have hphase : f.timeOut.phase = f.phase := rfl
      exact judged_beside hj (List.forall_mem_nil _) rfl fun _ _ hgone =>
        ⟨Supervisor.forall_crew_replace hgone (hphase.trans (hgone f hf)), rfl⟩
  | late hlog hnext =>
      rw [hnext, hlog]
      exact judged_beside hj (List.forall_mem_nil _) rfl fun _ _ hgone => ⟨hgone, rfl⟩
  | deal hdealt _ hlog hnext =>
      obtain ⟨hlistens, -⟩ := hm.dealing (by simp [hdealt])
      rw [hnext, hlog]
      refine judged_beside hj (List.forall_mem_nil _) rfl fun result hover => ?_
      cases hlistens.symm.trans hover
  | @fail task later cause after hdealt hperforms hlog hnext =>
      obtain ⟨hlistens, -⟩ := hm.dealing (by simp [hdealt])
      rw [hnext, hlog, List.append_nil]
      refine ⟨fun _ _ _ _ => ?_, nofun, nofun, fun hclosed => ?_⟩
      · exact @ConsumerPhase.Doomed.closing traffic.pipeline.books.summary _ _ .ended
      · obtain ⟨⟨result, hover⟩, -⟩ := hj.gone hclosed
        cases hlistens.symm.trans hover
  | errand _ _ hperforms hlog hsupervisor hphase =>
      rw [hlog]
      refine judged_beside hj (List.forall_mem_nil _) hphase fun _ _ hgone => ?_
      rw [hsupervisor]
      exact ⟨gone_errand hperforms hgone, Supervisor.failures_performs hperforms⟩
  | work hdealt hstep hworks =>
      exact judged_works hm.awaits hj (fun hdoomed => (doomed_consumer hdoomed hstep).1) hworks

/-! ### The result -/

/-- What became of failures, by the journal of a course from its start to its last state.  `told` is
about the calls of threads, `inOrder` about what the consumer hears of, `closed` about the closing
of the supervisor, `ended` about a run that is over with a summary. -/
structure Surfaced (journal : List Incident) (last : Traffic ρ) : Prop where
  told : Told journal last.pipeline.supervisor
  inOrder : journal.flatMap (·.reported) =
    journal.flatMap (·.heard) ++ last.pipeline.supervisor.depot.failures
  closed : .closeSupervisor (.ok ()) ∈ journal →
    (∀ f ∈ last.pipeline.supervisor.crew, f.phase = .gone) ∧
      last.pipeline.supervisor.depot.failures = []
  ended : ∀ summary, last.pipeline.phase = .over (.ok summary) →
    (∀ incident ∈ journal, incident.isTrouble = false) ∧
      .closeSink (.ok ()) ∈ journal ∧ .closeSupervisor (.ok ()) ∈ journal

/-- Where nobody reported a failure and all threads are gone, no call has failed. -/
theorem calm_of_gone {journal : List Incident} (ht : Told journal s)
    (hgone : ∀ f ∈ s.crew, f.phase = .gone) (hreported : journal.flatMap (·.reported) = [])
    {incident : Incident} (hmem : incident ∈ journal) {id : Nat}
    (hid : incident.fetcher? = some id) : incident.isTrouble = false := by
  cases incident with
  | report reporter failure =>
      cases List.flatMap_eq_nil_iff.1 hreported _ hmem
  | call caller made =>
      obtain ⟨f, hf, rfl⟩ := List.mem_map.1 (ht.known _ hmem caller rfl)
      have hnothing : journal.flatMap (·.reportedBy f.id) = [] := by
        refine List.flatMap_eq_nil_iff.2 fun other hother => ?_
        cases other with
        | report => cases List.flatMap_eq_nil_iff.1 hreported _ hother
        | _ => rfl
      have hcalm := ht.told f hf
      rw [hnothing, Fetcher.carries, hgone f hf] at hcalm
      have hcomplaint := List.flatMap_eq_nil_iff.1 hcalm _ hmem
      simpa [Incident.complaint, Incident.isTrouble] using hcomplaint
  | _ => cases hid

/-- A run that is over with a summary has gone well in every respect. -/
theorem calm_of_ended {journal : List Incident} {summary : Report.Summary}
    (ht : Told journal p.supervisor) (hj : Judged journal p)
    (hinOrder : journal.flatMap (·.reported) =
      journal.flatMap (·.heard) ++ p.supervisor.depot.failures)
    (hover : p.phase = .over (.ok summary)) :
    (∀ incident ∈ journal, incident.isTrouble = false) ∧
      .closeSink (.ok ()) ∈ journal ∧ .closeSupervisor (.ok ()) ∈ journal := by
  have hconsumer : ∀ incident ∈ journal, incident.fetcher? = none →
      incident.isTrouble = false := fun incident hmem hnobody => by
    by_contra htrouble
    have hdoomed := hj.doomed incident hmem hnobody (by simpa using htrouble)
    exact ConsumerPhase.not_doomed_over summary (hover ▸ hdoomed)
  have hheard : journal.flatMap (·.heard) = [] := List.flatMap_eq_nil_iff.2 fun incident hmem => by
    cases incident with
    | hear failure => cases hconsumer _ hmem rfl
    | _ => rfl
  obtain ⟨⟨result, hsink⟩, hclosed⟩ := hj.ended summary hover
  obtain ⟨-, hgone, hnothing⟩ := hj.gone hclosed
  rw [hheard, hnothing] at hinOrder
  refine ⟨fun incident hmem => ?_, ?_, hclosed⟩
  · cases hid : incident.fetcher? with
    | none => exact hconsumer incident hmem hid
    | some id => exact calm_of_gone ht hgone hinOrder hmem hid
  · cases result with
    | ok _ => exact hsink
    | error failure => cases hconsumer _ hsink rfl

/-- Traffic whose journal so far accounts for every failure. -/
structure Accounted (sofar : List Incident) (traffic : Traffic ρ) : Prop where
  mustered : traffic.Mustered
  told : Told sofar traffic.pipeline.supervisor
  judged : Judged sofar traffic.pipeline
  inOrder : sofar.flatMap (·.reported) =
    sofar.flatMap (·.heard) ++ traffic.pipeline.supervisor.depot.failures

theorem accounted_opened (plan : Plan ρ) : Accounted [] (opened plan) where
  mustered := mustered_opened plan
  told := ⟨List.forall_mem_nil _, List.forall_mem_nil _⟩
  judged := ⟨List.forall_mem_nil _, nofun, nofun, nofun⟩
  inOrder := rfl

theorem accounted_step [SplitReader ρ] (ha : Accounted sofar traffic)
    (h : step move traffic = some next) : Accounted (sofar ++ traffic.incidents move) next where
  mustered := mustered_goes ha.mustered (goes_of_step h)
  told := told_goes ha.mustered ha.told (goes_of_step h)
  judged := judged_goes ha.mustered ha.judged (goes_of_step h)
  inOrder := by
    rw [List.flatMap_append, List.flatMap_append, ha.inOrder, List.append_assoc,
      heard_goes (goes_of_step h), List.append_assoc]

/-- However threads and consumer take their turns, and whenever readers fail: every call that fails
is reported by its thread or still carried by it; what is reported is heard of in that order, each
failure once at most, or waits; the supervisor is closed without an error only when all threads are
gone and nothing waits; and a run is over with a summary only if nothing went wrong at all and both
the sink and the supervisor were closed without an error. -/
theorem failures_surface [SplitReader ρ] {plan : Plan ρ}
    (h : Course.follow step moves (opened plan) = some last) :
    Surfaced (journal moves (opened plan)) last := by
  have haccounted : Accounted ([] ++ journal moves (opened plan)) last :=
    Course.follow_gathers Accounted accounted_step h (accounted_opened plan)
  obtain ⟨-, ht, hj, hinOrder⟩ := haccounted
  exact ⟨ht, hinOrder, fun hclosed => (hj.gone hclosed).2,
    fun summary hover => calm_of_ended ht hj hinOrder hover⟩

/-- A range reader that is dealt a file. -/
def misdealt : Plan Backend := { sip with hands := [[.file (.ofPath "a")]] }

/-- A course on which the thread fails right after the consumer has listened, and is retired as a
fetcher that has closed. -/
def retiredUnheard : List Run.Move := working 7 ++ fetching 10 ++ working 25

/-- The consumer hears of that failure when it closes the supervisor. -/
theorem misdealt_surfaces :
    ∃ last, Course.follow step retiredUnheard (opened misdealt) = some last ∧
      last.pipeline.result? = some (.error (.failed (.threadGaveUp
        (.changesNotHanded 0 (.wrongSort .ranges (.file (.ofPath "a"))))))) ∧
      Surfaced (journal retiredUnheard (opened misdealt)) last := by
  have hcourse : (Course.follow step retiredUnheard (opened misdealt)).any (fun last =>
      last.pipeline.result? = some (.error (.failed (.threadGaveUp
        (.changesNotHanded 0 (.wrongSort .ranges (.file (.ofPath "a")))))))) = true := by
    decide +kernel
  obtain ⟨last, hrun, htest⟩ := (Option.any_eq_true _ _).1 hcourse
  exact ⟨last, hrun, of_decide_eq_true htest, failures_surface hrun⟩

end Traffic

end SplitFeed
