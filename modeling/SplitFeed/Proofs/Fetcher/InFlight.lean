/-
# The batch in flight

A thread that has looked at the wake request and found none is past the last point at which its
batch could be turned away.  The batch is booked and published, or is left over and published in a
later cycle; only a closed queue, or a loop that stops at once, makes the thread let go of it.

There is never more than one batch in flight, and while a split is being taken away no other takes
its place.
-/
import SplitFeed.Proofs.Fetcher.Removal

namespace SplitFeed

/-- Whether a batch tells anything about a split. -/
def SplitBatch.tells (id : String) (batch : SplitBatch Record) : Bool :=
  !(batch.news id).isEmpty

theorem SplitBatch.tells_eq_false {id : String} {batch : SplitBatch Record} :
    batch.tells id = false ↔ batch.news id = [] := by
  simp [tells]

namespace Fetcher

variable {ρ : Type}

/-- Whether the thread will let go of a batch that is left over. -/
def isDoomed (f : Fetcher ρ) : Bool :=
  match f.phase with
  | .finishing failed => failed || f.duty.stop ≠ some .draining
  | .deciding | .stopping | .parking | .parked => f.duty.stop = some .immediate
  | .cycled (.error _) => f.looping
  | .cycled (.ok _) | .noting _ _ => f.looping && f.duty.stop = some .immediate
  | .panicked _ => true
  | _ => false

/-- The batch that is bound for the queue. -/
def inFlight (f : Fetcher ρ) : Option (SplitBatch Record) :=
  match f.phase with
  | .booking batch | .publishing batch _ => some batch
  | _ => if f.isDoomed then none else f.leftover

/-- What a thread has to publish of a split: its batch in flight, if that tells of the split. -/
def threat (id : String) (f : Fetcher ρ) : List (SplitBatch Record) :=
  f.inFlight.toList.filter (·.tells id)

/-- Letting go of a batch removes it from a list of one. -/
theorem sublist_of_dropped (keep : SplitBatch Record → Bool) (dropped : Prop) [Decidable dropped]
    (batch? : Option (SplitBatch Record)) :
    ((if dropped then none else batch?).toList.filter keep).Sublist
      (batch?.toList.filter keep) := by
  split <;> simp

variable {id : String} {sort : ReaderSort} {f g : Fetcher Backend}

/-- A step publishes what is in flight or keeps it in flight, and nothing of the split joins it. -/
theorem threat_advance {disturbed : List Bool} {d e : Depot} (hc : f.Coherent)
    (hf : f.PurgedOf id true) (h : Advance disturbed f d g e) :
    ((f.handsOver d).toList.filter (·.tells id) ++ g.threat id).Sublist (f.threat id) := by
  have hempty := hc.emptyHanded
  cases h with
  | publish hphase hawake hopen hroom =>
      have hleft : f.leftover = none := hempty (by simp [hphase, Phase.isEmptyHanded])
      simp [threat, inFlight, isDoomed, handsOver, offers, *]
  | flush hphase hawake hleft hopen hroom =>
      simp [threat, inFlight, isDoomed, handsOver, offers, *]
  | keep hphase hwake =>
      simp only [PurgedOf, hphase, Warned, hwake] at hf
      simp_all [threat, inFlight, handsOver, offers, SplitBatch.tells]
  | halt hphase hstop =>
      obtain ⟨mode, hmode⟩ := Option.isSome_iff_exists.1 hstop
      cases mode <;> simp [threat, inFlight, isDoomed, handsOver, offers, hphase, hmode]
  | skip hphase _ | handFail hphase _ =>
      simpa [threat, inFlight, isDoomed, handsOver, offers, hphase] using
        sublist_of_dropped _ _ f.leftover
  | defer hphase _ _ hroom _ =>
      simpa [threat, inFlight, isDoomed, handsOver, offers, hphase, hroom] using
        sublist_of_dropped _ _ (some _)
  | _ =>
      simp_all [threat, inFlight, isDoomed, handsOver, offers, Phase.isEmptyHanded, Phase.isFetch]

/-- Nothing comes to be in flight as long as the thread keeps its phase and its leftover batch. -/
theorem threat_of_doomed (hphase : g.phase = f.phase) (hleft : g.leftover = f.leftover)
    (hdoomed : f.isDoomed = true → g.isDoomed = true) :
    (g.threat id).Sublist (f.threat id) := by
  have hdropped : ((if g.isDoomed = true then none else f.leftover).toList.filter
      (·.tells id)).Sublist
      ((if f.isDoomed = true then none else f.leftover).toList.filter (·.tells id)) := by
    by_cases hf : f.isDoomed = true
    · simp [hf, hdoomed hf]
    · simpa [hf] using sublist_of_dropped (·.tells id) (g.isDoomed = true) f.leftover
  cases hf : f.phase <;> simp only [threat, inFlight, hphase, hf, hleft]
  case booking | publishing => exact .refl _
  all_goals exact hdropped

theorem isDoomed_congr (hphase : g.phase = f.phase) (hlooping : g.looping = f.looping)
    (hstop : g.duty.stop = f.duty.stop) (h : f.isDoomed = true) : g.isDoomed = true := by
  simpa only [isDoomed, hphase, hlooping, hstop] using h

theorem threat_enact (request : Request) (hc : f.Coherent) :
    ((request.enact f).1.threat id).Sublist (f.threat id) := by
  cases request with
  | addSplits splits =>
      simp only [Request.enact]
      split <;> exact threat_of_doomed rfl rfl (isDoomed_congr rfl rfl rfl)
  | stop mode =>
      cases hstop : f.duty.stop with
      | some _ => simp [Request.enact, hstop]
      | none =>
          simp only [Request.enact, hstop]
          refine threat_of_doomed rfl rfl fun hdoomed => ?_
          have hstopped := hc.stopped
          cases hphase : f.phase
          case cycled result => cases result <;> simp_all [isDoomed]
          all_goals simp_all [isDoomed]
  | removeSplits _ | wakeUp _ | pause | resume | releaseLatch =>
      exact threat_of_doomed rfl rfl (isDoomed_congr rfl rfl rfl)

theorem threat_nudge (nudge : Nudge) (depot : Depot) (f : Fetcher Backend) :
    ((nudge.apply f depot).1.threat id).Sublist (f.threat id) := by
  cases nudge <;> exact threat_of_doomed rfl rfl (isDoomed_congr rfl rfl rfl)

/-- Beginning a cycle brings nothing into flight. -/
theorem threat_begin (hmay : Station.mayBegin f = true)
    (hphase : g.phase = .starting ∨ g.phase = .deciding) (hleft : g.leftover = f.leftover) :
    (g.threat id).Sublist (f.threat id) := by
  have hkept : f.threat id = f.leftover.toList.filter (·.tells id) := by
    obtain ⟨hf | ⟨result, hf⟩, hloop⟩ := Station.phase_of_mayBegin hmay
    · simp [threat, inFlight, isDoomed, hf]
    · cases result <;> simp_all [threat, inFlight, isDoomed]
  rw [hkept]
  rcases hphase with hg | hg
  · simp [threat, inFlight, isDoomed, hg, hleft]
  · simpa [threat, inFlight, isDoomed, hg, hleft] using
      sublist_of_dropped (·.tells id) _ f.leftover

end Fetcher

namespace Station

variable {id : String} {sort : ReaderSort} {station next : Station Backend} {move : Move}

/-- A move that brings a split back. -/
def Readmits (id : String) (station : Station Backend) : Move → Prop
  | .ask request => station.fetcher.Readmits id request
  | _ => False

/-- A station whose fetcher holds splits of one sort only, before a queue with room for at least
one batch. -/
structure Regular (sort : ReaderSort) (station : Station Backend) : Prop where
  coherent : station.fetcher.Coherent
  suited : station.fetcher.Suited sort
  roomy : 0 < station.depot.queue.capacity

/-- A regular station at which a split was taken away and, if `alert`, all concerned were told. -/
structure Purged (id : String) (alert : Bool) (sort : ReaderSort) (station : Station Backend) : Prop
    extends Regular sort station where
  purged : station.fetcher.PurgedOf id alert

/-- What a station has published of a split, and what it has still in flight. -/
def exposed (id : String) (station : Station Backend) : List (SplitBatch Record) :=
  station.sent.filter (·.tells id) ++ station.fetcher.threat id

theorem regular_step (hs : station.Regular sort) (hsuits : move.Suits sort)
    (h : station.step move = some next) : next.Regular sort := by
  refine ⟨coherent_step hs.coherent h, suited_step hs.suited hsuits h, ?_⟩
  have hroomy := hs.roomy
  cases move with
  | cycle | loop =>
      simp only [step, Option.ite_none_right_eq_some, Option.some.injEq] at h
      obtain ⟨-, rfl⟩ := h
      exact hroomy
  | thread disturbed => exact (Fetcher.advanced (step_thread h).1).capacity ▸ hroomy
  | nudge nudge =>
      obtain rfl := Option.some.inj h
      cases nudge <;> exact hroomy
  | queue move =>
      obtain rfl := Option.some.inj h
      simpa using hroomy
  | timeOut | ask _ | files _ =>
      obtain rfl := Option.some.inj h
      exact hroomy

theorem purged_step {alert : Bool} (hs : station.Purged id alert sort) (hsuits : move.Suits sort)
    (hkept : ¬ station.Readmits id move) (h : station.step move = some next) :
    next.Purged id alert sort := by
  refine ⟨regular_step hs.toRegular hsuits h, ?_⟩
  have hpurged := hs.purged
  cases move with
  | cycle =>
      simp only [step, Option.ite_none_right_eq_some, Option.some.injEq] at h
      obtain ⟨hmay, rfl⟩ := h
      exact (Fetcher.purgedOf_begin hpurged hmay).1
  | loop =>
      simp only [step, Option.ite_none_right_eq_some, Option.some.injEq] at h
      obtain ⟨hmay, rfl⟩ := h
      exact (Fetcher.purgedOf_begin hpurged hmay).2
  | thread disturbed => exact Fetcher.purgedOf_advance hpurged hs.suited (step_thread h).1
  | ask request =>
      obtain rfl := Option.some.inj h
      exact Fetcher.purgedOf_enact hpurged hkept
  | nudge nudge =>
      obtain rfl := Option.some.inj h
      exact Fetcher.purgedOf_nudge nudge station.depot hpurged
  | timeOut =>
      obtain rfl := Option.some.inj h
      exact Fetcher.purgedOf_congr hpurged rfl rfl rfl rfl
  | queue _ | files _ =>
      obtain rfl := Option.some.inj h
      exact hpurged

/-- A move publishes what is in flight of a split or keeps it in flight, and adds nothing. -/
theorem exposed_step (hs : station.Purged id true sort) (h : station.step move = some next) :
    (next.exposed id).Sublist (station.exposed id) := by
  cases move with
  | cycle | loop =>
      simp only [step, Option.ite_none_right_eq_some, Option.some.injEq] at h
      obtain ⟨hmay, rfl⟩ := h
      refine (List.Sublist.refl _).append (Fetcher.threat_begin hmay ?_ rfl)
      simp [Fetcher.beginCycle, Fetcher.beginLoop, Fetcher.enter]
  | thread disturbed =>
      obtain ⟨hadvance, hsent⟩ := step_thread h
      rw [exposed, exposed, hsent, List.filter_append, List.append_assoc]
      exact (List.Sublist.refl _).append (Fetcher.threat_advance hs.coherent hs.purged hadvance)
  | ask request =>
      obtain rfl := Option.some.inj h
      exact (List.Sublist.refl _).append (Fetcher.threat_enact request hs.coherent)
  | nudge nudge =>
      obtain rfl := Option.some.inj h
      exact (List.Sublist.refl _).append (Fetcher.threat_nudge nudge station.depot _)
  | timeOut =>
      obtain rfl := Option.some.inj h
      refine (List.Sublist.refl _).append (Fetcher.threat_of_doomed rfl rfl ?_)
      exact Fetcher.isDoomed_congr rfl rfl rfl
  | queue _ | files _ =>
      obtain rfl := Option.some.inj h
      exact .refl _

end Station

end SplitFeed
