/-
# Fetchers that run out of work

A consumer that waits for a bell has to hear of it when a fetcher has nothing more to give.  The
thread rings when it raises the idle flag, and only then; so what a consumer was promised while
splits were assigned hangs on that flag.  As long as the flag is down, a bell that has not rung will
be rung when the flag goes up; once the flag is up, such bells have rung, or are about to.

A cycle that is paused, that fails, whose batch is stale, or that did not find its list empty when
it looked, leaves the flag and the bells to a later cycle.  A bell that is handed out while the flag
is up over assigned splits is promised nothing.
-/
import SplitFeed.Proofs.Fetcher.Custody
import SplitFeed.Proofs.Fetcher.Rest
import SplitFeed.Proofs.Handoff.Bells

namespace SplitFeed

/-- Whether the thread is about to ring the bell, having become idle. -/
def Phase.isRinging : Phase → Bool
  | ringing _ => true
  | _ => false

namespace Fetcher

variable {ρ : Type}

/-- How many steps a cycle that finds nothing to read makes at most before it is over. -/
def toLook (f : Fetcher ρ) : Nat :=
  match f.phase with
  | .starting => f.duty.pending.length + 6
  | .collecting => f.duty.pending.length + 5
  | .handing changes => changes.length + 4
  | .checking => 3
  | .idling .idle => 2
  | .ringing .idle => 1
  | _ => 0

/-- A cycle is under way that will find nothing to read. -/
structure LooksInVain (f : Fetcher ρ) : Prop where
  rest : f.AtRest
  unpaused : f.duty.paused = false
  looks : f.toLook ≠ 0

variable [SplitReader ρ] {disturbed : List Bool} {f g : Fetcher ρ} {d e : Depot}

/-- The idle flag is up after a step if it was before, or if the step raised it and the bell comes
next, or is that bell. -/
theorem idle_advance (h : Advance disturbed f d g e) (hidle : g.duty.idle = true)
    (hopen : g.duty.closed = false) :
    (f.duty.closed = false ∧ f.duty.idle = true ∧ f.phase.isRinging = false) ∨
      g.phase.isRinging = true ∨ e.queue = d.queue.notifyAvailable := by
  cases h with
  | turnIdle => exact .inr (.inl rfl)
  | ring => exact .inr (.inr rfl)
  | leave => cases hopen
  | _ =>
      rename f.phase = _ => hphase
      exact .inl ⟨hopen, hidle, hphase ▸ rfl⟩

/-- A cycle answers that it was idle only after it has found nothing to read. -/
theorem notes_advance (hf : ∀ last, f.phase ≠ .noting .idle last) (h : Advance disturbed f d g e) :
    ∀ last, g.phase ≠ .noting .idle last := by
  cases h with
  | doze | flush | flushAgain | flushShut | flushDoze => exact hf
  | _ => exact fun _ => nofun

/-- A put that is over, and was not woken, leaves a reason for the consumer to come. -/
theorem ready_of_put {outcome : CycleOutcome} {last : Bool} (h : Advance disturbed f d g e)
    (hg : g.phase = .noting outcome last) (houtcome : outcome ≠ .publishDeferred) :
    e.queue.IsReady := by
  cases h with
  | publish => exact .inl (by simp)
  | shutOut _ _ hclosed => exact .inr hclosed
  | defer =>
      cases hg
      exact absurd rfl houtcome
  | doze hphase | flush hphase | flushAgain hphase | flushShut hphase | flushDoze hphase =>
      cases hphase.symm.trans hg
  | _ => cases hg

/-- A cycle that ends out of work leaves the idle flag up, or has just rung. -/
theorem idle_of_cycled {result : Except Failure CycleOutcome} (h : Advance disturbed f d g e)
    (hg : g.phase = .cycled result) (hnotes : ∀ last, f.phase ≠ .noting .idle last)
    (hreports : result = .ok .idle ∨
      ∃ outcome, f.phase = .idling outcome ∨ f.phase = .ringing outcome) :
    g.duty.idle = true ∨ e.queue = d.queue.notifyAvailable := by
  cases h with
  | stayIdle _ hidle => exact .inl hidle
  | ring => exact .inr rfl
  | note hphase =>
      cases hg
      rcases hreports with hidle | ⟨outcome, hbefore⟩
      · cases hidle
        exact absurd hphase (hnotes _)
      · rw [hphase] at hbefore
        exact hbefore.elim nofun nofun
  | skip hphase | handFail hphase | lose hphase | staleEnd hphase | bookNothing hphase =>
      cases hg
      rw [hphase] at hreports
      exact hreports.elim nofun fun ⟨_, hbefore⟩ => hbefore.elim nofun nofun
  | doze hphase | flush hphase | flushAgain hphase | flushShut hphase | flushDoze hphase =>
      cases hphase.symm.trans hg
  | _ => cases hg

/-- Looking in vain for something to read, the thread comes nearer to the end of its cycle, unless a
call into the reader fails. -/
theorem looksInVain_advance (hf : f.LooksInVain) (h : Advance disturbed f d g e) :
    (g.LooksInVain ∨ g.phase.isPanic = true ∨
      (∃ failure, g.phase = .cycled (.error failure)) ∨ g.phase = .cycled (.ok .idle)) ∧
      g.toLook < f.toLook := by
  obtain ⟨hrest, hunpaused, hlooks⟩ := hf
  have hrest' := atRest_advance hrest h
  have hpos := Nat.pos_of_ne_zero hlooks
  cases h with
  | handFail => exact ⟨.inr (.inr (.inl ⟨_, rfl⟩)), hpos⟩
  | handPanic => exact ⟨.inr (.inl rfl), hpos⟩
  | skip hphase hpaused => exact absurd (hunpaused.symm.trans hpaused) Bool.noConfusion
  | retry hphase hleft => exact absurd (hrest.leftover.symm.trans hleft) nofun
  | findSplits hphase hassigned => exact absurd hrest.assigned hassigned
  | forget hphase | collect hphase hpaused | hand hphase hcall | check hphase hleft
  | findNothing hphase hassigned =>
      refine ⟨.inl ⟨hrest', hunpaused, ?_⟩, ?_⟩ <;> simp [toLook, hphase]
  | @stayIdle outcome hphase | @ring outcome hphase =>
      obtain rfl : outcome = .idle := by cases outcome <;> simp [toLook, hphase] at hlooks ⊢
      exact ⟨.inr (.inr (.inr rfl)), hpos⟩
  | @turnIdle outcome hphase =>
      obtain rfl : outcome = .idle := by cases outcome <;> simp [toLook, hphase] at hlooks ⊢
      exact ⟨.inl ⟨hrest', hunpaused, Nat.one_ne_zero⟩, by simp [toLook, hphase]⟩
  | _ => simp_all [toLook]

/-- A thread that looks in vain has a next step. -/
theorem exists_step_of_looksInVain (disturbed : List Bool) (hf : f.LooksInVain) (d : Depot) :
    ∃ pair, f.step? disturbed d = some pair := by
  obtain ⟨hrest, hunpaused, hlooks⟩ := hf
  rw [← Option.isSome_iff_exists]
  cases hphase : f.phase with
  | handing changes => cases changes <;> simp [step?, hphase, hrest.leftover]
  | collecting => simp [step?, hphase, hunpaused]
  | checking => simp [step?, hphase, hrest.assigned]
  | starting | idling _ | ringing _ => simp [step?, hphase]
  | _ => simp [toLook, hphase] at hlooks

end Fetcher

namespace Station

variable {ρ : Type}

/-- The bell that a move hands out while splits are assigned and the idle flag is down. -/
def promises (station : Station ρ) : Move → List Nat
  | .queue move =>
    if station.fetcher.duty.assigned ≠ [] ∧ station.fetcher.duty.idle = false then
      Belfry.given station.depot.queue move
    else []
  | _ => []

/-- A step by which the thread has news for the consumer: a put is over that was not woken, or a
cycle is over that answers that there was nothing to read, or has found so after its batch. -/
inductive Reports (station next : Station ρ) : Prop
  | put {outcome last} (hnext : next.fetcher.phase = .noting outcome last)
      (houtcome : outcome ≠ .publishDeferred)
  | idle (hnext : next.fetcher.phase = .cycled (.ok .idle))
  | found {result outcome} (hnext : next.fetcher.phase = .cycled result)
      (hphase : station.fetcher.phase = .idling outcome ∨ station.fetcher.phase = .ringing outcome)

/-- A cycle has come to its end that looked in vain: the reader failed to take a change in, or the
answer is that there was nothing to read, and none of some bells is silent. -/
def HasLooked (handed : List Nat) (station : Station ρ) : Prop :=
  station.fetcher.phase.isPanic = true ∨
    (∃ failure, station.fetcher.phase = .cycled (.error failure)) ∨
    station.fetcher.phase = .cycled (.ok .idle) ∧
      ∀ bell ∈ handed, station.depot.queue.hasRung bell = true

/-- Bells that are not forgotten: none is missed, and once the idle flag is up all have rung, or the
thread is about to ring. -/
structure Attuned (handed : List Nat) (station : Station ρ) : Prop where
  coherent : station.fetcher.Coherent
  notes : ∀ last, station.fetcher.phase ≠ .noting .idle last
  room : 0 < station.depot.queue.capacity
  bells : Belfry.Sound ⟨station.depot.queue, handed⟩
  rung : station.fetcher.duty.closed = false → station.fetcher.duty.idle = true →
    station.fetcher.phase.isRinging = false →
    ∀ bell ∈ handed, station.depot.queue.hasRung bell = true

theorem attuned_fresh (id : Nat) (reader : ρ) (capacity : Nat) (store : FileStore) :
    (fresh id reader { queue := .ofCapacity capacity, store }).Attuned [] where
  coherent := Fetcher.coherent_new id reader
  notes := nofun
  room := Nat.lt_of_lt_of_le Nat.one_pos (Nat.le_max_right ..)
  bells := Belfry.sound_opened capacity
  rung := nofun

variable [SplitReader ρ] {station next last : Station ρ} {move : Move} {moves : List Move}
  {handed : List Nat}

omit [SplitReader ρ] in
theorem promises_of_idle (hidle : station.fetcher.duty.idle = true) :
    station.promises move = [] := by
  cases move with
  | queue move => simp [promises, hidle]
  | _ => rfl

omit [SplitReader ρ] in
/-- As long as the idle flag is not raised over assigned splits, every bell that is handed out while
splits are assigned is promised. -/
theorem promises_of_quiet (hquiet : station.fetcher.Quiet)
    (hopen : station.fetcher.duty.closed = false) (hassigned : station.fetcher.duty.assigned ≠ [])
    (move : HandoffQueue.Move (SplitBatch Record)) :
    station.promises (.queue move) = Belfry.given station.depot.queue move := by
  have hdown : station.fetcher.duty.idle = false := by
    rw [← Bool.not_eq_true]
    exact fun hidle => hassigned (hquiet hopen hidle).1
  exact if_pos ⟨hassigned, hdown⟩

/-- What a move of the queue does to its bells. -/
theorem bells_apply {queue : HandoffQueue (SplitBatch Record)} (hroom : 0 < queue.capacity)
    (hbells : Belfry.Sound ⟨queue, handed⟩) (move : HandoffQueue.Move (SplitBatch Record)) :
    0 < (move.apply queue).capacity ∧
      Belfry.Sound ⟨move.apply queue, handed ++ Belfry.given queue move⟩ ∧
      ∀ bell, queue.hasRung bell = true → (move.apply queue).hasRung bell = true := by
  refine ⟨?_, Belfry.sound_step hbells hroom move, fun bell hrung =>
    HandoffQueue.hasRung_apply_of_hasRung hrung move⟩
  rwa [HandoffQueue.capacity_apply]

/-- Whatever is done with a station, no bell that it has promised is missed or falls silent. -/
theorem bells_step (hroom : 0 < station.depot.queue.capacity)
    (hbells : Belfry.Sound ⟨station.depot.queue, handed⟩) (h : station.step move = some next) :
    0 < next.depot.queue.capacity ∧
      Belfry.Sound ⟨next.depot.queue, handed ++ station.promises move⟩ ∧
      ∀ bell, station.depot.queue.hasRung bell = true → next.depot.queue.hasRung bell = true := by
  have hsame : 0 < station.depot.queue.capacity ∧
      Belfry.Sound ⟨station.depot.queue, handed ++ []⟩ ∧ ∀ bell,
        station.depot.queue.hasRung bell = true → station.depot.queue.hasRung bell = true :=
    ⟨hroom, (List.append_nil handed).symm ▸ hbells, fun _ hrung => hrung⟩
  cases move with
  | cycle | loop =>
      simp only [step, Option.ite_none_right_eq_some, Option.some.injEq] at h
      obtain ⟨-, rfl⟩ := h
      exact hsame
  | thread disturbed =>
      obtain hqueue | ⟨batch, hput⟩ | hrings := Fetcher.queue_advance (step_thread h).1
      · rw [hqueue]
        exact hsame
      · rw [hput]
        exact bells_apply hroom hbells (.put station.fetcher.id station.fetcher.id batch)
      · rw [hrings]
        exact bells_apply hroom hbells .notifyAvailable
  | nudge nudge =>
      obtain rfl := Option.some.inj h
      cases nudge with
      | wakePut => exact bells_apply hroom hbells (.wakeProducer station.fetcher.id)
      | rouse | requestWake | wakeReader => exact hsame
  | queue move =>
      obtain rfl := Option.some.inj h
      obtain ⟨hroom', hbells', hstays⟩ := bells_apply hroom hbells move
      refine ⟨hroom', Belfry.sound_mono hbells' ?_, hstays⟩
      rw [promises]
      split
      · exact List.Subset.refl _
      · simp
  | timeOut | ask _ | files _ =>
      obtain rfl := Option.some.inj h
      exact hsame

omit [SplitReader ρ] in
/-- No request raises the idle flag. -/
theorem idle_of_enact {request : Request} {f : Fetcher ρ}
    (hidle : (request.enact f).1.duty.idle = true) : f.duty.idle = true := by
  cases request with
  | addSplits splits =>
      simp only [Request.enact] at hidle
      split at hidle
      · exact hidle
      · cases hidle
  | stop mode =>
      simp only [Request.enact] at hidle
      split at hidle <;> exact hidle
  | removeSplits _ | wakeUp _ | pause | resume | releaseLatch => exact hidle

/-- The idle flag is raised by the thread alone. -/
theorem idle_of_beside (hmove : move.isBeside = true) (h : station.step move = some next)
    (hidle : next.fetcher.duty.idle = true) : station.fetcher.duty.idle = true := by
  cases move with
  | cycle | loop | thread _ => cases hmove
  | ask request =>
      obtain rfl := Option.some.inj h
      exact idle_of_enact hidle
  | nudge nudge =>
      obtain rfl := Option.some.inj h
      cases nudge <;> exact hidle
  | timeOut | queue _ | files _ =>
      obtain rfl := Option.some.inj h
      exact hidle

theorem notes_step (hs : ∀ last, station.fetcher.phase ≠ .noting .idle last)
    (h : station.step move = some next) : ∀ last, next.fetcher.phase ≠ .noting .idle last := by
  cases turn_of_step h with
  | cycle hmay hnext | loop hmay hnext => exact hnext ▸ fun _ => nofun
  | thread hadvance hsent => exact Fetcher.notes_advance hs hadvance
  | beside hmove hsame => exact hsame.phase ▸ hs

/-- Where the idle flag is up after a move it was before, or the bell comes next or has just been
rung. -/
theorem idle_step (h : station.step move = some next) (hidle : next.fetcher.duty.idle = true)
    (hopen : next.fetcher.duty.closed = false) :
    (station.fetcher.duty.closed = false ∧ station.fetcher.duty.idle = true ∧
        station.fetcher.phase.isRinging = false) ∨
      next.fetcher.phase.isRinging = true ∨
      (move.isBeside = false ∧ next.depot.queue = station.depot.queue.notifyAvailable) := by
  cases turn_of_step h with
  | cycle hmay hnext | loop hmay hnext =>
      subst hnext
      obtain ⟨hphase | ⟨result, hphase⟩, -⟩ := phase_of_mayBegin hmay <;>
        exact .inl ⟨hopen, hidle, hphase ▸ rfl⟩
  | thread hadvance hsent =>
      exact (Fetcher.idle_advance hadvance hidle hopen).imp_right fun hrings =>
        hrings.imp_right fun hrung => ⟨rfl, hrung⟩
  | beside hmove hsame =>
      have hbefore := idle_of_beside hmove h hidle
      cases hringing : station.fetcher.phase.isRinging with
      | true => exact .inr (.inl (hsame.phase ▸ hringing))
      | false => exact .inl ⟨hsame.closed ▸ hopen, hbefore, rfl⟩

theorem attuned_step (hs : station.Attuned handed) (h : station.step move = some next) :
    next.Attuned (handed ++ station.promises move) := by
  obtain ⟨hroom, hbells, hstays⟩ := bells_step hs.room hs.bells h
  refine ⟨coherent_step hs.coherent h, notes_step hs.notes h, hroom, hbells, ?_⟩
  intro hopen hidle hnot
  rcases idle_step h hidle hopen with ⟨hopen', hidle', hnot'⟩ | hrings | ⟨hmove, hrung⟩
  · rw [promises_of_idle hidle', List.append_nil]
    exact fun bell hmem => hstays bell (hs.rung hopen' hidle' hnot' bell hmem)
  · exact absurd (hnot.symm.trans hrings) Bool.noConfusion
  · have hnone : station.promises move = [] := by
      cases move with
      | queue _ => cases hmove
      | _ => rfl
    rw [hnone, List.append_nil, hrung]
    exact fun bell hmem => Belfry.hasRung_ringBell_of_sound hs.bells hmem

/-- The bells that a course promises are not forgotten. -/
theorem attuned_follow {id : Nat} {reader : ρ} {capacity : Nat} {store : FileStore}
    (h : Course.follow step moves (fresh id reader { queue := .ofCapacity capacity, store }) =
      some last) :
    last.Attuned (Course.gather step promises moves
      (fresh id reader { queue := .ofCapacity capacity, store })) :=
  Course.follow_gathers Attuned attuned_step h (attuned_fresh id reader capacity store)

omit [SplitReader ρ] in
theorem isOpen_of_cycled {result : Except Failure CycleOutcome} (hs : station.Attuned handed)
    (hphase : station.fetcher.phase = .cycled result) : station.fetcher.duty.closed = false := by
  rw [← Bool.not_eq_true]
  intro hclosed
  have hsettled := hs.coherent.closed hclosed
  rw [hphase] at hsettled
  cases hsettled

/-- A thread that has news for the consumer leaves no promised bell silent. -/
theorem rung_of_reports {disturbed : List Bool} (hs : station.Attuned handed)
    (h : station.step (.thread disturbed) = some next) (hreports : Reports station next) :
    ∀ bell ∈ handed, next.depot.queue.hasRung bell = true := by
  have hnext : next.Attuned handed := List.append_nil handed ▸ attuned_step hs h
  have hadvance := (step_thread h).1
  have hended {result : Except Failure CycleOutcome}
      (hphase : next.fetcher.phase = .cycled result)
      (hout : result = .ok .idle ∨ ∃ outcome, station.fetcher.phase = .idling outcome ∨
        station.fetcher.phase = .ringing outcome) :
      ∀ bell ∈ handed, next.depot.queue.hasRung bell = true := by
    rcases Fetcher.idle_of_cycled hadvance hphase hs.notes hout with hidle | hrings
    · exact hnext.rung (isOpen_of_cycled hnext hphase) hidle (hphase ▸ rfl)
    · rw [hrings]
      exact fun bell hmem => Belfry.hasRung_ringBell_of_sound hs.bells hmem
  cases hreports with
  | put hphase houtcome =>
      have hready := Fetcher.ready_of_put hadvance hphase houtcome
      exact fun bell hmem => Belfry.hasRung_of_sound hnext.bells hready hmem
  | idle hphase => exact hended hphase (.inl rfl)
  | found hphase hbefore => exact hended hphase (.inr ⟨_, hbefore⟩)

/-- A cycle that is left alone, and will find nothing to read, comes to an end: a call into the
reader fails, or no promised bell is silent. -/
theorem exists_hasLooked (hs : station.Attuned handed) (hlooks : station.fetcher.LooksInVain) :
    ∃ count ≤ station.fetcher.toLook, ∃ ended,
      Course.follow step (threads count) station = some ended ∧ ended.HasLooked handed := by
  refine Course.exists_goal (fun station : Station ρ => station.fetcher.toLook)
    (fun station => station.Attuned handed ∧
      (station.fetcher.LooksInVain ∨ station.HasLooked handed)) _ ?_ ⟨hs, .inl hlooks⟩
  rintro state ⟨hs, hlooks | hlooked⟩
  · obtain ⟨next, hmove⟩ :=
      exists_step_thread (Fetcher.exists_step_of_looksInVain [] hlooks state.depot)
    obtain ⟨hnext, hless⟩ := Fetcher.looksInVain_advance hlooks (step_thread hmove).1
    have hs' : next.Attuned handed := List.append_nil handed ▸ attuned_step hs hmove
    refine .inr ⟨next, hmove, ⟨hs', ?_⟩, hless⟩
    rcases hnext with hlooks' | hpanic | herror | hidle
    · exact .inl hlooks'
    · exact .inr (.inl hpanic)
    · exact .inr (.inr (.inl herror))
    · exact .inr (.inr (.inr ⟨hidle, rung_of_reports hs hmove (.idle hidle)⟩))
  · exact .inl hlooked

/-- Going out of work rings the bell.  Take the bells that were handed out, at any time, while
splits were assigned and the idle flag was down.  As long as one of them has not rung, the flag is
down, or the thread is about to ring.  All of them have rung when a put is over that was not woken,
when a cycle ends with the answer that there was nothing to read, and when a cycle ends that has
found so after its batch.  A cycle that begins with nothing assigned and no batch left over, is not
paused, and is left alone comes to such an end, unless the reader fails to take the changes in. -/
theorem going_idle_rings_the_bell (id : Nat) (reader : ρ) (capacity : Nat) (store : FileStore)
    {moves : List Move} {station : Station ρ}
    (h : Course.follow step moves (fresh id reader { queue := .ofCapacity capacity, store }) =
      some station) :
    let promised := Course.gather step promises moves
      (fresh id reader { queue := .ofCapacity capacity, store })
    (station.fetcher.duty.closed = false → station.fetcher.duty.idle = true →
      station.fetcher.phase.isRinging = false →
      ∀ bell ∈ promised, station.depot.queue.hasRung bell = true) ∧
    (∀ disturbed next, station.step (.thread disturbed) = some next → Reports station next →
      ∀ bell ∈ promised, next.depot.queue.hasRung bell = true) ∧
    (station.fetcher.phase = .starting → station.fetcher.duty.paused = false →
      station.fetcher.duty.assigned = [] → station.fetcher.leftover = none →
      ∃ count ended, Course.follow step (threads count) station = some ended ∧
        ended.HasLooked promised) := by
  intro promised
  have hs : station.Attuned promised := attuned_follow h
  refine ⟨hs.rung, fun disturbed next hnext hreports => rung_of_reports hs hnext hreports, ?_⟩
  intro hphase hunpaused hassigned hleft
  have hlooks : station.fetcher.LooksInVain :=
    { rest := ⟨hassigned, hphase ▸ rfl, hleft⟩
      unpaused := hunpaused
      looks := by simp [Fetcher.toLook, hphase] }
  obtain ⟨count, -, ended, hended⟩ := exists_hasLooked hs hlooks
  exact ⟨count, ended, hended⟩

/-- A split is taken on, a bell is asked for, and the split is given up again. -/
def givenUp : List Move :=
  [.ask (.addSplits [.range ⟨"a", 0, 1⟩]), .queue .availability, .ask (.removeSplits ["a"])]

/-- The bell that was handed out while the split was assigned rings in the cycle that finds it
gone, without a batch. -/
theorem given_up_split_rings :
    ∃ station ended : Station Backend,
      Course.follow step (givenUp ++ .cycle :: threads 7)
          (fresh 0 (.ranges (.withLimits 1 0)) { queue := .ofCapacity 1 }) = some station ∧
        station.step (.thread []) = some ended ∧ ended.fetcher.phase = .cycled (.ok .idle) ∧
        ended.sent = [] ∧
        0 ∈ Course.gather step promises (givenUp ++ .cycle :: threads 7)
          (fresh 0 (.ranges (.withLimits 1 0)) { queue := .ofCapacity 1 } : Station Backend) ∧
        station.depot.queue.hasRung 0 = false ∧ ended.depot.queue.hasRung 0 = true := by
  have h : Course.follow step (givenUp ++ .cycle :: threads 7)
      (fresh 0 (.ranges (.withLimits 1 0)) { queue := .ofCapacity 1 } : Station Backend) =
        some _ := rfl
  refine ⟨_, _, rfl, rfl, rfl, rfl, by decide, rfl, ?_⟩
  exact (going_idle_rings_the_bell _ _ _ _ h).2.1 [] _ rfl (.idle rfl) 0 (by decide)

/-- A paused cycle leaves with nothing assigned and nothing in hand, and does not ring. -/
theorem paused_cycle_keeps_silent :
    ∃ ended : Station Backend,
      Course.follow step (givenUp ++ [.ask .pause, .cycle] ++ threads 2)
          (fresh 0 (.ranges (.withLimits 1 0)) { queue := .ofCapacity 1 }) = some ended ∧
        ended.fetcher.phase = .cycled (.ok .paused) ∧ ended.fetcher.duty.assigned = [] ∧
        ended.fetcher.custody = none ∧
        0 ∈ Course.gather step promises (givenUp ++ [.ask .pause, .cycle] ++ threads 2)
          (fresh 0 (.ranges (.withLimits 1 0)) { queue := .ofCapacity 1 } : Station Backend) ∧
        ended.depot.queue.hasRung 0 = false := by
  refine ⟨_, rfl, rfl, rfl, rfl, ?_, rfl⟩
  decide

end Station

end SplitFeed
