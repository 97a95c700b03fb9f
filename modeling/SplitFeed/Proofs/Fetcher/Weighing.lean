/-
# What a wake-up in the middle of a cycle does

A cycle begins by forgetting the wake requests of before, and after its fetch it looks for new ones.
Between the two the thread touches neither the wake request, nor the queue, nor the list of assigned
splits, so what it finds then is whether anybody asked in the meantime.  If so, the batch goes back
to the reader, once, and the cycle ends there; if not, the cycle ends in another way.

`Leaves` are the moves that begin something new when a cycle has ended; a course without them stays
within one cycle, whatever the controls do in between.
-/
import SplitFeed.Proofs.Fetcher.Hearing

namespace SplitFeed

namespace Phase

/-- Whether a cycle is under way, or has ended and nothing came of it yet. -/
def isMidCycle : Phase → Bool
  | fetchLost _ | rewinding _ | rewound | booking _ | publishing _ _ | noting _ _ | idling _
  | ringing _ | cycled _ | panicked _ => true
  | phase => phase.isTouchable

/-- Whether a cycle has ended. -/
def isCycled : Phase → Bool
  | cycled _ => true
  | _ => false

/-- Whether the batch of a cycle was kept, and the cycle ends in another way than with a stale
batch. -/
def isKept : Phase → Bool
  | booking _ | publishing _ _ => true
  | noting outcome _ | idling outcome | ringing outcome | cycled (.ok outcome) => outcome ≠ .stale
  | _ => false

end Phase

namespace Fetcher

variable {ρ : Type} [SplitReader ρ] {disturbed : List Bool} {f g : Fetcher ρ} {d e : Depot}
  {batch : SplitBatch Record} {calls : List ReaderCall}

/-! ### Steps of the thread -/

theorem midCycle_advance (hf : f.phase.isMidCycle = true) (hgoes : f.phase.isCycled = false)
    (h : Advance disturbed f d g e) : g.phase.isMidCycle = true := by
  cases h <;> simp_all [Phase.isMidCycle, Phase.isTouchable, Phase.isCycled]

/-- What a step leaves alone that nothing is decided in. -/
structure Idles (disturbed : List Bool) (f : Fetcher ρ) (d : Depot) (g : Fetcher ρ) : Prop where
  assigned : g.duty.assigned = f.duty.assigned
  handsOver : f.handsOver d = none
  givenBack : (f.calls disturbed d).filterMap ReaderCall.givenBack = []

/-- Nothing is decided from the beginning of a cycle to its check. -/
theorem idles_advance (hf : f.phase = .starting ∨ f.phase.isTouchable = true)
    (h : Advance disturbed f d g e) : Idles disturbed f d g where
  assigned := by
    cases h <;> simp_all [Phase.isTouchable]
  handsOver := by
    refine handsOver_eq_none ?_
    unfold offers
    split <;> simp_all [Phase.isTouchable]
  givenBack := by
    unfold calls
    split <;> simp_all [Phase.isTouchable, ReaderCall.givenBack]

/-- Within a cycle, where the check is still to come after a step, it was so before. -/
theorem touchable_advance (hf : f.phase.isMidCycle = true) (hgoes : f.phase.isCycled = false)
    (h : Advance disturbed f d g e) (hg : g.phase.isTouchable = true) :
    f.phase.isTouchable = true ∧ g.wakeRequested = f.wakeRequested := by
  cases h <;> simp_all [Phase.isMidCycle, Phase.isTouchable, Phase.isCycled]

/-- The batch of a cycle goes back to the reader, or has gone back in the calls so far. -/
def Discards (batch : SplitBatch Record) (calls : List ReaderCall) (f : Fetcher ρ) : Prop :=
  match f.phase with
  | .rewinding stale => stale = batch ∧ calls.filterMap ReaderCall.givenBack = []
  | .rewound | .cycled (.ok .stale) | .panicked _ =>
    calls.filterMap ReaderCall.givenBack = [batch]
  | _ => False

theorem discards_advance (hf : f.Discards batch calls) (hgoes : f.phase.isCycled = false)
    (h : Advance disturbed f d g e) :
    g.Discards batch (calls ++ f.calls disturbed d) ∧ f.handsOver d = none := by
  cases h with
  | rewind hphase hcall _ | rewindPanic hphase hcall =>
      simp only [Discards, hphase] at hf
      obtain ⟨rfl, hnone⟩ := hf
      refine ⟨?_, handsOver_eq_none (by simp [offers, hphase])⟩
      simp [Discards, Fetcher.calls, hphase, hcall, hnone, ReaderCall.givenBack]
  | staleEnd hphase =>
      simp only [Discards, hphase] at hf
      refine ⟨?_, handsOver_eq_none (by simp [offers, hphase])⟩
      simpa [Discards, Fetcher.calls, hphase] using hf
  | _ => simp_all [Discards, Phase.isCycled]

theorem assigned_of_discards (hf : f.Discards batch calls) (h : Advance disturbed f d g e) :
    g.duty.assigned = f.duty.assigned := by
  cases h <;> simp_all [Discards]

/-- A thread that is to give a batch back can do so, unless it has ended its cycle. -/
theorem exists_step_of_discards (disturbed : List Bool) (d : Depot)
    (hf : f.Discards batch calls) :
    (f.phase = .cycled (.ok .stale) ∨ f.phase.isPanic = true) ∨
      ∃ pair, f.step? disturbed d = some pair := by
  cases hphase : f.phase with
  | rewinding | rewound => exact .inr (by simp [step?, hphase])
  | cycled result =>
      rcases result with _ | (_ | _ | _ | _ | _ | _ | _) <;> simp_all [Discards]
  | panicked => exact .inl (.inr rfl)
  | _ => simp [Discards, hphase] at hf

/-- How many steps it takes at most to end such a cycle. -/
def toDiscard (f : Fetcher ρ) : Nat :=
  match f.phase with
  | .rewinding _ => 2
  | .rewound => 1
  | _ => 0

omit [SplitReader ρ] in
theorem toDiscard_le (f : Fetcher ρ) : f.toDiscard ≤ 2 := by
  unfold toDiscard
  split <;> decide

theorem toDiscard_advance (hf : f.Discards batch calls) (hgoes : f.phase.isCycled = false)
    (h : Advance disturbed f d g e) : g.toDiscard < f.toDiscard := by
  cases h <;> simp_all [Discards, Phase.isCycled, toDiscard]

/-- A batch that was kept does not go back. -/
theorem kept_advance (hf : f.phase.isKept = true) (hgoes : f.phase.isCycled = false)
    (h : Advance disturbed f d g e) :
    g.phase.isKept = true ∧ f.calls disturbed d = [] := by
  cases h <;> simp_all [Phase.isKept, Phase.isCycled, Fetcher.calls]

end Fetcher

namespace Station

variable {ρ : Type} [SplitReader ρ] {station next begun weighed first last : Station ρ}
  {move : Move} {moves window rest : List Move} {batch : SplitBatch Record}
  {calls : List ReaderCall} {start check : List Bool}

omit [SplitReader ρ] in
/-- When a cycle has ended, the thread goes on, or something new is begun with it. -/
def Leaves (station : Station ρ) (move : Move) : Prop :=
  move.isBeside = false ∧ station.fetcher.phase.isCycled = true

instance (station : Station ρ) (move : Move) : Decidable (station.Leaves move) :=
  inferInstanceAs (Decidable (_ ∧ _))

/-- A step of the thread changes the list of assigned splits. -/
def Unassigns (station : Station ρ) : Move → Prop
  | .thread disturbed => ∃ pair, station.fetcher.step? disturbed station.depot = some pair ∧
      pair.1.duty.assigned ≠ station.fetcher.duty.assigned
  | _ => False

/-- Whether a move is a wake request. -/
def Move.asksWake : Move → Bool
  | .nudge .requestWake => true
  | _ => false

theorem not_unassigns {disturbed : List Bool} (h : station.step (.thread disturbed) = some next)
    (hsame : next.fetcher.duty.assigned = station.fetcher.duty.assigned) :
    ¬ station.Unassigns (.thread disturbed) := by
  rintro ⟨pair, hstep, hdiffers⟩
  simp only [step, hstep, Option.map_some, Option.some.injEq] at h
  subst h
  exact hdiffers hsame

theorem not_unassigns_of_beside (hmove : move.isBeside = true) : ¬ station.Unassigns move := by
  cases move with
  | thread _ => cases hmove
  | _ => exact id

/-- Within a cycle, others do something, or the thread goes on with it. -/
theorem midCycle_cases (hmid : station.fetcher.phase.isMidCycle = true)
    (hstays : ¬ station.Leaves move) (h : station.step move = some next) :
    (move.isBeside = true ∧ Beside station next) ∨ ∃ disturbed, move = .thread disturbed ∧
      station.fetcher.phase.isCycled = false := by
  have hgoes (hmove : move.isBeside = false) : station.fetcher.phase.isCycled = false :=
    Bool.eq_false_iff.2 fun hcycled => hstays ⟨hmove, hcycled⟩
  cases turn_of_step h with
  | cycle hmay | loop hmay =>
      obtain ⟨hphase | ⟨result, hphase⟩, -⟩ := phase_of_mayBegin hmay
      · rw [hphase] at hmid
        cases hmid
      · have hcycled := hgoes rfl
        rw [hphase] at hcycled
        cases hcycled
  | thread => exact .inr ⟨_, rfl, hgoes rfl⟩
  | beside hmove hsame => exact .inl ⟨hmove, hsame⟩

/-! ### Before the check -/

/-- What a part of a cycle comes to that nothing is decided in. -/
structure Idles (window : List Move) (first last : Station ρ) : Prop where
  sent : last.sent = first.sent
  assigned : Course.Never step Unassigns window first
  givenBack : (Course.gather step Station.calls window first).filterMap ReaderCall.givenBack = []

theorem idles_thread {disturbed : List Bool} (h : station.step (.thread disturbed) = some next)
    (hidles : Fetcher.Idles disturbed station.fetcher station.depot next.fetcher) :
    Idles [.thread disturbed] station next where
  sent := by
    rw [(step_thread h).2, hidles.handsOver, Option.toList_none, List.append_nil]
  assigned := (Course.never_cons h).2 ⟨not_unassigns h hidles.assigned, trivial⟩
  givenBack := by
    rw [Course.gather, h, List.filterMap_append]
    exact (List.append_nil _).trans hidles.givenBack

theorem idles_beside (hmove : move.isBeside = true) (hsame : Beside station next)
    (h : station.step move = some next) : Idles [move] station next where
  sent := hsame.sent
  assigned := (Course.never_cons h).2 ⟨not_unassigns_of_beside hmove, trivial⟩
  givenBack := by
    rw [Course.gather, h, Station.calls, byThread_of_beside hmove]
    rfl

theorem idles_append (hbefore : Course.follow step window first = some next)
    (hidles : Idles window first next) (hrest : Idles rest next last) :
    Idles (window ++ rest) first last where
  sent := hrest.sent.trans hidles.sent
  assigned := Course.never_of_parts hbefore hidles.assigned hrest.assigned
  givenBack := by
    rw [Course.gather_append hbefore, List.filterMap_append, hidles.givenBack, hrest.givenBack]
    rfl

theorem wakeRequested_beside (hmove : move.isBeside = true) (h : station.step move = some next) :
    next.fetcher.wakeRequested = (station.fetcher.wakeRequested || move.asksWake) := by
  cases move with
  | cycle | loop | thread => cases hmove
  | ask request =>
      obtain rfl := Option.some.inj h
      exact (wakeRequested_enact request station.fetcher).trans (Bool.or_false _).symm
  | nudge nudge =>
      obtain rfl := Option.some.inj h
      cases nudge with
      | requestWake => exact (Bool.or_true _).symm
      | rouse | wakeReader | wakePut => exact (Bool.or_false _).symm
  | timeOut | queue _ | files _ =>
      obtain rfl := Option.some.inj h
      exact (Bool.or_false _).symm

theorem midCycle_step (hmid : station.fetcher.phase.isMidCycle = true)
    (hstays : ¬ station.Leaves move) (h : station.step move = some next) :
    next.fetcher.phase.isMidCycle = true := by
  rcases midCycle_cases hmid hstays h with ⟨-, hsame⟩ | ⟨disturbed, rfl, hgoes⟩
  · rw [hsame.phase]
    exact hmid
  · exact Fetcher.midCycle_advance hmid hgoes (step_thread h).1

/-- Where the check is still to come after a move, it was so before, and only a wake request has
changed the flag. -/
theorem touchable_step (hmid : station.fetcher.phase.isMidCycle = true)
    (hstays : ¬ station.Leaves move) (h : station.step move = some next)
    (htouchable : next.fetcher.phase.isTouchable = true) :
    station.fetcher.phase.isTouchable = true ∧
      next.fetcher.wakeRequested = (station.fetcher.wakeRequested || move.asksWake) ∧
        Idles [move] station next := by
  rcases midCycle_cases hmid hstays h with ⟨hmove, hsame⟩ | ⟨disturbed, rfl, hgoes⟩
  · exact ⟨hsame.phase ▸ htouchable, wakeRequested_beside hmove h, idles_beside hmove hsame h⟩
  · have hadvance := (step_thread h).1
    obtain ⟨hbefore, hflag⟩ := Fetcher.touchable_advance hmid hgoes hadvance htouchable
    exact ⟨hbefore, hflag.trans (Bool.or_false _).symm,
      idles_thread h (Fetcher.idles_advance (.inr hbefore) hadvance)⟩

/-- A part of a cycle that leads to where the check is still to come does nothing but raise the
flag if it is asked to. -/
theorem touchable_follow (h : Course.follow step window first = some last)
    (hmid : first.fetcher.phase.isMidCycle = true)
    (hstays : Course.Never step Leaves window first)
    (htouchable : last.fetcher.phase.isTouchable = true) :
    first.fetcher.phase.isTouchable = true ∧
      last.fetcher.wakeRequested = (first.fetcher.wakeRequested || window.any Move.asksWake) ∧
        Idles window first last := by
  induction window generalizing first with
  | nil =>
      obtain rfl := Option.some.inj h
      exact ⟨htouchable, (Bool.or_false _).symm, rfl, trivial, rfl⟩
  | cons move window ih =>
      obtain ⟨next, hmove, hrest⟩ := Course.follow_cons_eq_some.1 h
      have hnext := midCycle_step hmid hstays.1 hmove
      obtain ⟨hlater, hflag, hidles⟩ := ih hrest hnext (hstays.2 next hmove)
      -- that the check is still to come is known of the last state, so it is carried backwards
      obtain ⟨hfirst, hraised, hidle⟩ := touchable_step hmid hstays.1 hmove hlater
      have hone : Course.follow step [move] first = some next := by simp [hmove]
      refine ⟨hfirst, ?_, idles_append hone hidle hidles⟩
      rw [hflag, hraised, List.any_cons, Bool.or_assoc]

/-! ### After the check -/

/-- The rest of a cycle whose batch is stale gives the batch back, and does nothing else. -/
theorem discards_step (hs : station.fetcher.Discards batch calls)
    (hstays : ¬ station.Leaves move) (h : station.step move = some next) :
    next.fetcher.Discards batch (calls ++ station.calls move) ∧ next.sent = station.sent := by
  have hmid : station.fetcher.phase.isMidCycle = true := by
    cases hphase : station.fetcher.phase <;> simp_all [Fetcher.Discards, Phase.isMidCycle]
  rcases midCycle_cases hmid hstays h with ⟨hmove, hsame⟩ | ⟨disturbed, rfl, hgoes⟩
  · refine ⟨?_, hsame.sent⟩
    rw [Station.calls, byThread_of_beside hmove, List.append_nil]
    simpa only [Fetcher.Discards, hsame.phase] using hs
  · obtain ⟨hadvance, hsent⟩ := step_thread h
    obtain ⟨hnext, hnothing⟩ := Fetcher.discards_advance hs hgoes hadvance
    rw [hnothing, Option.toList_none, List.append_nil] at hsent
    exact ⟨hnext, hsent⟩

theorem not_unassigns_of_discards (hs : station.fetcher.Discards batch calls) :
    ¬ station.Unassigns move := by
  cases move with
  | thread disturbed =>
      rintro ⟨pair, hstep, hdiffers⟩
      exact hdiffers (Fetcher.assigned_of_discards hs (Fetcher.advance_of_step? hstep))
  | _ => exact id

/-- It is near its end. -/
theorem nearer_of_discards (hs : ∃ calls, station.fetcher.Discards batch calls) :
    (station.fetcher.phase = .cycled (.ok .stale) ∨ station.fetcher.phase.isPanic = true) ∨
      ∃ next, step (.thread []) station = some next ∧
        (∃ calls, next.fetcher.Discards batch calls) ∧
          next.fetcher.toDiscard < station.fetcher.toDiscard := by
  obtain ⟨calls, hs⟩ := hs
  by_cases hends : station.fetcher.phase = .cycled (.ok .stale) ∨
      station.fetcher.phase.isPanic = true
  · exact .inl hends
  · have hgoes : station.fetcher.phase.isCycled = false := by
      cases hphase : station.fetcher.phase with
      | cycled result =>
          rcases result with _ | (_ | _ | _ | _ | _ | _ | _) <;> simp_all [Fetcher.Discards]
      | _ => rfl
    obtain ⟨next, hstep⟩ := exists_step_thread
      ((Fetcher.exists_step_of_discards [] station.depot hs).resolve_left hends)
    obtain ⟨hadvance, -⟩ := step_thread hstep
    exact .inr ⟨next, hstep, ⟨_, (Fetcher.discards_advance hs hgoes hadvance).1⟩,
      Fetcher.toDiscard_advance hs hgoes hadvance⟩

/-- The rest of a cycle whose batch was kept makes no calls on the reader. -/
theorem kept_step (hs : station.fetcher.phase.isKept = true) (hstays : ¬ station.Leaves move)
    (h : station.step move = some next) :
    next.fetcher.phase.isKept = true ∧ station.calls move = [] := by
  have hmid : station.fetcher.phase.isMidCycle = true := by
    cases hphase : station.fetcher.phase <;> simp_all [Phase.isKept, Phase.isMidCycle]
  rcases midCycle_cases hmid hstays h with ⟨hmove, hsame⟩ | ⟨disturbed, rfl, hgoes⟩
  · exact ⟨hsame.phase ▸ hs, byThread_of_beside hmove⟩
  · exact Fetcher.kept_advance hs hgoes (step_thread h).1

/-- What the rest of a cycle comes to whose batch is stale: the batch is given back, and the cycle
can be ended in two steps, if the reader does not panic. -/
structure TurnsAway (batch : SplitBatch Record) (moves : List Move) (first last : Station ρ) :
    Prop where
  sent : last.sent = first.sent
  assigned : Course.Never step Unassigns moves first
  outcome : ∀ result, last.fetcher.phase = .cycled result →
    result = .ok .stale ∧
      (Course.gather step Station.calls moves first).filterMap ReaderCall.givenBack = [batch]
  ends : ∃ count ≤ 2, ∃ final, Course.follow step (threads count) last = some final ∧
    (final.fetcher.phase = .cycled (.ok .stale) ∨ final.fetcher.phase.isPanic = true)

/-- What a cycle comes to whose batch was kept. -/
structure Accepts (moves : List Move) (first last : Station ρ) : Prop where
  outcome : last.fetcher.phase ≠ .cycled (.ok .stale)
  givenBack : (Course.gather step Station.calls moves first).filterMap ReaderCall.givenBack = []

theorem turnsAway_follow (hfirst : first.fetcher.phase = .rewinding batch)
    (h : Course.follow step rest first = some last)
    (hstays : Course.Never step Leaves rest first) : TurnsAway batch rest first last := by
  have hbegins : first.fetcher.Discards batch [] := by simp [Fetcher.Discards, hfirst]
  have hrun : last.fetcher.Discards batch (Course.gather step Station.calls rest first) ∧
      last.sent = first.sent := by
    refine Course.follow_gathers_of_never
      (fun calls station => station.fetcher.Discards batch calls ∧ station.sent = first.sent)
      (fun hs hmove hstep => ?_) h hstays ⟨hbegins, rfl⟩
    obtain ⟨hnext, hsent⟩ := discards_step hs.1 hmove hstep
    exact ⟨hnext, hsent.trans hs.2⟩
  have hassigned : Course.Never step Unassigns rest first :=
    Course.never_of_never (fun station => ∃ calls, station.fetcher.Discards batch calls)
      (fun ⟨_, hs⟩ hmove hstep => ⟨_, (discards_step hs hmove hstep).1⟩)
      (fun ⟨_, hs⟩ => not_unassigns_of_discards hs) hstays ⟨_, hbegins⟩
  refine ⟨hrun.2, hassigned, fun result hphase => ?_, ?_⟩
  · have hdiscards := hrun.1
    rcases result with _ | (_ | _ | _ | _ | _ | _ | _) <;> simp_all [Fetcher.Discards]
  · obtain ⟨count, hcount, final, hfinal, hgoal⟩ := Course.exists_goal
      (fun station : Station ρ => station.fetcher.toDiscard)
      (fun station => ∃ calls, station.fetcher.Discards batch calls)
      (fun station => station.fetcher.phase = .cycled (.ok .stale) ∨
        station.fetcher.phase.isPanic = true) nearer_of_discards ⟨_, hrun.1⟩
    exact ⟨count, Nat.le_trans hcount (Fetcher.toDiscard_le _), final, hfinal, hgoal⟩

theorem turnsAway_append (hbefore : Course.follow step window first = some next)
    (hidles : Idles window first next) (hrest : TurnsAway batch rest next last) :
    TurnsAway batch (window ++ rest) first last where
  sent := hrest.sent.trans hidles.sent
  assigned := Course.never_of_parts hbefore hidles.assigned hrest.assigned
  outcome result hphase := by
    obtain ⟨hstale, hgiven⟩ := hrest.outcome result hphase
    refine ⟨hstale, ?_⟩
    rw [Course.gather_append hbefore, List.filterMap_append, hidles.givenBack, hgiven]
    rfl
  ends := hrest.ends

theorem accepts_follow (hfirst : first.fetcher.phase = .booking batch)
    (h : Course.follow step rest first = some last)
    (hstays : Course.Never step Leaves rest first) : Accepts rest first last := by
  have hrun : last.fetcher.phase.isKept = true ∧
      Course.gather step Station.calls rest first = [] := by
    refine Course.follow_gathers_of_never
      (fun calls station => station.fetcher.phase.isKept = true ∧ calls = [])
      (fun hs hmove hstep => ?_) h hstays ⟨by rw [hfirst]; rfl, rfl⟩
    obtain ⟨hnext, hsilent⟩ := kept_step hs.1 hmove hstep
    exact ⟨hnext, by rw [hs.2, hsilent]; rfl⟩
  refine ⟨fun hstale => ?_, by rw [hrun.2]; rfl⟩
  have hkept := hrun.1
  rw [hstale] at hkept
  cases hkept

theorem accepts_append (hbefore : Course.follow step window first = some next)
    (hidles : Idles window first next) (hrest : Accepts rest next last) :
    Accepts (window ++ rest) first last where
  outcome := hrest.outcome
  givenBack := by
    rw [Course.gather_append hbefore, List.filterMap_append, hidles.givenBack, hrest.givenBack]
    rfl

/-- The check takes the wake request away, and a batch that was fetched goes back or is kept. -/
theorem check_step (hphase : weighed.fetcher.phase = .weighing batch)
    (h : weighed.step (.thread check) = some next) :
    Idles [.thread check] weighed next ∧ next.fetcher.phase =
      if weighed.fetcher.wakeRequested then .rewinding batch else .booking batch := by
  have hadvance := (step_thread h).1
  refine ⟨idles_thread h (Fetcher.idles_advance (.inr (by rw [hphase]; rfl)) hadvance), ?_⟩
  obtain ⟨fetcher, depot, sent⟩ := next
  cases hadvance with
  | turnAway hhere hwake =>
      obtain rfl : _ = batch := Phase.weighing.inj (hhere.symm.trans hphase)
      rw [if_pos hwake]
  | keep hhere hwake =>
      obtain rfl : _ = batch := Phase.weighing.inj (hhere.symm.trans hphase)
      rw [if_neg (by simp [hwake])]
  | _ => simp_all

/-- A cycle that comes to its check has touched nothing, and finds the wake requests that were made
since it began. -/
theorem weighed_follow (hbegun : begun.fetcher.phase = .starting)
    (hwindow : Course.follow step (.thread start :: window) begun = some weighed)
    (hcycle : Course.Never step Leaves (.thread start :: window) begun)
    (hphase : weighed.fetcher.phase = .weighing batch) :
    weighed.fetcher.wakeRequested = window.any Move.asksWake ∧
      Idles (.thread start :: window) begun weighed := by
  obtain ⟨opened, hopened, hrest⟩ := Course.follow_cons_eq_some.1 hwindow
  have hadvance := (step_thread hopened).1
  have hidle := idles_thread hopened (Fetcher.idles_advance (.inl hbegun) hadvance)
  have hforgets : opened.fetcher.phase = .collecting ∧ opened.fetcher.wakeRequested = false := by
    obtain ⟨fetcher, depot, sent⟩ := opened
    cases hadvance with
    | forget => exact ⟨rfl, rfl⟩
    | _ => simp_all
  obtain ⟨hcollects, hflag⟩ := hforgets
  obtain ⟨-, hraised, hidles⟩ := touchable_follow hrest (by rw [hcollects]; rfl)
    (hcycle.2 opened hopened) (by rw [hphase]; rfl)
  have hone : Course.follow step [.thread start] begun = some opened := by simp [hopened]
  refine ⟨?_, idles_append hone hidle hidles⟩
  rw [hraised, hflag, Bool.false_or]

omit [SplitReader ρ] in
theorem any_asksWake : window.any Move.asksWake = true ↔ .nudge .requestWake ∈ window := by
  rw [List.any_eq_true]
  constructor
  · rintro ⟨move, hmem, hasks⟩
    cases move with
    | nudge nudge => cases nudge <;> first | exact hmem | cases hasks
    | _ => cases hasks
  · exact fun hmem => ⟨_, hmem, rfl⟩

/-- Take a cycle that comes to its check for wake-ups with a batch.  If a wake request was made
since it began, the cycle turns the batch away: it ends as stale, gives the batch back once, and
leaves the queue and the assigned splits alone.  If none was made, the cycle does not end as stale.

Whatever happens then, all changes that were ever noted were handed to the reader or wait, exactly
if none is forgotten; and in that case, those that were noted before the check are handed to the
reader before it fetches again. -/
theorem turned_away_iff_woken (hbegun : begun.fetcher.phase = .starting)
    (hwindow : Course.follow step (.thread start :: window) begun = some weighed)
    (hcycle : Course.Never step Leaves (.thread start :: window) begun)
    (hphase : weighed.fetcher.phase = .weighing batch)
    (hrest : Course.follow step (.thread check :: rest) weighed = some last) :
    (Course.Never step Leaves (.thread check :: rest) weighed →
      (.nudge .requestWake ∈ window →
        TurnsAway batch (.thread start :: window ++ .thread check :: rest) begun last) ∧
      (.nudge .requestWake ∉ window →
        Accepts (.thread start :: window ++ .thread check :: rest) begun last)) ∧
    (begun.fetcher.unheard ++
          Course.gather step noted (.thread start :: window ++ .thread check :: rest) begun =
        Course.gather step told (.thread start :: window ++ .thread check :: rest) begun ++
          last.fetcher.unheard ↔
      Course.Never step Forgets (.thread start :: window ++ .thread check :: rest) begun) ∧
    (last.fetcher.phase = .fetching →
      Course.Never step Forgets (.thread start :: window ++ .thread check :: rest) begun →
        begun.fetcher.unheard ++ Course.gather step noted (.thread start :: window) begun <+:
          Course.gather step told (.thread start :: window ++ .thread check :: rest) begun) := by
  have hall : Course.follow step (.thread start :: window ++ .thread check :: rest) begun =
      some last := by
    rw [Course.follow_append, hwindow]
    exact hrest
  refine ⟨fun hstays => ?_, told_iff_never_forgets hall, fun hfetch hnever => ?_⟩
  · obtain ⟨hflag, hidles⟩ := weighed_follow hbegun hwindow hcycle hphase
    obtain ⟨turned, hcheck, hlater⟩ := Course.follow_cons_eq_some.1 hrest
    obtain ⟨hchecked, hturned⟩ := check_step hphase hcheck
    have hthere : Course.follow step [.thread check] weighed = some turned := by
      simp [hcheck]
    have hstays := hstays.2 turned hcheck
    constructor
    · intro hwoken
      rw [hflag, any_asksWake.2 hwoken, if_pos rfl] at hturned
      exact turnsAway_append hwindow hidles
        (turnsAway_append hthere hchecked (turnsAway_follow hturned hlater hstays))
    · intro hquiet
      rw [hflag, if_neg (by rwa [any_asksWake])] at hturned
      exact accepts_append hwindow hidles
        (accepts_append hthere hchecked (accepts_follow hturned hlater hstays))
  · exact told_before_fetch hwindow (by simp [Fetcher.CaughtUp, hphase]) hrest hfetch hnever

/-- A fetcher of ranges takes a split on, and a cycle is begun. -/
def offCourse : List Move := [.ask (.addSplits [.range ⟨"a", 0, 3⟩]), .cycle]

/-- The rest of a call that takes splits on, when its section is over. -/
def nudges : List Move :=
  [.nudge .rouse, .nudge .requestWake, .nudge .wakeReader, .nudge .rouse]

/-- The cycle comes to its check, and another split is taken on while it fetches. -/
def inFlight : List Move :=
  threads 4 ++ .ask (.addSplits [.range ⟨"b", 0, 1⟩]) :: nudges ++ threads 1

/-- The cycle ends as stale, and when the reader is to fetch again, it has heard of both splits. -/
theorem taken_on_in_flight :
    ∃ begun weighed ended again : Station Backend,
      Course.follow step offCourse
          (fresh 0 (.ranges (.withLimits 1 0)) { queue := .ofCapacity 4 }) = some begun ∧
        Course.follow step (.thread [] :: inFlight) begun = some weighed ∧
          Course.follow step (threads 3) weighed = some ended ∧
            TurnsAway { waiting := [("a", [⟨0, "a:0"⟩])] } (.thread [] :: inFlight ++ threads 3)
                begun ended ∧
              Course.follow step (threads 3 ++ .cycle :: threads 5) weighed = some again ∧
                [.addition [.range ⟨"a", 0, 3⟩], .addition [.range ⟨"b", 0, 1⟩]] <+:
                  Course.gather step told
                    (.thread [] :: inFlight ++ (threads 3 ++ .cycle :: threads 5)) begun := by
  obtain ⟨begun, weighed, ended, again, hoff, hbegun, hwindow, hcycle, hphase, hended, hstays,
      hagain, hfetch, hnever, hnoted⟩ :
      ∃ begun weighed ended again : Station Backend,
        Course.follow step offCourse
            (fresh 0 (.ranges (.withLimits 1 0)) { queue := .ofCapacity 4 }) = some begun ∧
          begun.fetcher.phase = .starting ∧
            Course.follow step (.thread [] :: inFlight) begun = some weighed ∧
              Course.Never step Leaves (.thread [] :: inFlight) begun ∧
                weighed.fetcher.phase = .weighing { waiting := [("a", [⟨0, "a:0"⟩])] } ∧
        Course.follow step (threads 3) weighed = some ended ∧
          Course.Never step Leaves (threads 3) weighed ∧
            Course.follow step (threads 3 ++ .cycle :: threads 5) weighed = some again ∧
              again.fetcher.phase = .fetching ∧
                Course.Never step Forgets
                  (.thread [] :: inFlight ++ (threads 3 ++ .cycle :: threads 5)) begun ∧
        begun.fetcher.unheard ++ Course.gather step noted (.thread [] :: inFlight) begun =
          [.addition [.range ⟨"a", 0, 3⟩], .addition [.range ⟨"b", 0, 1⟩]] :=
    ⟨_, _, _, _, rfl, rfl, rfl, by decide +kernel, rfl, rfl, by decide +kernel, rfl, rfl,
      by decide +kernel, rfl⟩
  have hwoken : .nudge .requestWake ∈ inFlight := by simp [inFlight, nudges]
  refine ⟨begun, weighed, ended, again, hoff, hwindow, hended, ?_, hagain, ?_⟩
  · exact ((turned_away_iff_woken hbegun hwindow hcycle hphase hended).1 hstays).1 hwoken
  · rw [← hnoted]
    exact (turned_away_iff_woken hbegun hwindow hcycle hphase hagain).2.2 hfetch hnever

/-- While the cycle fetches, two splits are taken on, of which the first is not one for this
reader. -/
def misfit : List Move :=
  threads 4 ++ .ask (.addSplits [.file ⟨"x", "x"⟩]) ::
    (nudges ++ .ask (.addSplits [.range ⟨"b", 0, 1⟩]) :: nudges) ++ threads 1

/-- The cycle ends as stale, the reader refuses the first split in the next cycle, and when it is to
fetch again, it has not heard of the second one. -/
theorem fetches_without_news :
    ∃ begun weighed again : Station Backend,
      Course.follow step offCourse
          (fresh 0 (.ranges (.withLimits 1 0)) { queue := .ofCapacity 4 }) = some begun ∧
        begun.fetcher.phase = .starting ∧
          Course.follow step (.thread [] :: misfit) begun = some weighed ∧
            Course.Never step Leaves (.thread [] :: misfit) begun ∧
              (∃ batch, weighed.fetcher.phase = .weighing batch) ∧
                .nudge .requestWake ∈ misfit ∧
                  .addition [.range ⟨"b", 0, 1⟩] ∈ Course.gather step noted misfit begun ∧
        Course.follow step (threads 3 ++ .cycle :: threads 3 ++ .cycle :: threads 4) weighed =
            some again ∧
          again.fetcher.phase = .fetching ∧
            .addition [.range ⟨"b", 0, 1⟩] ∉ Course.gather step told
              (.thread [] :: misfit ++
                (threads 3 ++ .cycle :: threads 3 ++ .cycle :: threads 4)) begun := by
  refine ⟨_, _, _, rfl, rfl, rfl, ?_, ⟨_, rfl⟩, ?_, ?_, rfl, rfl, ?_⟩
  · decide +kernel
  · simp [misfit, nudges]
  · decide +kernel
  · decide +kernel

end Station

end SplitFeed
