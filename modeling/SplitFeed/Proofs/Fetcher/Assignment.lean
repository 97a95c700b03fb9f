/-
# The list of a fetcher's splits

Controls put splits on the list and take splits off it, and the thread crosses off those that
ended, all of them in any order and any number of times.  A call may name an id twice, or one that
is on the list, or one that nobody knows; a batch may tell the end of a split that was taken away
meanwhile.

One equation says what a move makes of the list (`assigned_step`): some splits leave it by their
ids, and some are put behind the others.  What the list is like after any moves (`Listed`) follows
from it: no id stands there twice, the splits stand in the order in which they came, and each split
that came is accounted for.
-/
import SplitFeed.Proofs.Fetcher.Account
import SplitFeed.Proofs.Fetcher.Farewell

namespace SplitFeed

namespace Duty

/-- The splits that are new to a list are those whose ids are not on it, the first one of
each id. -/
theorem newcomers_eq_eraseDupsBy (assigned splits : List Split) :
    newcomers assigned splits =
      (splits.filter fun split => split.id ∉ assigned.map Split.id).eraseDupsBy
        fun later earlier => later.id == earlier.id := by
  induction splits generalizing assigned with
  | nil => rfl
  | cons split rest ih =>
      by_cases hlisted : split.id ∈ assigned.map Split.id
      · have hany : assigned.any (·.id == split.id) = true := by
          obtain ⟨other, hother, hsame⟩ := List.mem_map.1 hlisted
          exact List.any_eq_true.2 ⟨other, hother, by simpa using hsame⟩
        rw [newcomers, if_pos hany, ih, List.filter_cons_of_neg (by simpa using hlisted)]
      · have hany : ¬ assigned.any (·.id == split.id) = true := by
          rw [List.any_eq_true]
          rintro ⟨other, hother, hsame⟩
          exact hlisted (List.mem_map.2 ⟨other, hother, by simpa using hsame⟩)
        rw [newcomers, if_neg hany, ih, List.filter_cons_of_pos (by simpa using hlisted),
          List.eraseDupsBy_cons, List.filter_filter]
        congr 2
        refine List.filter_congr fun other _ => ?_
        simp [not_or, and_comm]

/-- A list without the splits of some ids still names no id twice with its newcomers. -/
theorem nodup_filter_append_newcomers {assigned : List Split} (stays : Split → Bool)
    (splits : List Split) (honce : (assigned.map Split.id).Nodup) :
    ((assigned.filter stays ++ newcomers assigned splits).map Split.id).Nodup := by
  rw [List.map_append]
  exact (nodup_newcomers splits honce).sublist
    ((List.filter_sublist.map Split.id).append_right _)

end Duty

namespace Fetcher

variable {ρ : Type} [SplitReader ρ] {disturbed : List Bool} {f g : Fetcher ρ} {d e : Depot}

theorem closed_advance (hclosed : f.duty.closed = true) (h : Advance disturbed f d g e) :
    g.duty.closed = true := by
  cases h with
  | leave => rfl
  | _ => exact hclosed

/-! ### The batch at hand -/

/-- What the thread finds out about a batch before it books it. -/
inductive Finding where
  /-- The reader's fetch came back with it. -/
  | brought (batch : SplitBatch Record)
  /-- The thread looked whether a wake-up raced the fetch. -/
  | weighed (batch : SplitBatch Record) (stale : Bool)

/-- What the thread's next step finds out about a batch. -/
def findings (disturbed : List Bool) (f : Fetcher ρ) (d : Depot) : List Finding :=
  match f.phase with
  | .weighing batch => [.weighed batch f.wakeRequested]
  | _ => ((f.calls disturbed d).filterMap ReaderCall.brought).map .brought

/-- What was found out last about the batch at hand: the last fetch brought it, and a batch that is
about to be booked was not stale. -/
def Examined (found : List Finding) (f : Fetcher ρ) : Prop :=
  match f.phase with
  | .weighing batch => [.brought batch] <:+ found
  | .booking batch => [.brought batch, .weighed batch false] <:+ found
  | _ => True

theorem examined_advance {found : List Finding} (hf : f.Examined found)
    (h : Advance disturbed f d g e) : g.Examined (found ++ f.findings disturbed d) := by
  cases h with
  | fetch hphase hcall =>
      simp [Examined, findings, calls, hphase, hcall, ReaderCall.brought]
  | keep hphase hwake =>
      rw [Examined, hphase] at hf
      obtain ⟨earlier, rfl⟩ := hf
      exact ⟨earlier, by simp [findings, hphase, hwake]⟩
  | doze hphase | flush hphase | flushAgain hphase | flushShut hphase | flushDoze hphase =>
      simp [Examined, hphase]
  | _ => trivial

omit [SplitReader ρ] in
theorem examined_booked {found : List Finding} {batch : SplitBatch Record}
    (hf : f.Examined found) (hbooked : f.booked = some batch) :
    [.brought batch, .weighed batch false] <:+ found := by
  unfold booked at hbooked
  split at hbooked
  · next hphase =>
      obtain rfl := Option.some.inj hbooked
      rwa [Examined, hphase] at hf
  · cases hbooked

end Fetcher

namespace Station

variable {ρ : Type}

/-- The splits that are assigned, in the order in which they are read. -/
def assigned (station : Station ρ) : List Split := station.fetcher.duty.assigned

/-- The splits that a move puts on the list: of those that a call offers, the first one of each id
that is not on the list, unless the fetcher takes nothing on any more. -/
def takesOn (station : Station ρ) : Move → List Split
  | .ask (.addSplits splits) =>
    if station.fetcher.duty.refuses then []
    else (splits.filter fun split => split.id ∉ station.assigned.map Split.id).eraseDupsBy
      fun later earlier => later.id == earlier.id
  | _ => []

/-- The splits that a call is answered to have been let go. -/
def letsGo (station : Station ρ) : Move → List Split
  | .ask (.removeSplits ids) => station.fetcher.duty.named ids
  | _ => []

/-- The splits on the list that the batch which the thread books tells to have ended. -/
def crossesOff (station : Station ρ) : Move → List Split
  | .thread _ => station.assigned.filter fun split =>
      station.fetcher.booked.any (·.finished.contains split.id)
  | _ => []

/-- Whether splits of an id are on the list no more after a move. -/
def leaves (station : Station ρ) (move : Move) (id : String) : Bool :=
  match move with
  | .ask (.removeSplits ids) => ids.contains id
  | .thread _ => station.fetcher.booked.any (·.finished.contains id)
  | _ => false

/-- What leaves the list is let go by a call or crossed off by the thread. -/
theorem letsGo_append_crossesOff (station : Station ρ) (move : Move) :
    station.letsGo move ++ station.crossesOff move =
      station.assigned.filter fun split => station.leaves move split.id := by
  cases move with
  | thread disturbed => rfl
  | ask request =>
      cases request with
      | removeSplits ids => exact List.append_nil _
      | _ => exact (List.filter_false _).symm
  | _ => exact (List.filter_false _).symm

theorem takesOn_addSplits (station : Station ρ) (splits : List Split) :
    station.takesOn (.ask (.addSplits splits)) =
      if station.fetcher.duty.refuses then []
      else Duty.newcomers station.assigned splits := by
  rw [takesOn, Duty.newcomers_eq_eraseDupsBy]

/-- Whatever a move takes on is new to the list. -/
theorem exists_takesOn_eq (station : Station ρ) (move : Move) :
    ∃ splits, station.takesOn move = Duty.newcomers station.assigned splits := by
  unfold takesOn
  split
  · next splits =>
      rw [← Duty.newcomers_eq_eraseDupsBy]
      split
      · exact ⟨[], rfl⟩
      · exact ⟨splits, rfl⟩
  · exact ⟨[], rfl⟩

theorem takesOn_of_refuses {station : Station ρ} (h : station.fetcher.duty.refuses = true)
    (move : Move) : station.takesOn move = [] := by
  unfold takesOn
  split
  · rw [if_pos h]
  · rfl

variable [SplitReader ρ] {start station next last : Station ρ} {move : Move} {moves : List Move}

/-! ### What a move makes of the list -/

omit [SplitReader ρ] in
theorem assigned_enact (request : Request) (station : Station ρ) :
    (request.enact station.fetcher).1.duty.assigned =
      (station.assigned.filter fun split => !station.leaves (.ask request) split.id) ++
        station.takesOn (.ask request) := by
  cases request with
  | addSplits splits =>
      rw [takesOn_addSplits]
      simp only [Request.enact, leaves, Bool.not_false, List.filter_true]
      cases hrefuses : station.fetcher.duty.refuses with
      | true => simp [assigned]
      | false =>
          by_cases hnone : (Duty.newcomers station.fetcher.duty.assigned splits).isEmpty = true
          · simp [assigned, List.isEmpty_iff.1 hnone]
          · simp [hnone, assigned, Duty.assign]
  | removeSplits ids => exact (List.append_nil _).symm
  | stop mode =>
      simp only [Request.enact, leaves, takesOn, Bool.not_false, List.filter_true, List.append_nil]
      split <;> rfl
  | wakeUp | pause | resume | releaseLatch =>
      simp [Request.enact, leaves, takesOn, assigned]

/-- A move takes splits off the list by their ids, leaves the others as they stand, and puts what it
takes on behind them. -/
theorem assigned_step (h : station.step move = some next) :
    next.assigned = (station.assigned.filter fun split => !station.leaves move split.id) ++
      station.takesOn move := by
  cases move with
  | ask request =>
      obtain rfl := Option.some.inj h
      exact assigned_enact request station
  | thread disturbed =>
      rw [assigned, Fetcher.assigned_eq_of_advance (step_thread h).1]
      exact (List.append_nil _).symm
  | cycle | loop =>
      simp only [step, Option.ite_none_right_eq_some, Option.some.injEq] at h
      obtain ⟨-, rfl⟩ := h
      simp [leaves, takesOn, assigned, Fetcher.beginCycle, Fetcher.beginLoop, Fetcher.enter]
  | nudge nudge =>
      obtain rfl := Option.some.inj h
      cases nudge <;> simp [leaves, takesOn, assigned]
  | timeOut | queue _ | files _ =>
      obtain rfl := Option.some.inj h
      simp [leaves, takesOn, assigned, Fetcher.timeOut]

/-- No move puts an id on the list that is there. -/
theorem once_step (honce : (station.assigned.map Split.id).Nodup)
    (h : station.step move = some next) : (next.assigned.map Split.id).Nodup := by
  obtain ⟨splits, hnew⟩ := station.exists_takesOn_eq move
  rw [assigned_step h, hnew]
  exact Duty.nodup_filter_append_newcomers _ splits honce

/-- What was on the list and what comes is let go, crossed off or on the list afterwards. -/
theorem balanced_step (h : station.step move = some next) :
    (station.assigned ++ station.takesOn move).Perm
      ((station.letsGo move ++ station.crossesOff move) ++ next.assigned) := by
  rw [letsGo_append_crossesOff, assigned_step h, ← List.append_assoc]
  exact (List.filter_append_perm _ _).symm.append_right _

/-! ### A fetcher that takes nothing on -/

/-- A fetcher that was asked to stop goes on being asked to. -/
theorem isSome_stop_step (hstop : station.fetcher.duty.stop.isSome = true)
    (h : station.step move = some next) : next.fetcher.duty.stop.isSome = true := by
  obtain ⟨mode, hmode⟩ := Option.isSome_iff_exists.1 hstop
  exact Option.isSome_iff_exists.2 ⟨mode, stop_step hmode h⟩

/-- A fetcher that takes nothing on goes on so. -/
theorem refuses_step (hrefuses : station.fetcher.duty.refuses = true)
    (h : station.step move = some next) : next.fetcher.duty.refuses = true := by
  rcases Bool.or_eq_true_iff.1 hrefuses with hclosed | hstop
  · refine Bool.or_eq_true_iff.2 (.inl ?_)
    cases turn_of_step h with
    | cycle _ hnext | loop _ hnext => exact hnext ▸ hclosed
    | thread hadvance _ => exact Fetcher.closed_advance hclosed hadvance
    | beside _ hsame => exact hsame.closed.trans hclosed
  · exact Bool.or_eq_true_iff.2 (.inr (isSome_stop_step hstop h))

omit [SplitReader ρ] in
/-- Whoever was asked to stop is to stop. -/
theorem isSome_stop_enact (mode : StopMode) (f : Fetcher ρ) :
    ((Request.stop mode).enact f).1.duty.stop.isSome = true := by
  cases hstop : f.duty.stop <;> simp [Request.enact, hstop]

/-- After a request to stop, a fetcher is to stop. -/
theorem isSome_stop_of_mem {mode : StopMode} (hmem : .ask (.stop mode) ∈ moves)
    (h : Course.follow step moves station = some last) :
    last.fetcher.duty.stop.isSome = true := by
  obtain ⟨before, after, rfl⟩ := List.append_of_mem hmem
  rw [Course.follow_append, Option.bind_eq_some_iff] at h
  obtain ⟨mid, -, hlater⟩ := h
  obtain ⟨next, hmove, hrest⟩ := Course.follow_cons_eq_some.1 hlater
  obtain rfl := Option.some.inj hmove
  exact Course.follow_preserves (fun station => station.fetcher.duty.stop.isSome = true)
    isSome_stop_step hrest (isSome_stop_enact mode mid.fetcher)

/-- What a fetcher that takes nothing on comes to: nothing came since, and of its list some may have
gone. -/
structure Dwindles (before : Station ρ) (taken : List Split) (station : Station ρ) : Prop where
  refuses : station.fetcher.duty.refuses = true
  nothing : taken = []
  rest : station.assigned.Sublist before.assigned

theorem dwindles_step {taken : List Split} (hd : Dwindles start taken station)
    (h : station.step move = some next) : Dwindles start (taken ++ station.takesOn move) next where
  refuses := refuses_step hd.refuses h
  nothing := by rw [hd.nothing, takesOn_of_refuses hd.refuses, List.append_nil]
  rest := by
    rw [assigned_step h, takesOn_of_refuses hd.refuses, List.append_nil]
    exact List.filter_sublist.trans hd.rest

/-! ### The batches that are booked -/

theorem examined_step {found : List Fetcher.Finding} (hex : station.fetcher.Examined found)
    (h : station.step move = some next) :
    next.fetcher.Examined (found ++ station.byThread Fetcher.findings move) := by
  cases turn_of_step h with
  | cycle _ hnext | loop _ hnext => exact hnext ▸ trivial
  | thread hadvance _ => exact Fetcher.examined_advance hex hadvance
  | beside hmove hsame =>
      rw [byThread_of_beside hmove, List.append_nil]
      rwa [Fetcher.Examined, hsame.phase]

/-! ### The list after any moves -/

/-- What the list of a station is like after some moves, and what any next move makes of it. -/
structure Listed (moves : List Move) (start station : Station ρ) : Prop where
  /-- No id stands on the list twice. -/
  once : (station.assigned.map Split.id).Nodup
  /-- The splits stand in the order in which they were taken on. -/
  inOrder : station.assigned.Sublist (Course.gather step takesOn moves start)
  /-- Every split that was taken on was let go, was crossed off or is on the list. -/
  accounted : (Course.gather step takesOn moves start).Perm
    (Course.gather step letsGo moves start ++ Course.gather step crossesOff moves start ++
      station.assigned)
  /-- The next move takes splits off by their ids and puts what it takes on behind the others. -/
  moved : ∀ {move next}, step move station = some next →
    next.assigned = (station.assigned.filter fun split => !station.leaves move split.id) ++
      station.takesOn move
  /-- A call that lets splits go answers those of the given ids, in the order of the list. -/
  answered : ∀ ids, (station.letsGo (.ask (.removeSplits ids))).Sublist station.assigned ∧
    ∀ split, split ∈ station.letsGo (.ask (.removeSplits ids)) ↔
      split ∈ station.assigned ∧ split.id ∈ ids
  /-- The thread crosses off only what a batch tells that its last fetch brought and that was not
  stale. -/
  booked : ∀ batch, station.fetcher.booked = some batch → ∃ earlier,
    Course.gather step (byThread Fetcher.findings) moves start =
      earlier ++ [.brought batch, .weighed batch false]
  /-- A fetcher that was asked to stop is to stop. -/
  stopped : (∃ mode, .ask (.stop mode) ∈ moves) → station.fetcher.duty.stop.isSome = true
  /-- A fetcher that is to stop, or is closed, takes nothing on whatever happens. -/
  shut : station.fetcher.duty.stop.isSome = true ∨ station.fetcher.duty.closed = true →
    ∀ {more last}, Course.follow step more station = some last →
      Course.gather step takesOn more station = [] ∧ last.assigned.Sublist station.assigned

omit [SplitReader ρ] in
theorem mem_letsGo {ids : List String} {split : Split} :
    split ∈ station.letsGo (.ask (.removeSplits ids)) ↔
      split ∈ station.assigned ∧ split.id ∈ ids := by
  simp [letsGo, Duty.named, assigned]

/-- Whatever is asked of a fetcher and in whatever order, and whatever its thread does in between,
its list of splits is in order. -/
theorem assignment_kept {id : Nat} {reader : ρ} {depot : Depot}
    (h : Course.follow step moves (fresh id reader depot) = some station) :
    Listed moves (fresh id reader depot) station where
  once := Course.follow_preserves (fun station => (station.assigned.map Split.id).Nodup)
    once_step h .nil
  inOrder := by
    have hfirst : (fresh id reader depot).assigned.Sublist [] := .slnil
    refine Course.follow_gathers
      (fun taken station => station.assigned.Sublist taken) (fun hsub hmove => ?_) h hfirst
    rw [assigned_step hmove]
    exact (List.filter_sublist.trans hsub).append_right _
  accounted := by
    refine (Course.gather_balance_perm balanced_step h).trans ?_
    exact (Course.gather_both_perm letsGo crossesOff moves _).append_right _
  moved := assigned_step
  answered ids := ⟨List.filter_sublist, fun _ => mem_letsGo⟩
  booked batch hbooked := by
    have hfirst : (fresh id reader depot).fetcher.Examined [] := trivial
    have hex := Course.follow_gathers
      (fun found station => station.fetcher.Examined found) examined_step h hfirst
    obtain ⟨earlier, hfound⟩ := Fetcher.examined_booked hex hbooked
    exact ⟨earlier, hfound.symm⟩
  stopped := fun ⟨_, hmem⟩ => isSome_stop_of_mem hmem h
  shut hshut _ _ hmore := by
    have hrefuses : station.fetcher.duty.refuses = true :=
      Bool.or_eq_true_iff.2 hshut.symm
    have hfirst : Dwindles station [] station := ⟨hrefuses, rfl, .refl _⟩
    have hlast := Course.follow_gathers (Dwindles station) dwindles_step hmore hfirst
    exact ⟨hlast.nothing, hlast.rest⟩

/-- Three ranges, of which one is offered twice, one is read to its end, one is taken away again
along with one that was never there; a fourth comes when the fetcher is to stop. -/
def reassigned : List Move :=
  [.ask (.addSplits [.range ⟨"a", 0, 2⟩, .range ⟨"b", 2, 4⟩, .range ⟨"a", 4, 6⟩]),
    .ask (.addSplits [.range ⟨"b", 6, 8⟩, .range ⟨"c", 8, 9⟩]), .cycle] ++ threads 9 ++
    [.ask (.removeSplits ["c", "z", "c"]), .ask (.stop .draining),
      .ask (.addSplits [.range ⟨"d", 9, 10⟩])]

/-- A fetcher whose reader fetches up to four records at a time. -/
def byFour : Station Backend := fresh 0 (.ranges (.withLimits 4 0)) { queue := .ofCapacity 1 }

/-- One range is left, one was crossed off and one was let go. -/
theorem one_range_left :
    ∃ last, Course.follow step reassigned byFour = some last ∧
      last.assigned.map Split.id = ["b"] ∧
      (Course.gather step letsGo reassigned byFour).map Split.id = ["c"] ∧
      (Course.gather step crossesOff reassigned byFour).map Split.id = ["a"] ∧
      Listed reassigned byFour last := by
  refine ⟨_, rfl, ?_, ?_, ?_, assignment_kept rfl⟩
  · decide
  · decide
  · decide

end Station

end SplitFeed
