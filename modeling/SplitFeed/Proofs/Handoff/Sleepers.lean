/-
# Who sleeps at the queue, and why

A producer in a full queue's put and a consumer in an empty queue's take sleep in wait sets.  They
are let go by whoever changes what they wait for: everybody by a close, by a wake-up, and the
producers by whoever takes an element away; but an element that is put in lets only one consumer go,
whichever it is, and others may take the element before that one comes to it.

So the consumers are watched all together: as long as one of them sleeps, there are at least as many
takes under way as consumers asleep and elements in the queue.  When nobody who is awake has a call
under way, that leaves no element for those who sleep.
-/
import SplitFeed.Handoff.Dock
import SplitFeed.Proofs.Course
import SplitFeed.Proofs.Handoff.Moves
import Mathlib.Data.List.Nodup
import Mathlib.Data.List.Perm.Subperm

namespace SplitFeed

namespace HandoffQueue

variable {α : Type}

theorem consumerWoken_accept (producer : Nat) (element : α) (queue : HandoffQueue α) :
    (queue.accept producer element).consumerWoken = queue.consumerWoken := by
  unfold accept
  split <;> rfl

/-- A producer that falls asleep was not woken. -/
theorem unwoken_of_asleep {thread producer : Nat} {element : α} {queue after : HandoffQueue α}
    (h : queue.put thread producer element = (.asleep, after)) :
    producer ∉ queue.wokenProducers := by
  intro hwoken
  simp only [put, hwoken, ↓reduceIte] at h
  split at h
  · cases h
  · split at h <;> cases h

end HandoffQueue

namespace DockCall

variable {α : Type}

/-- Whether a call wants an element. -/
def isTake : DockCall α → Bool
  | take => true
  | put _ _ => false

end DockCall

namespace Dock

variable {α : Type}

/-! ### Threads at the queue -/

/-- What threads can do next at a dock. -/
inductive Move (α : Type) where
  /-- A thread that has no call under way starts one. -/
  | start (thread : Nat) (call : DockCall α)
  /-- A thread that is awake goes on with its call. -/
  | retry (thread : Nat)
  | poll
  | availability
  | notifyAvailable
  | close
  | wakeProducer (producer : Nat)
  | wakeConsumer
  /-- A thread leaves its wait set without anybody having let it go. -/
  | stir (thread : Nat)
  /-- The wait sets have no order: whoever is let go next may be anybody in them. -/
  | shuffle (asleepInPut asleepInTake : List Nat)

/-- A dock that nobody has used. -/
def opened (capacity : Nat) : Dock α := { queue := .ofCapacity capacity }

/-- The dock after a thread went on with its call. -/
def retry (thread : Nat) (call : DockCall α) (dock : Dock α) : Dock α :=
  match attempt thread call dock.queue with
  | (some _, queue) => { queue, underWay := dock.underWay.filter (·.1 != thread) }
  | (none, queue) => { dock with queue }

/-- The dock after a move, if the move can be made. -/
def step (move : Move α) (dock : Dock α) : Option (Dock α) :=
  let queue := dock.queue
  match move with
  | .start thread call =>
    if thread ∈ dock.underWay.map Prod.fst then none else some (dock.start thread call).2
  | .retry thread =>
    match dock.underWay.find? (·.1 == thread) with
    | some (_, call) => if isAsleep thread queue then none else some (dock.retry thread call)
    | none => none
  | .poll => some { dock with queue := queue.poll.2 }
  | .availability => some { dock with queue := queue.availability.2 }
  | .notifyAvailable => some { dock with queue := queue.notifyAvailable }
  | .close => some { dock with queue := queue.close }
  | .wakeProducer producer => some { dock with queue := queue.wakeProducer producer }
  | .wakeConsumer => some { dock with queue := queue.wakeConsumer }
  | .stir thread =>
    some { dock with queue := { queue with
      asleepInPut := queue.asleepInPut.erase thread
      asleepInTake := queue.asleepInTake.erase thread } }
  | .shuffle asleepInPut asleepInTake =>
    if asleepInPut.Perm queue.asleepInPut ∧ asleepInTake.Perm queue.asleepInTake then
      some { dock with queue := { queue with asleepInPut, asleepInTake } }
    else none

/-- No thread can go on with a call: those that are under way are all asleep. -/
def IsSettled (dock : Dock α) : Prop :=
  ∀ thread, step (.retry thread) dock = none

/-- How many takes are under way. -/
def takers (calls : List (Nat × DockCall α)) : Nat := calls.countP (·.2.isTake)

/-- How many takes are under way by threads that are awake. -/
def awakeTakers (dock : Dock α) : Nat :=
  dock.underWay.countP fun (thread, call) => call.isTake && !isAsleep thread dock.queue

/-! ### What keeps sleepers from being left behind -/

/-- Every thread has one call and sleeps in the wait set where that belongs, if it sleeps.
Producers sleep at a full, open queue and without a wake-up; while consumers sleep, the queue is
open, nobody has woken them, and there are takes enough under way for them and for the elements. -/
structure Watchful (dock : Dock α) : Prop where
  once : (dock.underWay.map Prod.fst).Nodup
  oncePut : dock.queue.asleepInPut.Nodup
  onceTake : dock.queue.asleepInTake.Nodup
  puts : ∀ thread ∈ dock.queue.asleepInPut, ∃ producer element,
    (thread, .put producer element) ∈ dock.underWay
  takes : ∀ thread ∈ dock.queue.asleepInTake, (thread, .take) ∈ dock.underWay
  fits : dock.queue.items.length ≤ dock.queue.capacity
  full : dock.queue.asleepInPut ≠ [] →
    dock.queue.closed = false ∧ dock.queue.items.length = dock.queue.capacity
  unwoken : ∀ thread producer element, (thread, .put producer element) ∈ dock.underWay →
    thread ∈ dock.queue.asleepInPut → producer ∉ dock.queue.wokenProducers
  vain : dock.queue.asleepInTake ≠ [] →
    dock.queue.closed = false ∧ dock.queue.consumerWoken = false ∧
      dock.queue.items.length + dock.queue.asleepInTake.length ≤ takers dock.underWay

variable {dock next : Dock α} {queue : HandoffQueue α} {thread : Nat} {call : DockCall α}
  {move : Move α} {calls : List (Nat × DockCall α)} {sleepers : List Nat}

/-- Different threads that take are at most as many as there are takes under way. -/
theorem length_le_takers (honce : sleepers.Nodup)
    (htakes : ∀ thread ∈ sleepers, (thread, DockCall.take) ∈ calls) :
    sleepers.length ≤ takers calls := by
  have hsub : sleepers ⊆ (calls.filter (·.2.isTake)).map Prod.fst := fun thread hmem =>
    List.mem_map.2 ⟨_, List.mem_filter.2 ⟨htakes thread hmem, rfl⟩, rfl⟩
  have hlength := (List.subperm_of_subset honce hsub).length_le
  rwa [List.length_map, ← List.countP_eq_length_filter] at hlength

/-- If all takes under way are by sleepers, there are at most as many. -/
theorem takers_le_length (honce : (calls.map Prod.fst).Nodup)
    (hall : ∀ thread, (thread, DockCall.take) ∈ calls → thread ∈ sleepers) :
    takers calls ≤ sleepers.length := by
  have hsub : (calls.filter (·.2.isTake)).map Prod.fst ⊆ sleepers := by
    intro thread hmem
    obtain ⟨⟨_, call⟩, hcall, rfl⟩ := List.mem_map.1 hmem
    obtain ⟨hcalls, htakes⟩ := List.mem_filter.1 hcall
    cases call with
    | take => exact hall _ hcalls
    | put _ _ => cases htakes
  have hlength := (List.subperm_of_subset
    (honce.sublist (List.filter_sublist.map Prod.fst)) hsub).length_le
  rwa [List.length_map, ← List.countP_eq_length_filter] at hlength

/-- Without a thread's call there are as many takes as before, or one less if it was one. -/
theorem takers_filter (honce : (calls.map Prod.fst).Nodup) (hcall : (thread, call) ∈ calls) :
    takers (calls.filter (·.1 != thread)) + call.isTake.toNat = takers calls := by
  induction calls with
  | nil => cases hcall
  | cons first rest ih =>
      obtain ⟨hfirst, hrest⟩ := List.nodup_cons.1 honce
      rcases List.mem_cons.1 hcall with rfl | hlater
      · have hall : rest.filter (·.1 != thread) = rest :=
          List.filter_eq_self.2 fun other hmem => by
            have hother : other.1 ∈ rest.map Prod.fst := List.mem_map_of_mem hmem
            simpa using fun hsame : other.1 = thread => hfirst (hsame ▸ hother)
        rw [List.filter_cons_of_neg (by simp), hall, takers, takers, List.countP_cons]
        cases call.isTake <;> rfl
      · have hne : first.1 ≠ thread := fun hsame =>
          hfirst (hsame ▸ List.mem_map_of_mem (f := Prod.fst) hlater)
        rw [List.filter_cons_of_pos (by simpa using hne), takers, takers, List.countP_cons,
          List.countP_cons, ← takers, ← takers, ← ih hrest hlater]
        omega

/-- A thread has one call under way. -/
theorem eq_of_once {other : DockCall α} (honce : (calls.map Prod.fst).Nodup)
    (hcall : (thread, call) ∈ calls) (hother : (thread, other) ∈ calls) : call = other :=
  congrArg Prod.snd (List.inj_on_of_nodup_map honce hcall hother rfl)

theorem watchful_opened (capacity : Nat) : Watchful (opened capacity : Dock α) where
  once := List.nodup_nil
  oncePut := List.nodup_nil
  onceTake := List.nodup_nil
  puts := fun _ hmem => (List.not_mem_nil hmem).elim
  takes := fun _ hmem => (List.not_mem_nil hmem).elim
  fits := Nat.zero_le _
  full := fun hne => absurd rfl hne
  unwoken := fun _ _ _ hmem => (List.not_mem_nil hmem).elim
  vain := fun hne => absurd rfl hne

/-- Sleepers may be let go, and for those who stay nothing gets worse. -/
theorem watchful_less (h : Watchful dock) (hputs : queue.asleepInPut.Subperm dock.queue.asleepInPut)
    (htakes : queue.asleepInTake.Subperm dock.queue.asleepInTake)
    (hfits : queue.items.length ≤ queue.capacity)
    (hfull : queue.asleepInPut ≠ [] → queue.closed = dock.queue.closed ∧
      queue.items.length = dock.queue.items.length ∧ queue.capacity = dock.queue.capacity ∧
        queue.wokenProducers ⊆ dock.queue.wokenProducers)
    (hvain : queue.asleepInTake ≠ [] → queue.closed = dock.queue.closed ∧
      queue.consumerWoken = dock.queue.consumerWoken ∧
        queue.items.length + queue.asleepInTake.length ≤
          dock.queue.items.length + dock.queue.asleepInTake.length) :
    Watchful { dock with queue } where
  once := h.once
  oncePut := hputs.elim fun _ hsub => hsub.1.nodup_iff.1 (h.oncePut.sublist hsub.2)
  onceTake := htakes.elim fun _ hsub => hsub.1.nodup_iff.1 (h.onceTake.sublist hsub.2)
  puts := fun thread hmem => h.puts thread (hputs.subset hmem)
  takes := fun thread hmem => h.takes thread (htakes.subset hmem)
  fits := hfits
  full := fun hne => by
    obtain ⟨hclosed, hlength, hcapacity, -⟩ := hfull hne
    have hbefore := h.full fun hnil => hne (List.subperm_nil.1 (hnil ▸ hputs))
    exact ⟨hclosed.trans hbefore.1, (hlength.trans hbefore.2).trans hcapacity.symm⟩
  unwoken := fun thread producer element hcall hmem hwoken =>
    h.unwoken thread producer element hcall (hputs.subset hmem)
      ((hfull (List.ne_nil_of_mem hmem)).2.2.2 hwoken)
  vain := fun hne => by
    obtain ⟨hclosed, hwoken, hlength⟩ := hvain hne
    have hbefore := h.vain fun hnil => hne (List.subperm_nil.1 (hnil ▸ htakes))
    exact ⟨hclosed.trans hbefore.1, hwoken.trans hbefore.2.1, Nat.le_trans hlength hbefore.2.2⟩

/-- Bells make no difference. -/
theorem watchful_availability (h : Watchful dock) :
    Watchful { dock with queue := dock.queue.availability.2 } := by
  have hidle : ∃ bells bell,
      dock.queue.availability.2 = { dock.queue with bells, bell } := by
    unfold HandoffQueue.availability
    split
    · exact ⟨_, _, rfl⟩
    · split
      · exact ⟨_, _, rfl⟩
      · exact ⟨_, _, rfl⟩
  obtain ⟨bells, bell, hsame⟩ := hidle
  rw [hsame]
  exact watchful_less h (.refl _) (.refl _) h.fits
    (fun _ => ⟨rfl, rfl, rfl, List.Subset.refl _⟩) fun _ => ⟨rfl, rfl, Nat.le_refl _⟩

/-- A thread may start a call if it has none. -/
theorem watchful_called (h : Watchful dock) (hnew : thread ∉ dock.underWay.map Prod.fst)
    (call : DockCall α) :
    Watchful { dock with underWay := dock.underWay ++ [(thread, call)] } where
  once := by
    rw [List.map_append]
    refine List.nodup_append.2 ⟨h.once, List.nodup_cons.2 ⟨List.not_mem_nil, .nil⟩, ?_⟩
    exact fun other hmem _ hlast hsame => hnew (by rwa [hsame, List.mem_singleton.1 hlast] at hmem)
  oncePut := h.oncePut
  onceTake := h.onceTake
  puts := fun other hmem => by
    obtain ⟨producer, element, hcall⟩ := h.puts other hmem
    exact ⟨producer, element, List.mem_append_left _ hcall⟩
  takes := fun other hmem => List.mem_append_left _ (h.takes other hmem)
  fits := h.fits
  full := h.full
  unwoken := fun other producer element hcall hmem => by
    obtain ⟨_, _, hasleep⟩ := h.puts other hmem
    rcases List.mem_append.1 hcall with hold | hlast
    · exact h.unwoken other producer element hold hmem
    · obtain ⟨rfl, -⟩ := Prod.mk.inj (List.mem_singleton.1 hlast)
      exact absurd (List.mem_map_of_mem hasleep) hnew
  vain := fun hne => by
    obtain ⟨hclosed, hwoken, hlength⟩ := h.vain hne
    refine ⟨hclosed, hwoken, Nat.le_trans hlength ?_⟩
    rw [takers, takers, List.countP_append]
    exact Nat.le_add_right _ _

/-- A thread that is awake may leave with its call; if that is a take, the others must be enough
without it. -/
theorem watchful_leave (h : Watchful dock) (hcall : (thread, call) ∈ dock.underWay)
    (hput : thread ∉ dock.queue.asleepInPut) (htake : thread ∉ dock.queue.asleepInTake)
    (henough : call.isTake = true → dock.queue.asleepInTake ≠ [] →
      dock.queue.items.length + dock.queue.asleepInTake.length < takers dock.underWay) :
    Watchful { dock with underWay := dock.underWay.filter (·.1 != thread) } where
  once := h.once.sublist (List.filter_sublist.map Prod.fst)
  oncePut := h.oncePut
  onceTake := h.onceTake
  puts := fun other hmem => by
    obtain ⟨producer, element, hother⟩ := h.puts other hmem
    have hne : other ≠ thread := fun hsame => hput (hsame ▸ hmem)
    exact ⟨producer, element, List.mem_filter.2 ⟨hother, by simpa using hne⟩⟩
  takes := fun other hmem => by
    have hne : other ≠ thread := fun hsame => htake (hsame ▸ hmem)
    exact List.mem_filter.2 ⟨h.takes other hmem, by simpa using hne⟩
  fits := h.fits
  full := h.full
  unwoken := fun other producer element hother =>
    h.unwoken other producer element (List.mem_filter.1 hother).1
  vain := fun hne => by
    obtain ⟨hclosed, hwoken, hlength⟩ := h.vain hne
    refine ⟨hclosed, hwoken, ?_⟩
    -- The calls of other threads are all calls but this one.
    have hothers : takers (dock.underWay.filter (·.1 != thread)) + call.isTake.toNat =
        takers dock.underWay := takers_filter h.once hcall
    cases htakes : call.isTake with
    | false => simpa [htakes, ← hothers] using hlength
    | true =>
        have hslack := henough htakes hne
        rw [← hothers, htakes] at hslack
        exact Nat.le_of_lt_succ hslack

/-- An awake thread goes on with a put. -/
theorem watchful_put {producer : Nat} {element : α} (h : Watchful dock)
    (hcall : (thread, .put producer element) ∈ dock.underWay)
    (hput : thread ∉ dock.queue.asleepInPut) (htake : thread ∉ dock.queue.asleepInTake) :
    Watchful (dock.retry thread (.put producer element)) := by
  -- A put that ends leaves everybody asleep who is not let go.
  have hends {queue : HandoffQueue α} (hless : Watchful { dock with queue })
      (hputs : queue.asleepInPut = dock.queue.asleepInPut)
      (htakes : queue.asleepInTake.Sublist dock.queue.asleepInTake) :
      Watchful { queue, underWay := dock.underWay.filter (·.1 != thread) } :=
    watchful_leave hless hcall (hputs ▸ hput)
      (fun hmem => htake (htakes.subset hmem)) nofun
  unfold retry attempt
  obtain ⟨-, hresult⟩ | ⟨-, hroom, hresult⟩ | ⟨-, -, hresult⟩ | ⟨hopen, hfull, hresult⟩ :=
    dock.queue.put_cases thread producer element <;> simp only [hresult]
  · exact hends h rfl (List.Sublist.refl _)
  · have htakers : (dock.queue.accept producer element).asleepInTake =
        dock.queue.asleepInTake.tail :=
      HandoffQueue.asleepInTake_accept ..
    have hawake : dock.queue.asleepInPut = [] := by
      by_contra hne
      exact absurd (h.full hne).2 (Nat.ne_of_lt hroom)
    refine hends (watchful_less h ?_ ?_ ?_ ?_ ?_) (HandoffQueue.asleepInPut_accept ..) ?_
    · rw [HandoffQueue.asleepInPut_accept]
    · rw [htakers]
      exact (List.tail_sublist _).subperm
    · simpa using Nat.succ_le_of_lt hroom
    · rw [HandoffQueue.asleepInPut_accept, hawake]
      exact fun hne => absurd rfl hne
    · rw [htakers]
      intro hne
      refine ⟨by simp, HandoffQueue.consumerWoken_accept .., ?_⟩
      have hsome : dock.queue.asleepInTake ≠ [] := fun hnil => hne (by rw [hnil]; rfl)
      have hlength := List.length_pos_of_ne_nil hsome
      simp only [HandoffQueue.items_accept, List.length_append, List.length_singleton,
        List.length_tail]
      omega
    · rw [htakers]
      exact List.tail_sublist _
  · refine hends (watchful_less h (.refl _) (.refl _) h.fits (fun _ => ⟨rfl, rfl, rfl, ?_⟩)
      fun _ => ⟨rfl, rfl, Nat.le_refl _⟩) rfl (List.Sublist.refl _)
    exact List.erase_subset
  · have hnoRoom : dock.queue.items.length = dock.queue.capacity := Nat.le_antisymm h.fits hfull
    have hunwoken := HandoffQueue.unwoken_of_asleep hresult
    refine {
      h with
      oncePut := List.nodup_append.2 ⟨h.oncePut, List.nodup_cons.2 ⟨List.not_mem_nil, .nil⟩, ?_⟩
      puts := fun other hmem => ?_
      full := fun _ => ⟨hopen, hnoRoom⟩
      unwoken := fun other producer' element' hother hmem => ?_ }
    · intro other hmem _ hlast hsame
      exact hput (by rwa [hsame, List.mem_singleton.1 hlast] at hmem)
    · rcases List.mem_append.1 hmem with hold | hlast
      · exact h.puts other hold
      · exact ⟨producer, element, List.mem_singleton.1 hlast ▸ hcall⟩
    · rcases List.mem_append.1 hmem with hold | hlast
      · exact h.unwoken other producer' element' hother hold
      · obtain rfl := List.mem_singleton.1 hlast
        have hsame := eq_of_once h.once hother hcall
        cases hsame
        exact hunwoken

/-- An awake thread goes on with a take. -/
theorem watchful_take (h : Watchful dock) (hcall : (thread, .take) ∈ dock.underWay)
    (hput : thread ∉ dock.queue.asleepInPut) (htake : thread ∉ dock.queue.asleepInTake) :
    Watchful (dock.retry thread .take) := by
  unfold retry attempt
  obtain ⟨head, rest, hitems, hresult⟩ | ⟨hclosed, hresult⟩ | ⟨hwoken, hresult⟩ |
    ⟨hitems, hopen, hunwoken, hresult⟩ := dock.queue.take_cases thread <;> simp only [hresult]
  · -- One element less, and one take less under way.
    have hlength : dock.queue.items.length = rest.length + 1 := by rw [hitems]; rfl
    have hless : Watchful { dock with
        queue := { dock.queue with items := rest, asleepInPut := [] } } := by
      refine watchful_less h (List.nil_subperm) (.refl _) ?_ (fun hne => absurd rfl hne)
        fun _ => ⟨rfl, rfl, ?_⟩
      · exact Nat.le_trans (hlength ▸ Nat.le_succ _) h.fits
      · simp only [hlength]
        omega
    refine watchful_leave hless hcall List.not_mem_nil htake fun _ hne => ?_
    have hbefore := (h.vain hne).2.2
    simp only [hlength] at hbefore ⊢
    omega
  · refine watchful_leave h hcall hput htake fun _ hne => ?_
    simp [(h.vain hne).1] at hclosed
  · have hnobody : dock.queue.asleepInTake = [] := by
      by_contra hne
      simp [(h.vain hne).2.1] at hwoken
    have hless : Watchful { dock with queue := { dock.queue with consumerWoken := false } } :=
      watchful_less h (.refl _) (.refl _) h.fits
        (fun _ => ⟨rfl, rfl, rfl, List.Subset.refl _⟩) fun hne => absurd hnobody hne
    exact watchful_leave hless hcall hput htake fun _ hne => absurd hnobody hne
  · have hnew : (dock.queue.asleepInTake ++ [thread]).Nodup :=
      List.nodup_append.2 ⟨h.onceTake, List.nodup_cons.2 ⟨List.not_mem_nil, .nil⟩,
        fun other hmem _ hlast hsame => htake (by rwa [hsame, List.mem_singleton.1 hlast] at hmem)⟩
    have htakes : ∀ other ∈ dock.queue.asleepInTake ++ [thread],
        (other, DockCall.take) ∈ dock.underWay := by
      intro other hmem
      rcases List.mem_append.1 hmem with hold | hlast
      · exact h.takes other hold
      · exact List.mem_singleton.1 hlast ▸ hcall
    refine { h with
      onceTake := hnew
      takes := htakes
      vain := fun _ => ⟨hopen, hunwoken, ?_⟩ }
    have henough := length_le_takers hnew htakes
    simpa [hitems] using henough

theorem watchful_retry (h : Watchful dock) (hcall : (thread, call) ∈ dock.underWay)
    (hawake : isAsleep thread dock.queue = false) : Watchful (dock.retry thread call) := by
  simp only [isAsleep, Bool.or_eq_false_iff, decide_eq_false_iff_not] at hawake
  cases call with
  | put producer element => exact watchful_put h hcall hawake.1 hawake.2
  | take => exact watchful_take h hcall hawake.1 hawake.2

/-- To start a call is to go on with one that is under way already. -/
theorem start_eq_retry (hnew : thread ∉ dock.underWay.map Prod.fst) (call : DockCall α) :
    (dock.start thread call).2 =
      ({ dock with underWay := dock.underWay ++ [(thread, call)] } : Dock α).retry thread call := by
  have hothers : dock.underWay.filter (·.1 != thread) = dock.underWay :=
    List.filter_eq_self.2 fun other hmem => by
      have hother : other.1 ∈ dock.underWay.map Prod.fst := List.mem_map_of_mem hmem
      simpa using fun hsame : other.1 = thread => hnew (hsame ▸ hother)
  unfold start retry
  cases hattempt : attempt thread call dock.queue with
  | mk result queue => cases result <;> simp [List.filter_append, hothers]

theorem watchful_step (h : Watchful dock) (hstep : step move dock = some next) :
    Watchful next := by
  cases move with
  | start thread call =>
      simp only [step] at hstep
      split at hstep
      · cases hstep
      · next hnew =>
          obtain rfl := Option.some.inj hstep
          rw [start_eq_retry hnew]
          refine watchful_retry (watchful_called h hnew call)
            (List.mem_append_right _ List.mem_cons_self) ?_
          simp only [isAsleep, Bool.or_eq_false_iff, decide_eq_false_iff_not]
          constructor
          · intro hmem
            obtain ⟨_, _, hcall⟩ := h.puts thread hmem
            exact hnew (List.mem_map_of_mem hcall)
          · exact fun hmem => hnew (List.mem_map_of_mem (h.takes thread hmem))
  | retry thread =>
      simp only [step] at hstep
      split at hstep
      · next other call hfound =>
          obtain rfl : other = thread := by simpa using List.find?_some hfound
          split at hstep
          · cases hstep
          · next hawake =>
              obtain rfl := Option.some.inj hstep
              exact watchful_retry h (List.mem_of_find?_eq_some hfound) (Bool.eq_false_iff.2 hawake)
      · cases hstep
  | poll =>
      obtain rfl := Option.some.inj hstep
      cases hitems : dock.queue.items with
      | nil => simpa only [HandoffQueue.poll_nil hitems] using h
      | cons head rest =>
          have hlength : dock.queue.items.length = rest.length + 1 := by rw [hitems]; rfl
          simp only [HandoffQueue.poll_cons hitems]
          refine watchful_less h List.nil_subperm (.refl _) ?_ (fun hne => absurd rfl hne)
            fun _ => ⟨rfl, rfl, ?_⟩
          · exact Nat.le_trans (hlength ▸ Nat.le_succ _) h.fits
          · simp only [hlength]
            omega
  | availability =>
      obtain rfl := Option.some.inj hstep
      exact watchful_availability h
  | notifyAvailable =>
      obtain rfl := Option.some.inj hstep
      exact watchful_less h (.refl _) (.refl _) h.fits
        (fun _ => ⟨rfl, rfl, rfl, List.Subset.refl _⟩) fun _ => ⟨rfl, rfl, Nat.le_refl _⟩
  | close =>
      obtain rfl := Option.some.inj hstep
      exact watchful_less h List.nil_subperm List.nil_subperm h.fits (fun hne => absurd rfl hne)
        fun hne => absurd rfl hne
  | wakeProducer producer =>
      obtain rfl := Option.some.inj hstep
      exact watchful_less h List.nil_subperm (.refl _) h.fits (fun hne => absurd rfl hne)
        fun _ => ⟨rfl, rfl, Nat.le_refl _⟩
  | wakeConsumer =>
      obtain rfl := Option.some.inj hstep
      exact watchful_less h (.refl _) List.nil_subperm h.fits
        (fun _ => ⟨rfl, rfl, rfl, List.Subset.refl _⟩) fun hne => absurd rfl hne
  | stir thread =>
      obtain rfl := Option.some.inj hstep
      refine watchful_less h List.erase_sublist.subperm List.erase_sublist.subperm h.fits
        (fun _ => ⟨rfl, rfl, rfl, List.Subset.refl _⟩) fun _ => ⟨rfl, rfl, ?_⟩
      exact Nat.add_le_add_left (List.erase_sublist.length_le) _
  | shuffle asleepInPut asleepInTake =>
      simp only [step] at hstep
      split at hstep
      · next hperm =>
          obtain rfl := Option.some.inj hstep
          refine watchful_less h hperm.1.subperm hperm.2.subperm h.fits
            (fun _ => ⟨rfl, rfl, rfl, List.Subset.refl _⟩) fun _ => ⟨rfl, rfl, ?_⟩
          exact Nat.add_le_add_left (Nat.le_of_eq hperm.2.length_eq) _
      · cases hstep

/-! ### The result -/

/-- In a settled dock everybody with a call under way is asleep. -/
theorem asleep_of_isSettled (hsettled : dock.IsSettled) (hcall : (thread, call) ∈ dock.underWay) :
    isAsleep thread dock.queue = true := by
  have hstuck := hsettled thread
  simp only [step] at hstuck
  split at hstuck
  · next hfound =>
      split at hstuck
      · assumption
      · cases hstuck
  · next hnone =>
      have hnot := List.find?_eq_none.1 hnone (thread, call) hcall
      simp at hnot

theorem mem_asleepInPut {producer : Nat} {element : α} (h : Watchful dock)
    (hcall : (thread, .put producer element) ∈ dock.underWay)
    (hasleep : isAsleep thread dock.queue = true) : thread ∈ dock.queue.asleepInPut := by
  simp only [isAsleep, Bool.or_eq_true, decide_eq_true_eq] at hasleep
  refine hasleep.resolve_right fun hmem => ?_
  cases eq_of_once h.once hcall (h.takes thread hmem)

theorem mem_asleepInTake (h : Watchful dock) (hcall : (thread, .take) ∈ dock.underWay)
    (hasleep : isAsleep thread dock.queue = true) : thread ∈ dock.queue.asleepInTake := by
  simp only [isAsleep, Bool.or_eq_true, decide_eq_true_eq] at hasleep
  refine hasleep.resolve_left fun hmem => ?_
  obtain ⟨_, _, hother⟩ := h.puts thread hmem
  cases eq_of_once h.once hcall hother

/-- Takes that are under way are by sleepers or by threads that are awake. -/
theorem length_le_awakeTakers (h : Watchful dock)
    (henough : dock.queue.items.length + dock.queue.asleepInTake.length ≤ takers dock.underWay) :
    dock.queue.items.length ≤ dock.awakeTakers := by
  have hsleepers : takers (dock.underWay.filter fun entry => isAsleep entry.1 dock.queue) ≤
      dock.queue.asleepInTake.length := by
    refine takers_le_length (h.once.sublist (List.filter_sublist.map Prod.fst)) ?_
    intro thread hmem
    obtain ⟨hcall, hasleep⟩ := List.mem_filter.1 hmem
    exact mem_asleepInTake h hcall hasleep
  have hboth : takers dock.underWay =
      takers (dock.underWay.filter fun entry => isAsleep entry.1 dock.queue) +
        takers (dock.underWay.filter fun entry => !isAsleep entry.1 dock.queue) :=
    List.countP_eq_countP_filter_add ..
  have hawake : takers (dock.underWay.filter fun entry => !isAsleep entry.1 dock.queue) =
      dock.awakeTakers := List.countP_filter ..
  omega

/-- A producer that is asleep in its put waits for room, and nobody has woken it. -/
theorem full_of_asleep {producer : Nat} {element : α} (h : Watchful dock)
    (hcall : (thread, .put producer element) ∈ dock.underWay)
    (hasleep : isAsleep thread dock.queue = true) :
    dock.queue.items.length = dock.queue.capacity ∧ dock.queue.closed = false ∧
      producer ∉ dock.queue.wokenProducers := by
  have hmem := mem_asleepInPut h hcall hasleep
  obtain ⟨hopen, hfull⟩ := h.full (List.ne_nil_of_mem hmem)
  exact ⟨hfull, hopen, h.unwoken thread producer element hcall hmem⟩

/-- While a consumer is asleep in its take, others who are awake come for the elements. -/
theorem vain_of_asleep (h : Watchful dock) (hcall : (thread, .take) ∈ dock.underWay)
    (hasleep : isAsleep thread dock.queue = true) :
    dock.queue.closed = false ∧ dock.queue.consumerWoken = false ∧
      dock.queue.items.length ≤ dock.awakeTakers := by
  obtain ⟨hopen, hunwoken, henough⟩ :=
    h.vain (List.ne_nil_of_mem (mem_asleepInTake h hcall hasleep))
  exact ⟨hopen, hunwoken, length_le_awakeTakers h henough⟩

/-- When nobody can go on with a call, a take is under way only at an empty queue. -/
theorem empty_of_isSettled (h : Watchful dock) (hsettled : dock.IsSettled)
    (hcall : (thread, .take) ∈ dock.underWay) :
    dock.queue.items = [] ∧ dock.queue.closed = false ∧ dock.queue.consumerWoken = false := by
  obtain ⟨hopen, hunwoken, hlength⟩ :=
    vain_of_asleep h hcall (asleep_of_isSettled hsettled hcall)
  have hnobody : dock.awakeTakers = 0 :=
    List.countP_eq_zero.2 fun (other, call) hother => by
      simp [asleep_of_isSettled hsettled hother]
  exact ⟨List.length_eq_zero_iff.1 (Nat.le_zero.1 (hnobody ▸ hlength)), hopen, hunwoken⟩

/-- Whatever threads call, and in whatever order they take their turns, are let go and wake up: at
any time a producer is asleep in its put only if the queue is full and open and no wake-up of it is
pending, and a consumer is asleep in its take only if the queue is open, no wake-up of consumers is
pending, and other takes, by threads that are awake, are under way for all elements there are.  So
when no thread can go on with a call, a consumer is asleep only if the queue is empty. -/
theorem sleeps_only_if_need_be (capacity : Nat) (moves : List (Move α)) {dock : Dock α}
    (h : Course.follow step moves (opened capacity) = some dock) :
    (∀ thread producer element, (thread, .put producer element) ∈ dock.underWay →
      isAsleep thread dock.queue = true →
        dock.queue.items.length = dock.queue.capacity ∧ dock.queue.closed = false ∧
          producer ∉ dock.queue.wokenProducers) ∧
    (∀ thread, (thread, .take) ∈ dock.underWay → isAsleep thread dock.queue = true →
      dock.queue.closed = false ∧ dock.queue.consumerWoken = false ∧
        dock.queue.items.length ≤ dock.awakeTakers) ∧
    (dock.IsSettled → ∀ thread, (thread, .take) ∈ dock.underWay →
      dock.queue.items = [] ∧ dock.queue.closed = false ∧ dock.queue.consumerWoken = false) := by
  have hw : Watchful dock := Course.follow_preserves Watchful watchful_step h
    (watchful_opened capacity)
  exact ⟨fun _ _ _ hcall hasleep => full_of_asleep hw hcall hasleep,
    fun _ hcall hasleep => vain_of_asleep hw hcall hasleep,
    fun hsettled _ hcall => empty_of_isSettled hw hsettled hcall⟩

/-- Two consumers fall asleep; an element lets one of them go, but somebody else takes it first. -/
def snatchedCourse : List (Move Nat) :=
  [.start 1 .take, .start 2 .take, .shuffle [] [2, 1], .start 0 (.put 0 7), .poll, .retry 2]

/-- Both consumers are asleep then, and there is nothing for them. -/
theorem snatched_consumers_sleep :
    ∃ dock : Dock Nat, Course.follow step snatchedCourse (opened 1) = some dock ∧
      dock.underWay = [(1, .take), (2, .take)] ∧
        isAsleep 1 dock.queue = true ∧ isAsleep 2 dock.queue = true ∧ dock.IsSettled ∧
          dock.queue.items = [] ∧ dock.queue.closed = false ∧
            dock.queue.consumerWoken = false := by
  have hsettled : ∀ dock : Dock Nat, dock.underWay = [(1, .take), (2, .take)] →
      isAsleep 1 dock.queue = true → isAsleep 2 dock.queue = true → dock.IsSettled := by
    intro dock hcalls hfirst hsecond thread
    simp only [step, hcalls]
    split
    · next other call hfound =>
        have hmem := List.mem_of_find?_eq_some hfound
        obtain rfl : other = thread := by simpa using List.find?_some hfound
        rcases List.mem_cons.1 hmem with hone | hmem
        · cases hone
          simp [hfirst]
        · cases List.mem_singleton.1 hmem
          simp [hsecond]
    · rfl
  refine ⟨_, rfl, rfl, rfl, rfl, hsettled _ rfl rfl rfl, ?_⟩
  exact (sleeps_only_if_need_be 1 snatchedCourse rfl).2.2 (hsettled _ rfl rfl rfl) 1
    List.mem_cons_self

end Dock

end SplitFeed
