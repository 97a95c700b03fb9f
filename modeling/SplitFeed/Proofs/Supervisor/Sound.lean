/-
# Supervisors with which nothing goes wrong

A sound supervisor has fetchers with different ids for which nothing went wrong, at most one slot
for each of them, and nobody in a slot who was asked to stop.  Its readers are new when they are
built, and its queue is open.

Threads and fair tasks keep a supervisor sound.  What makes a task fair may depend on who is in the
slots, so of the tasks ahead only the first may be of that kind.
-/
import SplitFeed.Proofs.Supervisor.Crew
import Mathlib.Data.List.Nodup

namespace SplitFeed

/-- Whether the thread has begun to wind down, or is past that. -/
def Phase.isWinding : Phase → Bool
  | finishing _ => true
  | phase => phase.isOut

namespace Fetcher

variable {ρ : Type} {f g : Fetcher ρ} {d e : Depot} {disturbed : List Bool}

/-- Nobody has asked the fetcher to stop, and its thread goes on. -/
structure IsSeated (f : Fetcher ρ) : Prop where
  stop : f.duty.stop = none
  goesOn : f.phase.isWinding = false

theorem in_of_isSeated (hf : f.IsSeated) : f.phase.isOut = false := by
  have hgoesOn := hf.goesOn
  revert hgoesOn
  cases f.phase <;> simp [Phase.isWinding, Phase.isOut]

/-- A fetcher that belongs in a slot takes splits on. -/
theorem refuses_of_isSeated (hc : f.Coherent) (hf : f.IsSeated) : f.duty.refuses = false := by
  have hclosed : f.duty.closed = false := by
    rw [← Bool.not_eq_true]
    intro hclosed
    have hsettled := hc.closed hclosed
    have hin := in_of_isSeated hf
    revert hsettled hin
    cases f.phase <;> simp [Phase.isSettled, Phase.isOut]
  simp [Duty.refuses, hclosed, hf.stop]

theorem seated_advance [SplitReader ρ] (hf : f.IsSeated) (hsmooth : f.phase.isSmooth = true)
    (hg : g.phase.isSmooth = true) (h : Advance disturbed f d g e) : g.IsSeated := by
  obtain ⟨hstop, hgoesOn⟩ := hf
  cases h <;> constructor <;> simp_all [Phase.isWinding, Phase.isOut, Phase.isSmooth, Duty.book]

theorem seated_congr (hf : f.IsSeated) (hphase : g.phase = f.phase)
    (hstop : g.duty.stop = f.duty.stop) : g.IsSeated :=
  ⟨hstop.trans hf.stop, hphase ▸ hf.goesOn⟩

theorem seated_enact {request : Request} (hf : f.IsSeated)
    (hstays : ∀ mode, request ≠ .stop mode) : (request.enact f).1.IsSeated := by
  cases request with
  | stop mode => exact absurd rfl (hstays mode)
  | addSplits splits =>
      simp only [Request.enact]
      split
      · exact hf
      · exact seated_congr hf rfl rfl
  | removeSplits _ | wakeUp _ | pause | resume | releaseLatch => exact seated_congr hf rfl rfl

theorem seated_nudge [SplitReader ρ] (nudge : Nudge) (depot : Depot) (hf : f.IsSeated) :
    (nudge.apply f depot).1.IsSeated := by
  cases nudge <;> exact seated_congr hf rfl rfl

@[simp]
theorem id_enact (request : Request) (f : Fetcher ρ) : (request.enact f).1.id = f.id := by
  cases request with
  | addSplits splits =>
      simp only [Request.enact]
      split <;> rfl
  | stop mode =>
      simp only [Request.enact]
      split <;> rfl
  | removeSplits _ | wakeUp _ | pause | resume | releaseLatch => rfl

@[simp]
theorem id_nudge [SplitReader ρ] (nudge : Nudge) (f : Fetcher ρ) (depot : Depot) :
    (nudge.apply f depot).1.id = f.id := by
  cases nudge <;> rfl

end Fetcher

namespace Supervisor

variable {store : FileStore} {sort : ReaderSort} {s next : Supervisor Backend}
  {f g : Fetcher Backend} {d e : Depot} {disturbed : List Bool} {id : Nat}

/-- A supervisor with which nothing goes wrong. -/
structure Sound (store : FileStore) (sort : ReaderSort) (s : Supervisor Backend) : Prop where
  unique : s.ids.Nodup
  below : ∀ id ∈ s.ids, id < s.nextId
  reliable : ∀ f ∈ s.crew, f.Reliable store sort
  seats : s.liveIds.Nodup
  seated : ∀ id ∈ s.liveIds, ∃ f ∈ s.crew, f.id = id ∧ f.IsSeated
  builds : ∀ built, ∃ reader, s.factory built = .ok reader ∧ reader.IsNew ∧ reader.sort = sort
  isOpen : s.queue.closed = false

theorem Sound.faithful (hs : s.Sound store sort) :
    ∀ f ∈ s.crew, ∀ split, f.Faithful store sort split :=
  fun f hf => (hs.reliable f hf).faithful

/-- Who is in a slot belongs there. -/
theorem isSeated_of_live (hs : s.Sound store sort) (hf : f ∈ s.crew) (hlive : f.id ∈ s.liveIds) :
    f.IsSeated := by
  obtain ⟨other, hother, hid, hseated⟩ := hs.seated f.id hlive
  rwa [eq_of_id_eq hs.unique hf hother hid.symm]

/-- Soundness does not depend on where the next split goes, on who is retired, or on anything in
the depot but whether the queue is open. -/
theorem sound_congr (hs : s.Sound store sort) (hcrew : next.crew = s.crew)
    (hslots : next.slots = s.slots) (hnextId : next.nextId = s.nextId)
    (hfactory : next.factory = s.factory) (hopen : next.queue.closed = false) :
    next.Sound store sort where
  unique := by simpa only [ids, hcrew] using hs.unique
  below := by simpa only [ids, hcrew, hnextId] using hs.below
  reliable := hcrew ▸ hs.reliable
  seats := by simpa only [liveIds, hslots] using hs.seats
  seated := by simpa only [liveIds, hslots, hcrew] using hs.seated
  builds := hfactory ▸ hs.builds
  isOpen := hopen

/-- A fetcher's place is taken by one that is as good. -/
theorem sound_replace (hs : s.Sound store sort) (hf : f ∈ s.crew) (hid : g.id = f.id)
    (hreliable : g.Reliable store sort)
    (hseated : f.id ∈ s.liveIds → f.IsSeated → g.IsSeated) (hopen : e.queue.closed = false) :
    ({ s with depot := e }.replace g).Sound store sort where
  unique := by
    rw [ids_replace]
    exact hs.unique
  below := by
    rw [ids_replace]
    exact hs.below
  reliable := forall_crew_replace hs.reliable hreliable
  seats := hs.seats
  seated := by
    intro id hlive
    obtain ⟨other, hother, rfl, hseat⟩ := hs.seated id hlive
    by_cases hsame : other.id = f.id
    · obtain rfl := eq_of_id_eq hs.unique hother hf hsame
      exact ⟨g, mem_replace_self (s := { s with depot := e }) hf hid, hid, hseated hlive hseat⟩
    · exact ⟨other, mem_replace_other (s := { s with depot := e }) hother (hid ▸ hsame), rfl, hseat⟩
  builds := hs.builds
  isOpen := hopen

/-! ### Threads -/

theorem suited_vanish (hf : f.Suited sort) : Fetcher.Suited sort { f with phase := .gone } :=
  Fetcher.suited_congr hf rfl (fun _ hmem => hmem) rfl (by simp)

theorem faithful_stride {split : String} (hf : f.Faithful store sort split)
    (hopen : d.queue.closed = false)
    (hsame : SplitReader.fetch d.store disturbed f.reader =
      SplitReader.fetch store disturbed f.reader)
    (h : Stride disturbed f d g e) : g.Faithful store sort split := by
  cases h with
  | advance h => exact Fetcher.faithful_advance hf hopen hsame h
  | vanish hphase =>
      refine ⟨coherent_vanish hf.coherent hphase, suited_vanish hf.suited, rfl, ?_, (nomatch ·)⟩
      have hspared := hf.spared
      simpa only [Fetcher.unheard, hphase] using hspared

theorem reliable_stride (hf : f.Reliable store sort) (hopen : d.queue.closed = false)
    (hsame : SplitReader.fetch d.store disturbed f.reader =
      SplitReader.fetch store disturbed f.reader)
    (h : Stride disturbed f d g e) : g.Reliable store sort := by
  cases h with
  | advance h => exact Fetcher.reliable_advance hf hopen hsame h
  | vanish hphase =>
      refine ⟨coherent_vanish hf.coherent hphase, suited_vanish hf.suited, rfl, hf.undrained, ?_,
        (nomatch ·), ?_⟩
      · have hwelcome := hf.welcome
        simpa only [Fetcher.unheard, hphase] using hwelcome
      · have hfull := hf.full
        simpa only [Fetcher.held, hphase] using hfull

theorem seated_stride (hf : f.IsSeated) (hsmooth : f.phase.isSmooth = true)
    (hg : g.phase.isSmooth = true) (h : Stride disturbed f d g e) : g.IsSeated := by
  cases h with
  | advance h => exact Fetcher.seated_advance hf hsmooth hg h
  | vanish hphase =>
      have hgoesOn := hf.goesOn
      simp [hphase, Phase.isWinding, Phase.isOut] at hgoesOn

/-- The depot's files are, as far as the crew is concerned, those of a given store. -/
def Steady (store : FileStore) (s : Supervisor Backend) : Prop :=
  ∀ f ∈ s.crew, ∀ disturbed, SplitReader.fetch s.depot.store disturbed f.reader =
    SplitReader.fetch store disturbed f.reader

theorem sound_thread (hs : s.Sound store sort) (hsteady : s.Steady store)
    (h : s.stepThread? id disturbed = some next) : next.Sound store sort := by
  obtain ⟨f, hf, -, g, e, hstride, rfl⟩ := stride_of_stepThread? h
  have hadvanced := advanced_of_stride hstride
  have hreliable := reliable_stride (hs.reliable f hf) hs.isOpen (hsteady f hf disturbed) hstride
  exact sound_replace hs hf hadvanced.id hreliable
    (fun _ hseated => seated_stride hseated (hs.reliable f hf).smooth hreliable.smooth hstride)
    (hadvanced.closed.trans hs.isOpen)

/-! ### Tasks -/

end Supervisor

/-- What is asked of a fetcher by a fair errand: nothing is taken away, splits go to who is in a
slot, and who is in a slot is not stopped. -/
def Errand.IsFair (store : FileStore) (sort : ReaderSort) (s : Supervisor Backend) : Errand → Prop
  | .nudge _ _ => True
  | .ask id request =>
    request.IsGentle store sort ∧
      match request with
      | .addSplits _ => id ∈ s.liveIds
      | .stop _ => id ∉ s.liveIds
      | _ => True

namespace Task

/-- The splits that a task is to give away. -/
def splits : Task → List Split
  | .errand (.ask _ (.addSplits splits)) => splits
  | .give _ splits => splits
  | _ => []

/-- A task that is fair as things are. -/
def IsFair (store : FileStore) (sort : ReaderSort) (s : Supervisor Backend) : Task → Prop
  | .errand single => single.IsFair store sort s
  | .give slot splits =>
    slot < s.slots.length ∧ ∀ split ∈ splits, split.sort = sort ∧ split.IsReadable store
  | .sweep _ => True

/-- A task that is fair whoever is in the slots. -/
def IsTimeless (store : FileStore) (sort : ReaderSort) (slotCount : Nat) : Task → Prop
  | .errand (.nudge _ _) => True
  | .errand (.ask _ request) =>
    request.IsGentle store sort ∧ (∀ splits, request ≠ .addSplits splits) ∧
      ∀ mode, request ≠ .stop mode
  | .give slot splits =>
    slot < slotCount ∧ ∀ split ∈ splits, split.sort = sort ∧ split.IsReadable store
  | .sweep _ => True

theorem isFair_of_isTimeless {store : FileStore} {sort : ReaderSort} {s : Supervisor Backend}
    {task : Task} (h : task.IsTimeless store sort s.slots.length) : task.IsFair store sort s := by
  cases task with
  | errand single =>
      cases single with
      | nudge _ _ => trivial
      | ask id request =>
          obtain ⟨hgentle, hadds, hstops⟩ := h
          refine ⟨hgentle, ?_⟩
          cases request with
          | addSplits splits => exact absurd rfl (hadds splits)
          | stop mode => exact absurd rfl (hstops mode)
          | _ => trivial
  | give slot splits => exact h
  | sweep slot => trivial

end Task

namespace Supervisor

variable {store : FileStore} {sort : ReaderSort} {s next : Supervisor Backend}
  {f g : Fetcher Backend} {id slot : Nat} {tasks more : List Task} {task : Task}

/-- The task that comes next is fair, and those behind it are whatever happens. -/
def Agenda (store : FileStore) (sort : ReaderSort) (s : Supervisor Backend) : List Task → Prop
  | [] => True
  | task :: later =>
    task.IsFair store sort s ∧ ∀ task ∈ later, task.IsTimeless store sort s.slots.length

theorem agenda_of_timeless (h : ∀ task ∈ tasks, task.IsTimeless store sort s.slots.length) :
    s.Agenda store sort tasks := by
  cases tasks with
  | nil => trivial
  | cons task later =>
      exact ⟨Task.isFair_of_isTimeless (h task List.mem_cons_self),
        fun other hother => h other (List.mem_cons_of_mem _ hother)⟩

/-- The agenda stays fair as long as nobody takes or leaves a seat. -/
theorem agenda_congr (hslots : next.slots = s.slots) (h : s.Agenda store sort tasks) :
    next.Agenda store sort tasks := by
  have hlive : next.liveIds = s.liveIds := by simp only [liveIds, hslots]
  cases tasks with
  | nil => trivial
  | cons task later =>
      refine ⟨?_, hslots ▸ h.2⟩
      have hfair := h.1
      cases task with
      | errand single =>
          cases single with
          | nudge _ _ => trivial
          | ask id request => simpa only [Task.IsFair, Errand.IsFair, hlive] using hfair
      | give slot splits => simpa only [Task.IsFair, hslots] using hfair
      | sweep slot => trivial

/-- A task that follows from another one and is fair may come before timeless ones. -/
theorem agenda_append (hmore : next.Agenda store sort more)
    (hlater : ∀ task ∈ tasks, task.IsTimeless store sort next.slots.length) :
    next.Agenda store sort (more ++ tasks) := by
  cases more with
  | nil => exact agenda_of_timeless hlater
  | cons task more =>
      refine ⟨hmore.1, fun other hother => ?_⟩
      rcases List.mem_append.1 hother with hmem | hmem
      · exact hmore.2 other hmem
      · exact hlater other hmem

theorem sound_vacate {retired : List Nat} (hs : s.Sound store sort)
    (hseat : s.slots[slot]? = some (some id)) :
    ({ s with slots := s.slots.set slot none, retired } : Supervisor Backend).Sound store sort ∧
      id ∉ ({ s with slots := s.slots.set slot none, retired } : Supervisor Backend).liveIds ∧
      ∀ other ∈ s.liveIds, other ≠ id →
        other ∈ ({ s with slots := s.slots.set slot none, retired } :
          Supervisor Backend).liveIds := by
  obtain ⟨before, after, hlive, hset⟩ := liveIds_set hseat
  have hseats := hs.seats
  simp only [hlive, Option.toList_some, List.append_assoc, List.singleton_append,
    List.nodup_middle, List.nodup_cons] at hseats
  have hleft := hset none retired
  simp only [Option.toList_none, List.append_nil] at hleft
  refine ⟨⟨hs.unique, hs.below, hs.reliable, ?_, ?_, hs.builds, hs.isOpen⟩, ?_, ?_⟩
  · rw [hleft]
    exact hseats.2
  · intro other hother
    rw [hleft] at hother
    refine hs.seated other ?_
    rw [hlive]
    simp only [List.mem_append] at hother ⊢
    tauto
  · rw [hleft]
    exact hseats.1
  · intro other hother hne
    rw [hlive] at hother
    rw [hleft]
    simpa [hne] using hother

/-- A supervisor with another fetcher in a slot that was empty. -/
def withSeated (slot : Nat) (fetcher : Fetcher Backend) (s : Supervisor Backend) :
    Supervisor Backend :=
  { s with
    crew := s.crew ++ [fetcher]
    slots := s.slots.set slot (some s.nextId)
    nextId := s.nextId + 1
    built := s.built + 1 }

/-- The fetcher that is started next over a reader. -/
def recruit (reader : Backend) (s : Supervisor Backend) : Fetcher Backend :=
  ({ id := s.nextId, reader } : Fetcher Backend).beginLoop

/-- Giving splits to an empty slot does nothing without splits, or starts a fetcher over a new
reader. -/
theorem perform_give_vacant (hs : s.Sound store sort) (hseat : s.slots[slot]? = some none)
    (splits : List Split) :
    (splits = [] ∧ s.perform (.give slot splits) = (.ok [], s)) ∨
      ∃ reader : Backend, reader.IsNew ∧ reader.sort = sort ∧
        s.perform (.give slot splits) =
          (.ok [.errand (.ask s.nextId (.addSplits splits))],
            s.withSeated slot (s.recruit reader)) := by
  cases hsome : splits.isEmpty with
  | true => exact .inl ⟨List.isEmpty_iff.1 hsome, by simp [perform, hsome]⟩
  | false =>
      obtain ⟨reader, hbuilt, hnew, hsort⟩ := hs.builds s.built
      refine .inr ⟨reader, hnew, hsort, ?_⟩
      simp [perform, hsome, List.getD, hseat, spawn, hbuilt, withSeated, recruit]

/-- Giving splits to a slot does nothing without splits, names who is in the slot, or starts a
fetcher over a new reader. -/
theorem perform_give_cases (hs : s.Sound store sort) (hslot : slot < s.slots.length)
    (splits : List Split) :
    (splits = [] ∧ s.perform (.give slot splits) = (.ok [], s)) ∨
      (∃ id ∈ s.liveIds, s.perform (.give slot splits) =
        (.ok [.errand (.ask id (.addSplits splits))], s)) ∨
      ∃ reader : Backend, reader.IsNew ∧ reader.sort = sort ∧ s.slots[slot]? = some none ∧
        s.perform (.give slot splits) =
          (.ok [.errand (.ask s.nextId (.addSplits splits))],
            s.withSeated slot (s.recruit reader)) := by
  cases hseat : s.slots[slot] with
  | none =>
      have hempty : s.slots[slot]? = some none := by
        rw [List.getElem?_eq_getElem hslot, hseat]
      refine (perform_give_vacant hs hempty splits).imp_right fun h => .inr ?_
      obtain ⟨reader, hnew, hsort, hperform⟩ := h
      exact ⟨reader, hnew, hsort, hempty, hperform⟩
  | some id =>
      cases hsome : splits.isEmpty with
      | true => exact .inl ⟨List.isEmpty_iff.1 hsome, by simp [perform, hsome]⟩
      | false =>
          refine .inr (.inl ⟨id, ?_, ?_⟩)
          · exact List.mem_filterMap.2 ⟨some id, hseat ▸ List.getElem_mem hslot, rfl⟩
          · simp [perform, hsome, List.getD, List.getElem?_eq_getElem hslot, hseat]

theorem reliable_recruit {reader : Backend} (hnew : reader.IsNew) (hsort : reader.sort = sort)
    (s : Supervisor Backend) : (s.recruit reader).Reliable store sort where
  coherent := by
    constructor <;> simp [recruit, Fetcher.beginLoop, Phase.isFetch, Phase.isEmptyHanded,
      Phase.isNoted]
  suited := ⟨hsort, fun _ hmem => (List.not_mem_nil hmem).elim,
    fun _ hmem => (List.not_mem_nil hmem).elim, (nomatch ·)⟩
  smooth := rfl
  undrained := by simp [recruit, Fetcher.beginLoop]
  welcome _ hmem := nomatch hmem
  attentive _ := by
    refine ⟨Backend.ready_of_isNew hnew, ?_, fun _ => Backend.replay_of_isNew hnew⟩
    simp [recruit, Fetcher.beginLoop, Backend.replay_of_isNew hnew]
  full _ hbatch := nomatch hbatch

theorem sound_withSeated {reader : Backend} (hs : s.Sound store sort)
    (hseat : s.slots[slot]? = some none) (hnew : reader.IsNew) (hsort : reader.sort = sort) :
    (s.withSeated slot (s.recruit reader)).Sound store sort ∧
      s.nextId ∈ (s.withSeated slot (s.recruit reader)).liveIds ∧
      ∀ id ∈ s.liveIds, id ∈ (s.withSeated slot (s.recruit reader)).liveIds := by
  obtain ⟨before, after, hlive, hset⟩ := liveIds_set hseat
  have hseats : (s.withSeated slot (s.recruit reader)).liveIds =
      before ++ [s.nextId] ++ after := hset (some s.nextId) s.retired
  simp only [Option.toList_none, List.append_nil] at hlive
  have hids : (s.withSeated slot (s.recruit reader)).ids = s.ids ++ [s.nextId] := by
    simp [ids, withSeated, recruit, Fetcher.beginLoop]
  have hfree : s.nextId ∉ s.ids := fun hmem => Nat.lt_irrefl _ (hs.below _ hmem)
  have hunseated : s.nextId ∉ s.liveIds := by
    intro hmem
    obtain ⟨f, hf, hid, -⟩ := hs.seated _ hmem
    exact hfree (hid ▸ List.mem_map_of_mem (f := (·.id)) hf)
  refine ⟨⟨?_, ?_, ?_, ?_, ?_, hs.builds, hs.isOpen⟩, ?_, ?_⟩
  · rw [hids]
    simpa [List.nodup_append, hfree] using
      ⟨hs.unique, fun id hid hsame => hfree (hsame ▸ hid)⟩
  · intro id hid
    rw [hids] at hid
    rcases List.mem_append.1 hid with hold | hnew
    · exact Nat.lt_succ_of_lt (hs.below id hold)
    · rw [List.mem_singleton.1 hnew]
      exact Nat.lt_succ_self _
  · intro f hf
    rcases List.mem_append.1 hf with hold | hadded
    · exact hs.reliable f hold
    · rw [List.mem_singleton.1 hadded]
      exact reliable_recruit hnew hsort s
  · have hnodup := hs.seats
    rw [hlive] at hnodup hunseated
    rw [hseats, List.append_assoc, List.singleton_append, List.nodup_middle, List.nodup_cons]
    exact ⟨hunseated, hnodup⟩
  · intro id hid
    rw [hseats] at hid
    by_cases hself : id = s.nextId
    · subst hself
      exact ⟨s.recruit reader, List.mem_append_right _ List.mem_cons_self, rfl, rfl, rfl⟩
    · have hold : id ∈ s.liveIds := by
        rw [hlive]
        simp only [List.mem_append, List.mem_singleton] at hid ⊢
        tauto
      obtain ⟨f, hf, hid, hseated⟩ := hs.seated id hold
      exact ⟨f, List.mem_append_left _ hf, hid, hseated⟩
  · rw [hseats]
    simp
  · intro id hid
    rw [hlive] at hid
    rw [hseats]
    simp only [List.mem_append] at hid ⊢
    tauto

/-! ### Carrying out tasks -/

/-- An errand is a request to one fetcher or a nudge; nudges are all that follows. -/
theorem sound_run {errand : Errand} (hs : s.Sound store sort)
    (hfair : errand.IsFair store sort s) :
    (s.run errand).2.Sound store sort ∧ (s.run errand).2.slots = s.slots ∧
      ∀ later ∈ (s.run errand).1, ∃ id nudge, later = .nudge id nudge := by
  cases errand with
  | nudge id nudge =>
      cases hfound : s.fetcher? id with
      | none => simpa [run, hfound] using hs
      | some f =>
          obtain ⟨hf, rfl⟩ := mem_crew_of_fetcher? hfound
          have hopen : (nudge.apply f s.depot).2.queue.closed = false := by
            cases nudge <;> exact hs.isOpen
          simp only [run, hfound]
          exact ⟨sound_replace hs hf (Fetcher.id_nudge _ _ _)
            (Fetcher.reliable_nudge nudge s.depot (hs.reliable f hf))
            (fun _ => Fetcher.seated_nudge nudge s.depot) hopen, rfl, by simp⟩
  | ask id request =>
      cases hfound : s.fetcher? id with
      | none => simpa [run, hfound] using hs
      | some f =>
          obtain ⟨hf, rfl⟩ := mem_crew_of_fetcher? hfound
          obtain ⟨hgentle, hseat⟩ := hfair
          simp only [run, hfound]
          refine ⟨sound_replace (e := s.depot) hs hf (Fetcher.id_enact _ _)
            (Fetcher.reliable_enact (hs.reliable f hf) hgentle) ?_ hs.isOpen, rfl, ?_⟩
          · intro hlive hseated
            refine Fetcher.seated_enact hseated fun mode hstop => ?_
            subst hstop
            exact hseat hlive
          · intro later hlater
            obtain ⟨nudge, -, rfl⟩ := List.mem_map.1 hlater
            exact ⟨_, nudge, rfl⟩

/-- A fair task succeeds, and leaves a sound supervisor and a fair agenda.  What follows from it
gives no other splits away. -/
theorem sound_perform (hs : s.Sound store sort) (hfair : task.IsFair store sort s) :
    ∃ more, (s.perform task).1 = .ok more ∧ (s.perform task).2.Sound store sort ∧
      (s.perform task).2.slots.length = s.slots.length ∧
      (s.perform task).2.Agenda store sort more ∧
      ∀ later ∈ more, later.splits.Sublist task.splits := by
  cases task with
  | errand errand =>
      obtain ⟨hsound, hslots, hnudges⟩ := sound_run hs hfair
      have hmore : ∀ later ∈ (s.run errand).1.map Task.errand,
          ∃ id nudge, later = .errand (.nudge id nudge) := by
        intro later hlater
        obtain ⟨single, hsingle, rfl⟩ := List.mem_map.1 hlater
        obtain ⟨id, nudge, rfl⟩ := hnudges single hsingle
        exact ⟨id, nudge, rfl⟩
      refine ⟨_, rfl, hsound, congrArg List.length hslots, agenda_of_timeless ?_, ?_⟩ <;>
        intro later hlater <;> obtain ⟨id, nudge, rfl⟩ := hmore later hlater
      · trivial
      · exact List.nil_sublist _
  | give slot splits =>
      obtain ⟨hslot, hsplits⟩ := hfair
      rcases perform_give_cases hs hslot splits with
        ⟨-, hperform⟩ | ⟨id, hlive, hperform⟩ | ⟨reader, hnew, hsort, hempty, hperform⟩
      · rw [hperform]
        exact ⟨[], rfl, hs, rfl, trivial, fun _ hmem => nomatch hmem⟩
      · rw [hperform]
        exact ⟨_, rfl, hs, rfl, ⟨⟨hsplits, hlive⟩, fun _ hmem => nomatch hmem⟩,
          by simp [Task.splits]⟩
      · obtain ⟨hsound, hlive, -⟩ := sound_withSeated hs hempty hnew hsort
        rw [hperform]
        exact ⟨_, rfl, hsound, List.length_set ..,
          ⟨⟨hsplits, hlive⟩, fun _ hmem => nomatch hmem⟩, by simp [Task.splits]⟩
  | sweep slot =>
      rcases vacate_cases s slot with hnone | ⟨f, hf, -, hseat, hsome⟩
      · simp only [perform, hnone]
        exact ⟨_, rfl, hs, trivial, trivial, fun _ hmem => nomatch hmem⟩
      · obtain ⟨hsound, hleft, -⟩ := sound_vacate hs hseat
        simp only [perform, hsome]
        refine ⟨_, rfl, hsound, List.length_set .., ⟨⟨?_, hleft⟩, fun _ hmem => nomatch hmem⟩,
          by simp [Task.splits]⟩
        exact rfl

end Supervisor

end SplitFeed
