/-
# Who works for a supervisor

`Performs` lists what carrying out a task does, one constructor for each way in which it can go, and
`performs` says that the list is complete; later proofs take a task apart by it.

A supervisor is staffed if its fetchers can be told apart, the next id is new, and every thread runs
cycle after cycle.  Whoever was ever started is on the books, in a slot or retired, until the books
are cleared for closing: tasks and threads take nobody off them.
-/
import SplitFeed.Proofs.Supervisor.Attended

namespace SplitFeed

/-- The slot that a task gives splits to is one that there is. -/
def Task.Fits (slotCount : Nat) : Task → Prop
  | .give slot _ => slot < slotCount
  | _ => True

namespace Supervisor

variable {ρ : Type} {s next : Supervisor ρ} {f g : Fetcher ρ} {d e : Depot} {id : Nat}
  {disturbed : List Bool} {task : Task} {result : Except Failure (List Task)}

/-- The supervisor after an attempt to start a fetcher for which there is no reader. -/
def unmanned (s : Supervisor ρ) : Supervisor ρ :=
  { s with nextId := s.nextId + 1, built := s.built + 1 }

/-- What carrying out a task does. -/
inductive Performs [SplitReader ρ] (s : Supervisor ρ) :
    Task → Except Failure (List Task) → Supervisor ρ → Prop
  /-- An errand goes to nobody. -/
  | missing {errand} (hnone : s.fetcher? errand.target = none) :
      Performs s (.errand errand) (.ok []) s
  /-- A fetcher is asked for something; nudges follow. -/
  | ask {f request} (hf : f ∈ s.crew) :
      Performs s (.errand (.ask f.id request))
        (.ok ((request.enact f).2.map fun nudge => .errand (.nudge f.id nudge)))
        (s.replace (request.enact f).1)
  | nudge {f nudge} (hf : f ∈ s.crew) :
      Performs s (.errand (.nudge f.id nudge)) (.ok [])
        ({ s with depot := (nudge.apply f s.depot).2 }.replace (nudge.apply f s.depot).1)
  /-- No splits fall to a slot. -/
  | skip {slot} : Performs s (.give slot []) (.ok []) s
  /-- Splits fall to a slot where somebody is. -/
  | give {slot splits id} (hsplits : splits ≠ []) (hseat : s.slots[slot]? = some (some id)) :
      Performs s (.give slot splits) (.ok [.errand (.ask id (.addSplits splits))]) s
  /-- Splits fall to an empty slot, and a fetcher is started. -/
  | man {slot splits reader} (hsplits : splits ≠ []) (hfree : s.slots.getD slot none = none) :
      Performs s (.give slot splits) (.ok [.errand (.ask s.nextId (.addSplits splits))])
        (s.manned slot reader)
  /-- Splits fall to an empty slot, and there is no reader for a fetcher. -/
  | fail {slot splits cause} (hsplits : splits ≠ []) :
      Performs s (.give slot splits) (.error cause) s.unmanned
  /-- Whoever is in a slot, if anybody, has more to do there. -/
  | spare {slot} : Performs s (.sweep slot) (.ok []) s
  /-- A fetcher is taken out of its slot, and is to be stopped. -/
  | sweep {f slot} (hf : f ∈ s.crew) (hfinished : isFinished f = true)
      (hseat : s.slots[slot]? = some (some f.id)) :
      Performs s (.sweep slot) (.ok [.errand (.ask f.id (.stop .immediate))])
        { s with slots := s.slots.set slot none, retired := s.retired ++ [f.id] }

theorem performs_errand [SplitReader ρ] (errand : Errand) (s : Supervisor ρ) :
    Performs s (.errand errand) (s.perform (.errand errand)).1
      (s.perform (.errand errand)).2 := by
  cases errand with
  | ask id request =>
      cases hfound : s.fetcher? id with
      | none =>
          have hmissing : Performs s (.errand (.ask id request)) _ _ := .missing hfound
          simpa [perform, run, hfound] using hmissing
      | some f =>
          obtain ⟨hf, rfl⟩ := mem_crew_of_fetcher? hfound
          have hasked : Performs s (.errand (.ask f.id request)) _ _ := .ask hf
          simpa [perform, run, hfound, Function.comp_def] using hasked
  | nudge id nudge =>
      cases hfound : s.fetcher? id with
      | none =>
          have hmissing : Performs s (.errand (.nudge id nudge)) _ _ := .missing hfound
          simpa [perform, run, hfound] using hmissing
      | some f =>
          obtain ⟨hf, rfl⟩ := mem_crew_of_fetcher? hfound
          have hnudged : Performs s (.errand (.nudge f.id nudge)) _ _ := .nudge hf
          simpa [perform, run, hfound] using hnudged

/-- How giving splits to a slot can go. -/
inductive Gives (s : Supervisor ρ) (slot : Nat) :
    List Split → Except Failure (List Task) → Supervisor ρ → Prop
  | nothing : Gives s slot [] (.ok []) s
  | tenant {splits id} (hsplits : splits ≠ []) (hseat : s.slots.getD slot none = some id) :
      Gives s slot splits (.ok [.errand (.ask id (.addSplits splits))]) s
  | started {splits reader} (hsplits : splits ≠ []) (hfree : s.slots.getD slot none = none)
      (hreader : s.factory s.built = .ok reader) :
      Gives s slot splits (.ok [.errand (.ask s.nextId (.addSplits splits))]) (s.manned slot reader)
  | missed {splits cause} (hsplits : splits ≠ []) (hfree : s.slots.getD slot none = none)
      (hcause : s.factory s.built = .error cause) :
      Gives s slot splits (.error (.readerNotBuilt s.nextId cause)) s.unmanned

theorem gives [SplitReader ρ] (slot : Nat) (splits : List Split) (s : Supervisor ρ) :
    Gives s slot splits (s.perform (.give slot splits)).1 (s.perform (.give slot splits)).2 := by
  by_cases hsplits : splits = []
  · subst hsplits
    exact .nothing
  · cases hseat : s.slots.getD slot none with
    | some id =>
        simp only [perform, List.isEmpty_iff, hsplits, hseat, ↓reduceIte]
        exact .tenant hsplits hseat
    | none =>
        cases hbuilt : s.factory s.built with
        | ok reader =>
            simp only [perform, List.isEmpty_iff, hsplits, hseat, spawn, hbuilt, ↓reduceIte]
            exact .started hsplits hseat hbuilt
        | error cause =>
            simp only [perform, List.isEmpty_iff, hsplits, hseat, spawn, hbuilt, ↓reduceIte]
            exact .missed hsplits hseat hbuilt

theorem performs_give [SplitReader ρ] (slot : Nat) (splits : List Split) (s : Supervisor ρ) :
    Performs s (.give slot splits) (s.perform (.give slot splits)).1
      (s.perform (.give slot splits)).2 := by
  have hgives := gives slot splits s
  generalize (s.perform (.give slot splits)).1 = answer at hgives
  generalize (s.perform (.give slot splits)).2 = after at hgives
  cases hgives with
  | nothing => exact .skip
  | tenant hsplits hseat =>
      refine .give hsplits ?_
      cases hslot : s.slots[slot]? <;> simp_all
  | started hsplits hfree => exact .man hsplits hfree
  | missed hsplits => exact .fail hsplits

/-- Those are all ways in which a task can go. -/
theorem performs [SplitReader ρ] (task : Task) (s : Supervisor ρ) :
    Performs s task (s.perform task).1 (s.perform task).2 := by
  cases task with
  | errand errand => exact performs_errand errand s
  | give slot splits => exact performs_give slot splits s
  | sweep slot =>
      rcases vacate_cases s slot with hspared | ⟨f, hf, hfinished, hseat, hvacated⟩
      · simpa [perform, hspared] using Performs.spare
      · simpa [perform, hvacated] using Performs.sweep hf hfinished hseat

/-! ### Staff -/

/-- Fetchers can be told apart, the next id is new, and threads run cycle after cycle. -/
structure Staffed (s : Supervisor ρ) : Prop where
  unique : s.ids.Nodup
  below : ∀ id ∈ s.ids, id < s.nextId
  looping : ∀ f ∈ s.crew, f.looping = true

theorem staffed_create (capacity threads : Nat) (store : FileStore)
    (factory : Nat → Except Failure ρ) : (create capacity threads store factory).Staffed where
  unique := List.nodup_nil
  below := List.forall_mem_nil _
  looping := List.forall_mem_nil _

theorem staffed_congr (hs : s.Staffed) (hcrew : next.crew = s.crew)
    (hnextId : s.nextId ≤ next.nextId) : next.Staffed where
  unique := by
    rw [ids, hcrew]
    exact hs.unique
  below id hid := by
    rw [ids, hcrew] at hid
    exact Nat.lt_of_lt_of_le (hs.below id hid) hnextId
  looping := hcrew ▸ hs.looping

theorem staffed_replace (hs : s.Staffed) (hf : f ∈ s.crew) (hlooping : g.looping = f.looping)
    (depot : Depot) :
    ({ s with depot }.replace g).Staffed where
  unique := (ids_replace { s with depot } g).symm ▸ hs.unique
  below := (ids_replace { s with depot } g).symm ▸ hs.below
  looping := forall_crew_replace (s := { s with depot }) hs.looping
    (hlooping.trans (hs.looping f hf))

theorem ids_manned (slot : Nat) (reader : ρ) (s : Supervisor ρ) :
    (s.manned slot reader).ids = s.ids ++ [s.nextId] := by
  simp [ids, manned, Fetcher.beginLoop]

theorem staffed_manned (hs : s.Staffed) (slot : Nat) (reader : ρ) :
    (s.manned slot reader).Staffed where
  unique := by
    have hnew : s.nextId ∉ s.ids := fun hmem => Nat.lt_irrefl _ (hs.below _ hmem)
    rw [ids_manned]
    exact List.nodup_append.2 ⟨hs.unique, List.nodup_singleton _, fun id hold _ hother hsame =>
      hnew (List.mem_singleton.1 hother ▸ hsame ▸ hold)⟩
  below id hid := by
    rw [ids_manned] at hid
    rcases List.mem_append.1 hid with hold | hnew
    · exact Nat.lt_succ_of_lt (hs.below id hold)
    · exact List.mem_singleton.1 hnew ▸ Nat.lt_succ_self _
  looping f hf := by
    rcases List.mem_append.1 hf with hold | hnew
    · exact hs.looping f hold
    · exact List.mem_singleton.1 hnew ▸ rfl

/-- A request changes neither who a fetcher is nor where its thread stands. -/
theorem same_enact (request : Request) (f : Fetcher ρ) :
    (request.enact f).1.id = f.id ∧ (request.enact f).1.looping = f.looping ∧
      (request.enact f).1.phase = f.phase := by
  cases request with
  | addSplits splits =>
      simp only [Request.enact]
      split <;> exact ⟨rfl, rfl, rfl⟩
  | stop mode =>
      simp only [Request.enact]
      split <;> exact ⟨rfl, rfl, rfl⟩
  | removeSplits _ | wakeUp _ | pause | resume | releaseLatch => exact ⟨rfl, rfl, rfl⟩

/-- Nor does a nudge, and it reports no failure. -/
theorem same_nudge [SplitReader ρ] (nudge : Nudge) (f : Fetcher ρ) (d : Depot) :
    ((nudge.apply f d).1.id = f.id ∧ (nudge.apply f d).1.looping = f.looping ∧
      (nudge.apply f d).1.phase = f.phase) ∧ (nudge.apply f d).2.failures = d.failures := by
  cases nudge <;> exact ⟨⟨rfl, rfl, rfl⟩, rfl⟩

section Tasks

variable [SplitReader ρ]

theorem staffed_performs (hs : s.Staffed) (h : Performs s task result next) : next.Staffed := by
  cases h with
  | missing | skip | give | spare => exact hs
  | @ask f request hf => exact staffed_replace hs hf (same_enact request f).2.1 s.depot
  | @nudge f nudge hf => exact staffed_replace hs hf (same_nudge nudge f s.depot).1.2.1 _
  | man => exact staffed_manned hs _ _
  | fail => exact staffed_congr hs rfl (Nat.le_succ _)
  | sweep => exact staffed_congr hs rfl (Nat.le_refl _)

/-! ### The books -/

omit [SplitReader ρ] in
theorem mem_liveIds : id ∈ s.liveIds ↔ ∃ slot : Nat, s.slots[slot]? = some (some id) := by
  rw [← List.mem_iff_getElem?, liveIds, List.mem_filterMap]
  constructor
  · rintro ⟨_, hseat, rfl⟩
    exact hseat
  · exact fun hseat => ⟨some id, hseat, rfl⟩

omit [SplitReader ρ] in
/-- Nobody loses a slot because somebody gets one where nobody is. -/
theorem liveIds_manned {slot : Nat} (hfree : s.slots.getD slot none = none) (reader : ρ)
    (hid : id ∈ s.liveIds) : id ∈ (s.manned slot reader).liveIds := by
  obtain ⟨seat, hseat⟩ := mem_liveIds.1 hid
  have hother : slot ≠ seat := by
    rintro rfl
    simp [hseat] at hfree
  exact mem_liveIds.2 ⟨seat, (List.getElem?_set_ne hother).trans hseat⟩

/-- Nobody is taken off the books by a task. -/
theorem onBooks_performs (h : Performs s task result next) (hid : id ∈ s.onBooks) :
    id ∈ next.onBooks := by
  cases h with
  | missing | ask | nudge | skip | give | fail | spare => exact hid
  | man hsplits hfree =>
      rcases List.mem_append.1 hid with hlive | hretired
      · exact List.mem_append_left _ (liveIds_manned hfree _ hlive)
      · exact List.mem_append_right _ hretired
  | @sweep f slot hf hfinished hseat =>
      obtain ⟨before, after, hlive, hset⟩ := liveIds_set hseat
      simp only [onBooks, hlive, hset, Option.toList_some, Option.toList_none, List.mem_append,
        List.mem_singleton] at hid ⊢
      tauto

/-- Whoever is started is put on the books. -/
theorem booked_performs (h : Performs s task result next) (hfits : task.Fits s.slots.length)
    (hid : id ∈ next.ids) : id ∈ s.ids ∨ id ∈ next.onBooks := by
  cases h with
  | missing | skip | give | fail | spare | sweep => exact .inl hid
  | ask => exact .inl (ids_replace s _ ▸ hid)
  | @nudge f nudge hf =>
      exact .inl (ids_replace { s with depot := (nudge.apply f s.depot).2 } _ ▸ hid)
  | @man slot splits reader hsplits hfree =>
      rw [ids_manned] at hid
      refine (List.mem_append.1 hid).imp_right fun hnew => List.mem_append_left _ ?_
      rw [List.mem_singleton.1 hnew]
      exact mem_liveIds.2 ⟨slot, List.getElem?_set_self hfits⟩

/-- The slots stay as many as they are, and what follows from a task fits them. -/
theorem slots_performs (h : Performs s task result next) :
    next.slots.length = s.slots.length ∧
      ∀ more, result = .ok more → ∀ later ∈ more, later.Fits next.slots.length := by
  cases h with
  | missing | nudge | skip | spare =>
      refine ⟨rfl, fun more hmore => ?_⟩
      cases hmore
      exact List.forall_mem_nil _
  | ask =>
      refine ⟨rfl, fun more hmore => ?_⟩
      cases hmore
      exact List.forall_mem_map.2 fun _ _ => trivial
  | give =>
      refine ⟨rfl, fun more hmore => ?_⟩
      cases hmore
      exact List.forall_mem_singleton.2 trivial
  | man =>
      refine ⟨List.length_set, fun more hmore => ?_⟩
      cases hmore
      exact List.forall_mem_singleton.2 trivial
  | sweep =>
      refine ⟨List.length_set, fun more hmore => ?_⟩
      cases hmore
      exact List.forall_mem_singleton.2 trivial
  | fail => exact ⟨rfl, nofun⟩

/-- No task changes how readers are built, or where the next deal starts. -/
theorem frame_performs (h : Performs s task result next) :
    next.factory = s.factory ∧ next.nextSlot = s.nextSlot := by
  cases h <;> exact ⟨rfl, rfl⟩

/-- A task reports no failure. -/
theorem failures_performs (h : Performs s task result next) :
    next.depot.failures = s.depot.failures := by
  cases h with
  | @nudge f nudge hf => exact (same_nudge nudge f s.depot).2
  | _ => rfl

end Tasks

end Supervisor

end SplitFeed
