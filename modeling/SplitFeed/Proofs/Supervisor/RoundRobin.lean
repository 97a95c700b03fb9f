/-
# Dealing in turn

Splits are numbered as they are handed over to a supervisor, through all calls, those that fail
included.  Of `n` slots, split number `k` falls to slot `k % n`, whatever became of the slots since
the last call: somebody may have left one, or come into one.

A call visits one slot after the other.  Where splits fall to an empty slot it asks for a reader
first, and if there is none the call ends there.  So after some of its tasks the slots before a
certain one have been served, and the others are as they were (`Served`).  Threads and others leave
slots alone, and only the owner's own tasks carry a call on; `dealing_work` says how.
-/
import SplitFeed.Proofs.Supervisor.Dealing

namespace SplitFeed

variable {ρ : Type}

/-- What the owner of a supervisor does with a task of a call that adds splits. -/
inductive Deed where
  /-- A fetcher is started for a slot. -/
  | started (slot fetcher : Nat)
  /-- There is no reader for the fetcher that a slot needs. -/
  | missed (slot fetcher : Nat)
  /-- Splits are offered to a fetcher. -/
  | offered (fetcher : Nat) (splits : List Split)
deriving DecidableEq

/-- The id for which a reader was asked for. -/
def Deed.newId? : Deed → Option Nat
  | started _ fetcher | missed _ fetcher => some fetcher
  | offered _ _ => none

/-- The offer that a task makes. -/
def Task.offer : Task → List Deed
  | .errand (.ask id (.addSplits splits)) => [.offered id splits]
  | _ => []

namespace Supervisor

/-- What carrying out a task does: whoever is new in the crew was started, a failure to build a
reader tells who was not, and splits are offered to members of the crew only. -/
def deeds [SplitReader ρ] (task : Task) (supervisor : Supervisor ρ) : List Deed :=
  match task, supervisor.perform task with
  | .give slot _, (.ok _, after) =>
    (after.ids.drop supervisor.ids.length).map (.started slot)
  | .give slot _, (.error (.readerNotBuilt id _), _) => [.missed slot id]
  | .errand errand, _ =>
    if errand.target ∈ supervisor.ids then Task.offer (.errand errand) else []
  | _, _ => []

/-- The splits that fall to a slot when some are handed over after a number of others. -/
def fallingTo (slotCount before slot : Nat) (splits : List Split) : List Split :=
  ((splits.zipIdx before).filter fun (_, number) => number % slotCount == slot).map (·.1)

/-- Where a deal starts depends on the number of splits before it only. -/
theorem dealt_eq_fallingTo (slotCount before slot : Nat) (splits : List Split) :
    dealt slotCount (before % slotCount) slot splits = fallingTo slotCount before slot splits := by
  rw [dealt, fallingTo, List.zipIdx_eq_map_add (i := before), List.filter_map, List.map_map]
  simp only [Nat.mod_add_mod, Function.comp_def]

/-! ### What a deal comes to -/

section Plan

variable (hand : Nat → List Split) (s : Supervisor ρ)

/-- Whether splits fall to a slot where nobody is. -/
def needsFetcher (slot : Nat) : Bool := !(hand slot).isEmpty && (s.slots.getD slot none).isNone

/-- The number of slots before a slot that need a fetcher. -/
def startsBefore (slot : Nat) : Nat := (List.range slot).countP (s.needsFetcher hand)

/-- The id that is used up for a slot that needs a fetcher. -/
def newcomer (slot : Nat) : Nat := s.nextId + s.startsBefore hand slot

/-- Who is offered the splits that fall to a slot. -/
def tenant (slot : Nat) : Nat := (s.slots.getD slot none).getD (s.newcomer hand slot)

/-- What is done at a slot where nothing goes wrong. -/
def service (slot : Nat) : List Deed :=
  (if s.needsFetcher hand slot then [.started slot (s.newcomer hand slot)] else []) ++
    if (hand slot).isEmpty then [] else [.offered (s.tenant hand slot) (hand slot)]

/-- Who is in a slot once all slots before `reach` have been served. -/
def seat (reach slot : Nat) : Option Nat :=
  if slot < reach ∧ s.needsFetcher hand slot then some (s.newcomer hand slot)
  else s.slots.getD slot none

/-- Of the slots with which a deal began, those before `reach` have been served: there was a reader
for each that needed a fetcher, and the fetcher is there.  The others are as they were. -/
structure Served (reach : Nat) (after : Supervisor ρ) : Prop where
  readers : ∀ slot < reach, s.needsFetcher hand slot →
    ∃ reader, s.factory (s.built + s.startsBefore hand slot) = .ok reader
  slots : after.slots = (List.range s.slots.length).map (s.seat hand reach)

end Plan

variable {hand : Nat → List Split} {s after next : Supervisor ρ} {slot reach : Nat}
  {splits : List Split}

theorem startsBefore_succ (hand : Nat → List Split) (s : Supervisor ρ) (slot : Nat) :
    s.startsBefore hand (slot + 1) =
      s.startsBefore hand slot + if s.needsFetcher hand slot then 1 else 0 := by
  simp [startsBefore, List.range_succ, List.countP_append, List.countP_singleton]

/-- There is nothing to do at a slot to which no splits fall. -/
theorem service_nothing (hnone : hand slot = []) :
    s.needsFetcher hand slot = false ∧ s.service hand slot = [] := by
  simp [service, needsFetcher, hnone]

/-- Splits that fall to a slot where somebody is are offered there. -/
theorem service_tenant {id : Nat} (hsome : hand slot ≠ [])
    (hseat : s.slots.getD slot none = some id) :
    s.needsFetcher hand slot = false ∧ s.service hand slot = [.offered id (hand slot)] := by
  have hneeds : s.needsFetcher hand slot = false := by
    rw [needsFetcher, hseat, Option.isNone_some, Bool.and_false]
  simp only [service, tenant, hneeds, hseat, hsome, List.isEmpty_iff, Bool.false_eq_true,
    ↓reduceIte, Option.getD_some, List.nil_append, and_self]

/-- Elsewhere somebody is started for them. -/
theorem service_newcomer (hsome : hand slot ≠ []) (hfree : s.slots.getD slot none = none) :
    s.needsFetcher hand slot = true ∧
      s.service hand slot = [.started slot (s.newcomer hand slot),
        .offered (s.newcomer hand slot) (hand slot)] := by
  have hneeds : s.needsFetcher hand slot = true := by
    simp only [needsFetcher, hfree, Option.isNone_none, Bool.and_true, Bool.not_eq_true',
      List.isEmpty_eq_false_iff, ne_eq, hsome, not_false_eq_true]
  simp only [service, tenant, hneeds, hfree, hsome, List.isEmpty_iff, ↓reduceIte,
    Option.getD_none, List.singleton_append, and_self]

theorem served_none (hand : Nat → List Split) (h : after.slots = s.slots) :
    s.Served hand 0 after where
  readers slot hslot := absurd hslot (Nat.not_lt_zero slot)
  slots := by
    rw [h]
    refine List.ext_getElem? fun slot => ?_
    by_cases hslot : slot < s.slots.length <;> simp [seat, hslot]

/-- A slot that has not been served is as it was. -/
theorem getD_served (h : s.Served hand reach after) (hslot : slot < s.slots.length)
    (hreach : reach ≤ slot) : after.slots.getD slot none = s.slots.getD slot none := by
  have hnot : ¬ (slot < reach ∧ s.needsFetcher hand slot) := fun hserved => by omega
  simp [h.slots, hslot, seat, hnot]

/-- A slot that needs no fetcher keeps whoever is in it. -/
theorem served_kept (h : s.Served hand reach after) (hneeds : s.needsFetcher hand reach = false)
    (hslots : next.slots = after.slots) : s.Served hand (reach + 1) next where
  readers slot hslot hslotNeeds := by
    rcases Nat.lt_succ_iff_lt_or_eq.1 hslot with hbefore | rfl
    · exact h.readers slot hbefore hslotNeeds
    · rw [hneeds] at hslotNeeds
      cases hslotNeeds
  slots := by
    rw [hslots, h.slots]
    refine List.map_congr_left fun slot _ => ?_
    have hsame : (slot < reach ∧ s.needsFetcher hand slot) ↔
        slot < reach + 1 ∧ s.needsFetcher hand slot := by
      refine and_congr_left fun hslotNeeds => ⟨Nat.lt_succ_of_lt, fun hslot => ?_⟩
      refine Nat.lt_of_le_of_ne (Nat.lt_succ_iff.1 hslot) ?_
      rintro rfl
      rw [hneeds] at hslotNeeds
      cases hslotNeeds
    simp only [seat, hsame]

/-- One that does gets it. -/
theorem served_started (h : s.Served hand reach after) (hneeds : s.needsFetcher hand reach = true)
    {reader : ρ} (hreader : s.factory (s.built + s.startsBefore hand reach) = .ok reader)
    (hslots : next.slots = after.slots.set reach (some (s.newcomer hand reach))) :
    s.Served hand (reach + 1) next where
  readers slot hslot hslotNeeds := by
    rcases Nat.lt_succ_iff_lt_or_eq.1 hslot with hbefore | rfl
    · exact h.readers slot hbefore hslotNeeds
    · exact ⟨reader, hreader⟩
  slots := by
    rw [hslots, h.slots]
    refine List.ext_getElem? fun slot => ?_
    rw [List.getElem?_set]
    by_cases hhere : reach = slot
    · subst hhere
      by_cases hslot : reach < s.slots.length <;> simp [seat, hneeds, hslot]
    · have hsame : slot < reach ↔ slot < reach + 1 := by omega
      by_cases hslot : slot < s.slots.length <;> simp [hhere, seat, hsame, hslot]

/-! ### One task -/

section Tasks

variable [SplitReader ρ]

/-- An errand leaves slots, and what the next fetcher starts with, as they are.  Nudges follow from
it at most. -/
theorem frame_run (errand : Errand) (s : Supervisor ρ) :
    (s.run errand).2.slots = s.slots ∧ (s.run errand).2.nextId = s.nextId ∧
      (s.run errand).2.built = s.built ∧ (s.run errand).2.factory = s.factory ∧
        ∀ more ∈ (s.run errand).1, Task.offer (.errand more) = [] := by
  cases errand with
  | ask id request =>
      simp only [run]
      split
      · exact ⟨rfl, rfl, rfl, rfl, List.forall_mem_nil _⟩
      · refine ⟨rfl, rfl, rfl, rfl, fun more hmore => ?_⟩
        obtain ⟨nudge, -, rfl⟩ := List.mem_map.1 hmore
        rfl
  | nudge id nudge =>
      simp only [run]
      split <;> exact ⟨rfl, rfl, rfl, rfl, List.forall_mem_nil _⟩

/-- A task asks for one reader at most, and uses up an id for it. -/
theorem drawn_perform (task : Task) (s : Supervisor ρ) :
    ((s.deeds task).filterMap Deed.newId? = [] ∧
        (s.perform task).2.nextId = s.nextId ∧ (s.perform task).2.built = s.built) ∨
      (s.deeds task).filterMap Deed.newId? = [s.nextId] ∧
        (s.perform task).2.nextId = s.nextId + 1 ∧ (s.perform task).2.built = s.built + 1 := by
  cases task with
  | errand errand =>
      obtain ⟨-, hnextId, hbuilt, -, -⟩ := frame_run errand s
      refine .inl ⟨?_, hnextId, hbuilt⟩
      simp only [deeds]
      split
      · unfold Task.offer
        split <;> rfl
      · rfl
  | give slot splits =>
      have hgives := gives slot splits s
      rcases hperform : s.perform (.give slot splits) with ⟨answer, after⟩
      rw [hperform] at hgives
      cases hgives with
      | nothing | tenant => exact .inl ⟨by simp [deeds, hperform], rfl, rfl⟩
      | started | missed =>
          exact .inr ⟨by simp [deeds, hperform, ids, Fetcher.beginLoop, Deed.newId?], rfl, rfl⟩
  | sweep slot =>
      rcases vacate_cases s slot with hspared | ⟨f, -, -, -, hvacated⟩
      · exact .inl ⟨rfl, by simp [perform, hspared], by simp [perform, hspared]⟩
      · exact .inl ⟨rfl, by simp [perform, hvacated], by simp [perform, hvacated]⟩

end Tasks

end Supervisor

namespace Workshop

variable [SplitReader ρ] {shop next last begun : Workshop ρ} {move : Move}
  {moves : List Move} {hand : Nat → List Split} {s : Supervisor ρ} {log : List Deed}

omit [SplitReader ρ] in
/-- The splits that the owner hands over with a move. -/
def handedOver (_ : Workshop ρ) : Move → List Split
  | .addSplits splits => splits
  | _ => []

/-- What the owner does with a move. -/
def deeds (shop : Workshop ρ) : Move → List Deed
  | .work => shop.tasks.head?.elim [] shop.supervisor.deeds
  | _ => []

/-- What a call has come to that deals the splits of a hand: all slots have been served that were
there when it began, or there was no reader for one of them. -/
inductive DealtOut (hand : Nat → List Split) (s : Supervisor ρ) (log : List Deed)
    (shop : Workshop ρ) : Prop
  | all (hserved : s.Served hand s.slots.length shop.supervisor) (hanswer : shop.answer = .ok ())
      (hlog : log = (List.range s.slots.length).flatMap (s.service hand))
  | cut {reach cause} (hserved : s.Served hand reach shop.supervisor)
      (hreach : reach < s.slots.length) (hneeds : s.needsFetcher hand reach = true)
      (hcause : s.factory (s.built + s.startsBefore hand reach) = .error cause)
      (hanswer : shop.answer = .error (.readerNotBuilt (s.newcomer hand reach) cause))
      (hlog : log = (List.range reach).flatMap (s.service hand) ++
        [.missed reach (s.newcomer hand reach)])

/-! ### A call under way -/

/-- A call that deals the splits of a hand, of which some slots have been served and others are
still to be: `pending` are the errands for the slot served last. -/
structure Underway (hand : Nat → List Split) (s : Supervisor ρ) (reach : Nat)
    (pending : List Errand) (log : List Deed) (shop : Workshop ρ) : Prop where
  served : s.Served hand reach shop.supervisor
  within : reach ≤ s.slots.length
  nextId : shop.supervisor.nextId = s.newcomer hand reach
  built : shop.supervisor.built = s.built + s.startsBefore hand reach
  factory : shop.supervisor.factory = s.factory
  tasks : shop.tasks = pending.map .errand ++
    (List.range' reach (s.slots.length - reach)).map fun slot => .give slot (hand slot)
  goesOn : shop.closing = false ∧ shop.answer = .ok ()
  log : log ++ (pending.map .errand).flatMap Task.offer =
    (List.range reach).flatMap (s.service hand)

/-- A call that is under way, or has come to its end. -/
inductive Dealing (hand : Nat → List Split) (s : Supervisor ρ) (log : List Deed)
    (shop : Workshop ρ) : Prop
  | underway {reach pending} (h : Underway hand s reach pending log shop)
  | finished (hdone : shop.isBusy = false) (h : DealtOut hand s log shop)

omit [SplitReader ρ] in
theorem served_congr {after next : Supervisor ρ} {reach : Nat} (h : s.Served hand reach after)
    (hslots : next.slots = after.slots) : s.Served hand reach next :=
  ⟨h.readers, hslots.trans h.slots⟩

omit [SplitReader ρ] in
/-- A call stays where it is when nobody takes a task of it, and nobody is put into a slot. -/
theorem dealing_congr (h : Dealing hand s log shop)
    (hslots : next.supervisor.slots = shop.supervisor.slots)
    (hnextId : next.supervisor.nextId = shop.supervisor.nextId)
    (hbuilt : next.supervisor.built = shop.supervisor.built)
    (hfactory : next.supervisor.factory = shop.supervisor.factory)
    (htasks : next.tasks = shop.tasks) (hclosing : next.closing = shop.closing)
    (hanswer : next.answer = shop.answer) : Dealing hand s log next := by
  cases h with
  | underway h =>
      obtain ⟨hserved, hwithin, hid, hcount, hreaders, hagenda, hgoes, hlog⟩ := h
      exact .underway ⟨served_congr hserved hslots, hwithin, hnextId.trans hid,
        hbuilt.trans hcount, hfactory.trans hreaders, htasks.trans hagenda,
        hclosing ▸ hanswer ▸ hgoes, hlog⟩
  | finished hdone h =>
      refine .finished (by simpa [isBusy, htasks, hclosing] using hdone) ?_
      cases h with
      | all hserved hok hlog => exact .all (served_congr hserved hslots) (hanswer.trans hok) hlog
      | cut hserved hreach hneeds hcause hfailed hlog =>
          exact .cut (served_congr hserved hslots) hreach hneeds hcause (hanswer.trans hfailed) hlog

/-- Nobody but the owner carries a call on. -/
theorem dealing_beside (h : Dealing hand s log shop) (hcall : move.isCall = false)
    (hmove : move ≠ .work) (hgoes : Goes shop move next) :
    Dealing hand s (log ++ shop.deeds move) next := by
  have hnone : shop.deeds move = [] := by
    cases move with
    | work => exact absurd rfl hmove
    | _ => rfl
  rw [hnone, List.append_nil]
  cases hgoes with
  | thread | queue | beside => exact dealing_congr h rfl rfl rfl rfl rfl rfl rfl
  | errand hperforms =>
      cases hperforms with
      | missing | ask | nudge => exact dealing_congr h rfl rfl rfl rfl rfl rfl rfl
  | addSplits | reap | close | abandon => cases hcall
  | task | fail | shut => exact absurd rfl hmove

/-- The owner runs an errand for the slot served last. -/
theorem underway_errand {reach : Nat} {errand : Errand} {pending : List Errand}
    (hk : shop.Known) (h : Underway hand s reach (errand :: pending) log shop)
    (hwork : shop.step .work = some next) :
    Underway hand s reach ((shop.supervisor.run errand).1 ++ pending)
      (log ++ shop.deeds .work) next := by
  obtain ⟨hserved, hwithin, hid, hbuilt, hfactory, htasks, hgoes, hlog⟩ := h
  rw [List.map_cons, List.cons_append] at htasks
  have htarget : errand.target ∈ shop.supervisor.ids :=
    hk.targets errand (htasks ▸ List.mem_cons_self)
  have hdeeds : shop.deeds .work = Task.offer (.errand errand) := by
    simp [deeds, htasks, Supervisor.deeds, htarget]
  simp only [step, work, htasks, Supervisor.perform_errand, Option.some.injEq] at hwork
  subst hwork
  obtain ⟨hslots, hnextId', hbuilt', hfactory', hmore⟩ :=
    Supervisor.frame_run errand shop.supervisor
  refine ⟨served_congr hserved hslots, hwithin, hnextId'.trans hid, hbuilt'.trans hbuilt,
    hfactory'.trans hfactory, ?_, hgoes, ?_⟩
  · simp
  · have hnudges : ((shop.supervisor.run errand).1.map Task.errand).flatMap Task.offer = [] :=
      List.flatMap_eq_nil_iff.2 (List.forall_mem_map.2 hmore)
    rw [hdeeds, ← hlog]
    simp [hnudges]

omit [SplitReader ρ] in
/-- A slot has been served for which no fetcher is started. -/
theorem underway_kept {reach : Nat} {pending : List Errand}
    (h : Underway hand s reach [] log shop) (hreach : reach < s.slots.length)
    (hneeds : s.needsFetcher hand reach = false)
    (hoffers : (pending.map .errand).flatMap Task.offer = s.service hand reach)
    (htasks : next.tasks = pending.map .errand ++
      (List.range' (reach + 1) (s.slots.length - (reach + 1))).map fun slot =>
        .give slot (hand slot))
    (hsupervisor : next.supervisor = shop.supervisor)
    (hgoes : next.closing = shop.closing ∧ next.answer = shop.answer) :
    Underway hand s (reach + 1) pending log next where
  served := Supervisor.served_kept h.served hneeds (by rw [hsupervisor])
  within := hreach
  nextId := by
    simpa [hsupervisor, Supervisor.newcomer, Supervisor.startsBefore_succ, hneeds] using h.nextId
  built := by simpa [hsupervisor, Supervisor.startsBefore_succ, hneeds] using h.built
  factory := hsupervisor ▸ h.factory
  tasks := htasks
  goesOn := hgoes.1 ▸ hgoes.2 ▸ h.goesOn
  log := by
    have hlog : log = (List.range reach).flatMap (s.service hand) := by simpa using h.log
    rw [hoffers, hlog, List.range_succ, List.flatMap_append, List.flatMap_singleton]

omit [SplitReader ρ] in
/-- A slot has been served for which a fetcher was started. -/
theorem underway_started {reach : Nat} {reader : ρ}
    (h : Underway hand s reach [] log shop) (hreach : reach < s.slots.length)
    (hsome : hand reach ≠ []) (hfree : s.slots.getD reach none = none)
    (hreader : shop.supervisor.factory shop.supervisor.built = .ok reader) :
    Underway hand s (reach + 1) [.ask shop.supervisor.nextId (.addSplits (hand reach))]
      (log ++ [.started reach shop.supervisor.nextId])
      { shop with
        supervisor := shop.supervisor.manned reach reader
        tasks := .errand (.ask shop.supervisor.nextId (.addSplits (hand reach))) ::
          (List.range' (reach + 1) (s.slots.length - (reach + 1))).map fun slot =>
            .give slot (hand slot) } := by
  obtain ⟨hneeds, hservice⟩ := Supervisor.service_newcomer hsome hfree
  rw [h.factory, h.built] at hreader
  refine ⟨Supervisor.served_started h.served hneeds hreader (by simp [Supervisor.manned, h.nextId]),
    hreach, ?_, ?_, h.factory, rfl, h.goesOn, ?_⟩
  · simp [Supervisor.manned, h.nextId, Supervisor.newcomer, Supervisor.startsBefore_succ, hneeds,
      Nat.add_assoc]
  · simp [Supervisor.manned, h.built, Supervisor.startsBefore_succ, hneeds, Nat.add_assoc]
  · have hlog : log = (List.range reach).flatMap (s.service hand) := by simpa using h.log
    rw [List.range_succ, List.flatMap_append, List.flatMap_singleton, hservice, ← hlog, h.nextId]
    simp [Task.offer]

/-- The owner comes to the next slot. -/
theorem underway_give {reach : Nat} (h : Underway hand s reach [] log shop)
    (hreach : reach < s.slots.length) (hwork : shop.step .work = some next) :
    Dealing hand s (log ++ shop.deeds .work) next := by
  have htasks : shop.tasks = .give reach (hand reach) ::
      (List.range' (reach + 1) (s.slots.length - (reach + 1))).map fun slot =>
        .give slot (hand slot) := by
    have hcount : s.slots.length - reach = s.slots.length - (reach + 1) + 1 := by omega
    rw [h.tasks, hcount, List.range'_succ]
    rfl
  have hseat := Supervisor.getD_served h.served hreach (Nat.le_refl reach)
  have hdeeds : shop.deeds .work = shop.supervisor.deeds (.give reach (hand reach)) := by
    simp [deeds, htasks]
  have hgives := Supervisor.gives reach (hand reach) shop.supervisor
  simp only [step, work, htasks] at hwork
  rcases hperform : shop.supervisor.perform (.give reach (hand reach)) with ⟨answer, after⟩
  rw [hperform] at hgives hwork
  generalize hsplits : hand reach = splits at hgives
  cases hgives with
  | nothing =>
      obtain rfl := Option.some.inj hwork
      obtain ⟨hneeds, hservice⟩ := Supervisor.service_nothing hsplits
      have hnone : shop.deeds .work = [] := by simp [hdeeds, Supervisor.deeds, hperform]
      have hpending : (([] : List Errand).map Task.errand).flatMap Task.offer =
          s.service hand reach := hservice.symm
      rw [hnone, List.append_nil]
      exact .underway (underway_kept h hreach hneeds hpending rfl rfl ⟨rfl, rfl⟩)
  | @tenant _ id hsome hthere =>
      obtain rfl := Option.some.inj hwork
      obtain ⟨hneeds, hservice⟩ := Supervisor.service_tenant (hsplits ▸ hsome) (hseat ▸ hthere)
      have hnone : shop.deeds .work = [] := by simp [hdeeds, Supervisor.deeds, hperform]
      have hpending : ([Errand.ask id (.addSplits splits)].map Task.errand).flatMap Task.offer =
          s.service hand reach := by
        rw [hservice, hsplits]
        rfl
      rw [hnone, List.append_nil]
      exact .underway (underway_kept h hreach hneeds hpending rfl rfl ⟨rfl, rfl⟩)
  | started hsome hfree hreader =>
      obtain rfl := Option.some.inj hwork
      have hone : shop.deeds .work = [.started reach shop.supervisor.nextId] := by
        simp [hdeeds, Supervisor.deeds, hperform, Supervisor.ids, Fetcher.beginLoop]
      rw [hone]
      subst hsplits
      exact .underway (underway_started h hreach hsome (hseat ▸ hfree) hreader)
  | missed hsome hfree hcause =>
      obtain rfl := Option.some.inj hwork
      have hone : shop.deeds .work = [.missed reach shop.supervisor.nextId] := by
        simp [hdeeds, Supervisor.deeds, hperform]
      obtain ⟨hneeds, -⟩ := Supervisor.service_newcomer (hsplits ▸ hsome) (hseat ▸ hfree)
      rw [h.factory, h.built] at hcause
      refine .finished (by simp [isBusy, h.goesOn.1])
        (.cut (served_congr h.served rfl) hreach hneeds hcause (by simp [h.nextId]) ?_)
      have hlog : log = (List.range reach).flatMap (s.service hand) := by simpa using h.log
      rw [hone, hlog, h.nextId]

/-- What the owner does next carries a call on. -/
theorem dealing_work (hk : shop.Known) (h : Dealing hand s log shop)
    (hwork : shop.step .work = some next) : Dealing hand s (log ++ shop.deeds .work) next := by
  cases h with
  | finished hdone =>
      obtain ⟨htasks, hclosing⟩ := not_busy hdone
      simp [step, work, htasks, hclosing] at hwork
  | @underway reach pending h =>
      cases pending with
      | cons errand pending => exact .underway (underway_errand hk h hwork)
      | nil =>
          rcases Nat.lt_or_eq_of_le h.within with hreach | rfl
          · exact underway_give h hreach hwork
          · have htasks : shop.tasks = [] := by simpa using h.tasks
            simp [step, work, htasks, h.goesOn.1] at hwork

theorem dealing_step (hk : shop.Known) (h : Dealing hand s log shop) (hcall : move.isCall = false)
    (hstep : shop.step move = some next) : Dealing hand s (log ++ shop.deeds move) next := by
  by_cases hmove : move = .work
  · subst hmove
    exact dealing_work hk h hstep
  · exact dealing_beside h hcall hmove (goes_of_step hstep)

omit [SplitReader ρ] in
/-- A call under which nothing is left to do has come to its end. -/
theorem dealtOut_of_dealing (h : Dealing hand s log shop) (hdone : shop.isBusy = false) :
    DealtOut hand s log shop := by
  cases h with
  | finished _ h => exact h
  | @underway reach pending h =>
      have hnothing := h.tasks
      rw [(not_busy hdone).1] at hnothing
      obtain ⟨hpending, hslots⟩ := List.append_eq_nil_iff.1 hnothing.symm
      obtain rfl := List.map_eq_nil_iff.1 hpending
      have hreach : reach = s.slots.length := by
        have hrest := List.range'_eq_nil_iff.1 (List.map_eq_nil_iff.1 hslots)
        have := h.within
        omega
      subst hreach
      exact .all h.served h.goesOn.2 (by simpa using h.log)

omit [SplitReader ρ] in
/-- When a call begins no slot has been served. -/
theorem underway_begun (splits : List Split)
    (hhand : ∀ slot, Supervisor.dealt shop.supervisor.slots.length shop.supervisor.nextSlot slot
      splits = hand slot) :
    Underway hand shop.supervisor 0 [] []
      { shop with
        supervisor := dealtPast splits shop.supervisor
        tasks := dealing splits shop.supervisor
        closing := false
        answer := .ok () } where
  served := Supervisor.served_none hand rfl
  within := Nat.zero_le _
  nextId := rfl
  built := rfl
  factory := rfl
  tasks := by simp [dealing, List.range_eq_range', hhand]
  goesOn := ⟨rfl, rfl⟩
  log := rfl

/-- A call that adds splits is under way, or has come to its end, until the next one begins. -/
theorem dealing_follow {splits : List Split} (hk : begun.Known)
    (hhand : ∀ slot, Supervisor.dealt begun.supervisor.slots.length begun.supervisor.nextSlot slot
      splits = hand slot)
    (h : Course.follow step (.addSplits splits :: moves) begun = some last)
    (hone : ∀ move ∈ moves, move.isCall = false) :
    Dealing hand begun.supervisor (Course.gather step deeds (.addSplits splits :: moves) begun)
      last := by
  obtain ⟨called, hbegins, hrest⟩ := Course.follow_cons_eq_some.1 h
  have hcalled : called.Known ∧ Dealing hand begun.supervisor [] called := by
    have hgoes := goes_of_step hbegins
    refine ⟨known_goes hk hgoes, ?_⟩
    cases hgoes with
    | addSplits hfree =>
        obtain ⟨-, hopen⟩ := not_busy hfree
        rw [hopen]
        exact .underway (underway_begun splits hhand)
    | beside hmove => obtain ⟨_, h⟩ | h := hmove <;> cases h
  have hnever : Course.Never step (fun _ move => move.isCall = true) moves called :=
    Course.never_of_forall _ (fun move hmem _ => by simp [hone move hmem]) called
  have hlast := Course.follow_gathers_of_never
    (fun log (shop : Workshop ρ) => shop.Known ∧ Dealing hand begun.supervisor log shop)
    (fun ⟨hk, hdeals⟩ hcall hstep => ⟨known_goes hk (goes_of_step hstep),
      dealing_step hk hdeals (Bool.not_eq_true _ ▸ hcall) hstep⟩) hrest hnever hcalled
  have hlog : Course.gather step deeds (.addSplits splits :: moves) begun =
      Course.gather step deeds moves called := by
    simp [Course.gather, hbegins, deeds]
  rw [hlog]
  exact hlast.2

/-- The owner can always carry a call on to its end. -/
theorem exists_done_of_dealing (h : Dealing hand s log shop) :
    ∃ count ended, Course.follow step (working count) shop = some ended ∧
      ended.isBusy = false := by
  cases h with
  | underway h => exact exists_done shop h.goesOn.2
  | finished hdone => exact ⟨0, shop, rfl, hdone⟩

/-! ### All calls so far -/

/-- A supervisor to which splits have been handed over: how many slots there are, how readers are
built, and where the next deal starts. -/
structure Placed (slotCount : Nat) (factory : Nat → Except Failure ρ) (handed : List Split)
    (shop : Workshop ρ) : Prop where
  slots : shop.supervisor.slots.length = slotCount
  factory : shop.supervisor.factory = factory
  nextSlot : shop.supervisor.nextSlot = handed.length % slotCount

theorem placed_goes {slotCount : Nat} {factory : Nat → Except Failure ρ} {handed : List Split}
    (hp : Placed slotCount factory handed shop) (h : Goes shop move next) :
    Placed slotCount factory (handed ++ shop.handedOver move) next := by
  obtain ⟨hslots, hfactory, hnextSlot⟩ := hp
  have hsame : shop.supervisor.nextSlot = (handed ++ []).length % slotCount := by
    rwa [List.append_nil]
  have hperforms {task : Task} {result : Except Failure (List Task)} {after : Supervisor ρ}
      (h : Supervisor.Performs shop.supervisor task result after) :
      after.slots.length = slotCount ∧ after.factory = factory ∧
        after.nextSlot = (handed ++ []).length % slotCount := by
    obtain ⟨hreaders, hplace⟩ := Supervisor.frame_performs h
    exact ⟨(Supervisor.slots_performs h).1.trans hslots, hreaders.trans hfactory,
      hplace.trans hsame⟩
  cases h with
  | thread | queue | reap | abandon | shut => exact ⟨hslots, hfactory, hsame⟩
  | close => exact ⟨by simpa [cleared] using hslots, hfactory, hsame⟩
  | beside hmove => obtain ⟨_, rfl⟩ | rfl := hmove <;> exact ⟨hslots, hfactory, hsame⟩
  | errand h | task _ h | fail _ h =>
      obtain ⟨hlength, hreaders, hplace⟩ := hperforms h
      exact ⟨hlength, hreaders, hplace⟩
  | @addSplits splits =>
      refine ⟨hslots, hfactory, ?_⟩
      simp [dealtPast, handedOver, hslots, hnextSlot]

/-- The ids that were used up: each once, from the first on, one with every reader that was asked
for. -/
structure Drawn (log : List Deed) (shop : Workshop ρ) : Prop where
  nextId : shop.supervisor.nextId = shop.supervisor.built
  ids : log.filterMap Deed.newId? = List.range shop.supervisor.built

theorem drawn_work (hd : Drawn log shop) (h : shop.step .work = some next) :
    Drawn (log ++ shop.deeds .work) next := by
  obtain ⟨hnextId, hids⟩ := hd
  simp only [step, work] at h
  split at h
  · next task later htasks =>
      have hsupervisor : next.supervisor = (shop.supervisor.perform task).2 := by
        split at h <;> next hperform => rw [hperform, ← Option.some.inj h]
      have hdeeds : shop.deeds .work = shop.supervisor.deeds task := by simp [deeds, htasks]
      rw [hdeeds]
      constructor
      · rw [hsupervisor]
        obtain ⟨-, hid, hbuilt⟩ | ⟨-, hid, hbuilt⟩ :=
          Supervisor.drawn_perform task shop.supervisor <;>
        rw [hid, hbuilt, hnextId]
      · rw [hsupervisor, List.filterMap_append, hids]
        obtain ⟨hnone, -, hbuilt⟩ | ⟨hone, -, hbuilt⟩ :=
          Supervisor.drawn_perform task shop.supervisor
        · rw [hnone, hbuilt, List.append_nil]
        · rw [hone, hbuilt, List.range_succ, hnextId]
  · next htasks =>
      simp only [Option.ite_none_right_eq_some, Option.some.injEq] at h
      obtain ⟨-, rfl⟩ := h
      have hnone : shop.deeds .work = [] := by simp [deeds, htasks]
      rw [hnone, List.append_nil]
      exact ⟨hnextId, hids⟩

theorem drawn_step (hd : Drawn log shop) (h : shop.step move = some next) :
    Drawn (log ++ shop.deeds move) next := by
  by_cases hmove : move = .work
  · subst hmove
    exact drawn_work hd h
  · have hnone : shop.deeds move = [] := by
      cases move with
      | work => exact absurd rfl hmove
      | _ => rfl
    rw [hnone, List.append_nil]
    obtain ⟨hnextId, hids⟩ := hd
    cases goes_of_step h with
    | thread | queue | beside | addSplits | reap | close | abandon => exact ⟨hnextId, hids⟩
    | errand hperforms => cases hperforms <;> exact ⟨hnextId, hids⟩
    | task | fail | shut => exact absurd rfl hmove

/-- Splits are dealt in turn, whatever a supervisor, its threads and all who hold on to them have
done before, and whoever comes between.  Split number `k` of all that were ever handed over falls to
slot `k % slotCount`, and is offered to whoever is there when the slot is visited, with the others
that fall to the slot in the order of the call.  A reader is asked for where splits fall to an empty
slot only, slot after slot; the call fails if there is none, with the slots before served, and the
others as they were.  Every call can be carried on to its end, and every reader that was ever asked
for has used up an id of its own. -/
theorem dealt_in_turn (capacity threads : Nat) (store : FileStore)
    (factory : Nat → Except Failure ρ) :
    let opening := opened capacity threads store factory
    (∀ moves last, Course.follow step moves opening = some last →
      (Course.gather step deeds moves opening).filterMap Deed.newId? =
        List.range last.supervisor.built) ∧
    ∀ before begun, Course.follow step before opening = some begun →
      ∀ splits during last,
        Course.follow step (.addSplits splits :: during) begun = some last →
        (∀ move ∈ during, move.isCall = false) →
        (∃ count ended, Course.follow step (working count) last = some ended ∧
          ended.isBusy = false) ∧
        (last.isBusy = false →
          let slotCount := max threads 1
          let earlier := (Course.gather step handedOver before opening).length
          begun.supervisor.slots.length = slotCount ∧ begun.supervisor.factory = factory ∧
            DealtOut (fun slot => Supervisor.fallingTo slotCount earlier slot splits)
              begun.supervisor (Course.gather step deeds (.addSplits splits :: during) begun)
              last) := by
  intro opening
  constructor
  · intro moves last h
    have hdrawn : Drawn [] opening := ⟨rfl, rfl⟩
    have hlast := Course.follow_gathers Drawn drawn_step h hdrawn
    exact hlast.ids
  · intro before begun hbefore splits during last hduring hone
    have hk : begun.Known := Course.follow_preserves Known
      (fun hk h => known_goes hk (goes_of_step h)) hbefore
      (known_opened capacity threads store factory)
    let slotCount := max threads 1
    let earlier := (Course.gather step handedOver before opening).length
    have hopened : Placed slotCount factory [] opening :=
      ⟨List.length_replicate, rfl, (Nat.zero_mod _).symm⟩
    obtain ⟨hslots, hfactory, hnextSlot⟩ := Course.follow_gathers
      (Placed slotCount factory) (fun hp h => placed_goes hp (goes_of_step h)) hbefore hopened
    have hdealing : Dealing (fun slot => Supervisor.fallingTo slotCount earlier slot splits)
        begun.supervisor (Course.gather step deeds (.addSplits splits :: during) begun) last := by
      refine dealing_follow hk (fun slot => ?_) hduring hone
      rw [hslots, hnextSlot]
      exact Supervisor.dealt_eq_fallingTo slotCount earlier slot splits
    exact ⟨exists_done_of_dealing hdealing,
      fun hdone => ⟨hslots, hfactory, dealtOut_of_dealing hdealing hdone⟩⟩

/-- Only every other attempt to build a reader succeeds. -/
def everyOther (built : Nat) : Except Failure Backend :=
  if built % 2 = 0 then .ok (.ranges (.withLimits 5 0)) else .error (.spoken "no reader")

/-- Four splits fall to three slots, and only the first slot gets a fetcher, which reads what fell
to it and is retired. -/
def dealtOnce : List Move :=
  .addSplits [.range ⟨"a", 0, 1⟩, .range ⟨"b", 0, 1⟩, .range ⟨"c", 0, 1⟩, .range ⟨"d", 0, 1⟩] ::
    working 7 ++ threads 23 ++ .reap :: working 9

/-- Three more splits fall to the second, the third and the first slot. -/
def dealtAgain : List Split := [.range ⟨"e", 0, 1⟩, .range ⟨"f", 0, 1⟩, .range ⟨"g", 0, 1⟩]

/-- Whether somebody new comes into the first slot then, and nobody into the others. -/
def isDealtAgain : Bool :=
  (Course.follow step dealtOnce (opened 4 3 .empty everyOther)).any fun begun =>
    (Course.gather step handedOver dealtOnce (opened 4 3 .empty everyOther)).length == 4 &&
    Course.gather step deeds (.addSplits dealtAgain :: working 7) begun ==
      [.started 0 2, .offered 2 [.range ⟨"g", 0, 1⟩], .missed 1 3] &&
    (Course.follow step (.addSplits dealtAgain :: working 7) begun).any fun ended =>
      !ended.isBusy && ended.supervisor.built == 4

/-- The last split goes to the first slot's new fetcher, and the call ends at the second slot. -/
theorem new_tenant_in_turn :
    ∃ begun ended : Workshop Backend,
      Course.follow step dealtOnce (opened 4 3 .empty everyOther) = some begun ∧
        Course.follow step (.addSplits dealtAgain :: working 7) begun = some ended ∧
        DealtOut (fun slot => Supervisor.fallingTo 3 4 slot dealtAgain) begun.supervisor
          [.started 0 2, .offered 2 [.range ⟨"g", 0, 1⟩], .missed 1 3] ended ∧
        (Course.gather step deeds (dealtOnce ++ .addSplits dealtAgain :: working 7)
          (opened 4 3 .empty everyOther)).filterMap Deed.newId? = [0, 1, 2, 3] := by
  have htest : isDealtAgain = true := by decide +kernel
  obtain ⟨begun, hbefore, htest⟩ := (Option.any_eq_true _ _).1 htest
  simp only [Bool.and_eq_true, beq_iff_eq] at htest
  obtain ⟨⟨hearlier, hlog⟩, htest⟩ := htest
  obtain ⟨ended, hduring, htest⟩ := (Option.any_eq_true _ _).1 htest
  simp only [Bool.and_eq_true, Bool.not_eq_true', beq_iff_eq] at htest
  obtain ⟨hdone, hbuilt⟩ := htest
  obtain ⟨hids, hdeals⟩ := dealt_in_turn 4 3 .empty everyOther
  obtain ⟨-, -, hcall⟩ := (hdeals dealtOnce begun hbefore dealtAgain (working 7) ended hduring
    (fun move hmove => List.eq_of_mem_replicate hmove ▸ rfl)).2 hdone
  rw [hlog, hearlier] at hcall
  refine ⟨begun, ended, hbefore, hduring, hcall, ?_⟩
  have hwhole : Course.follow step (dealtOnce ++ .addSplits dealtAgain :: working 7)
      (opened 4 3 .empty everyOther) = some ended := by
    rw [Course.follow_append, hbefore]
    exact hduring
  rw [hids _ ended hwhole, hbuilt]
  rfl

end Workshop

end SplitFeed
