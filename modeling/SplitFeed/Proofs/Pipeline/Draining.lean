/-
# What is drained when the latches are released

When the consumer has enough it tells all fetchers to drain, goes on taking batches, and releases
the fetchers when it has found the queue empty and then, one after the other, all of them waiting
for the drain.  At that moment everything should be drained: no fetcher fetches or holds a batch,
the queue is empty, and all that was ever put into it was consumed and recycled.

The queue is looked at before the fetchers are counted, and not again.  A fetcher that puts its last
batch in between, and then waits, is released with that batch in the queue; its reader is closed,
and nobody takes the batch.  That is the only way for something to be left.
-/
import SplitFeed.Proofs.Pipeline.Traffic

namespace SplitFeed

/-- Whether the consumer has counted all fetchers, and is to release them. -/
def ConsumerPhase.isReleasing : ConsumerPhase → Bool
  | counting _ [] => true
  | _ => false

namespace Supervisor

variable {ρ : Type} [SplitReader ρ] {s next : Supervisor ρ} {disturbed : List Bool} {id : Nat}

/-- Errands neither take batches nor recycle any. -/
theorem content_run (errand : Errand) (s : Supervisor ρ) :
    (s.run errand).2.queue.items = s.queue.items ∧
      (s.run errand).2.depot.recycled = s.depot.recycled := by
  cases errand with
  | ask id request =>
      simp only [run]
      split <;> exact ⟨rfl, rfl⟩
  | nudge id nudge =>
      simp only [run]
      split
      · exact ⟨rfl, rfl⟩
      · cases nudge <;> exact ⟨rfl, rfl⟩

theorem content_perform (task : Task) (s : Supervisor ρ) :
    (s.perform task).2.queue.items = s.queue.items ∧
      (s.perform task).2.depot.recycled = s.depot.recycled := by
  cases task with
  | errand errand => exact content_run errand s
  | give slot splits =>
      simp only [perform, spawn]
      split
      · exact ⟨rfl, rfl⟩
      · split
        · exact ⟨rfl, rfl⟩
        · cases s.factory s.built <;> exact ⟨rfl, rfl⟩
  | sweep slot =>
      rcases vacate_cases s slot with hnone | ⟨f, -, -, -, hsome⟩
      · simp only [perform, hnone]
        exact ⟨trivial, trivial⟩
      · simp only [perform, hsome]
        exact ⟨rfl, trivial⟩

/-- A thread's step leaves in the queue what is there, and recycles what it recycles behind what was
recycled before. -/
theorem content_thread (h : s.stepThread? id disturbed = some next) :
    s.queue.items <+: next.queue.items ∧ s.depot.recycled <+: next.depot.recycled := by
  obtain ⟨f, -, -, g, e, hstride, rfl⟩ := stride_of_stepThread? h
  have hitems := (advanced_of_stride hstride).items
  refine ⟨⟨_, hitems.symm⟩, ?_⟩
  cases hstride with
  | vanish => exact List.prefix_rfl
  | advance h =>
      cases h with
      | hand | handFail | handPanic | rewind | rewindPanic | bookNothingLast | bookNothing | shutOut
      | drop | flushShut => exact List.prefix_append _ _
      | _ => exact List.prefix_rfl

end Supervisor

namespace Traffic

open Run (errand_consumer)

variable {ρ : Type} {traffic next last : Traffic ρ} {p q : Pipeline ρ} {move : Run.Move}

/-- What was put into the queue was consumed, is in the consumer's hand or in the queue; what was
consumed was recycled; and once the consumer has looked in vain, what is in the queue was put there
since. -/
structure Booked (sent consumed unseen : List (SplitBatch Record)) (p : Pipeline ρ) : Prop where
  sent : sent = consumed ++ p.phase.inHand ++ p.supervisor.queue.items
  recycled : (consumed.flatMap (·.recycle)).Sublist p.supervisor.depot.recycled
  unseen : p.phase.hasLooked = true → p.supervisor.queue.items = unseen

variable {sent consumed unseen : List (SplitBatch Record)}

theorem eaten_of_emptyHanded (h : p.phase.inHand = []) : eaten p q = [] := by
  unfold eaten
  split
  · next hphase _ => simp [hphase, ConsumerPhase.inHand] at h
  · rfl

theorem not_looksInVain (h : ∀ bell, p.phase = .looking bell → p.supervisor.queue.items ≠ []) :
    looksInVain p = false := by
  unfold looksInVain
  split
  · next bell _ hphase => simpa using h bell hphase
  · rfl

/-- A step that takes no batch, and comes behind a look in vain only if it was behind one before. -/
theorem booked_turn (hb : Booked sent consumed unseen p) (hhand : p.phase.inHand = [])
    (hlooks : ∀ bell, p.phase = .looking bell → p.supervisor.queue.items ≠ [])
    (hafter : q.phase.inHand = [])
    (hitems : q.supervisor.queue.items = p.supervisor.queue.items)
    (hrecycled : q.supervisor.depot.recycled = p.supervisor.depot.recycled)
    (hlooked : q.phase.hasLooked = true → p.phase.hasLooked = true) :
    Booked sent (consumed ++ eaten p q) (if looksInVain p then [] else unseen) q := by
  rw [eaten_of_emptyHanded hhand, not_looksInVain hlooks, List.append_nil,
    if_neg Bool.false_ne_true]
  refine ⟨?_, ?_, fun h => ?_⟩
  · rw [hitems, hafter, ← hhand]
    exact hb.sent
  · rw [hrecycled]
    exact hb.recycled
  · rw [hitems]
    exact hb.unseen (hlooked h)

/-- A look in vain. -/
theorem booked_look {phase : ConsumerPhase} {bell : Nat} (hb : Booked sent consumed unseen p)
    (herrands : p.errands = []) (hphase : p.phase = .looking bell)
    (hitems : p.supervisor.queue.items = []) (hafter : phase.inHand = []) :
    Booked sent (consumed ++ eaten p (p.enter phase)) (if looksInVain p then [] else unseen)
      (p.enter phase) := by
  have hsent := hb.sent
  rw [hphase] at hsent
  have hvain : looksInVain p = true := by simp [looksInVain, herrands, hphase, hitems]
  rw [eaten_of_emptyHanded (by rw [hphase]; rfl), hvain, List.append_nil, if_pos rfl]
  refine ⟨?_, hb.recycled, fun _ => hitems⟩
  show sent = consumed ++ phase.inHand ++ p.supervisor.queue.items
  rw [hafter]
  exact hsent

/-- What the consumer does between errands is booked. -/
theorem booked_takes (hb : Booked sent consumed unseen p) (herrands : p.errands = [])
    (h : Takes p q) :
    Booked sent (consumed ++ eaten p q) (if looksInVain p then [] else unseen) q := by
  cases h with
  | hear hphase | starve hphase =>
      exact booked_turn hb (by rw [hphase]; rfl) (by simp [hphase]) rfl rfl rfl nofun
  | ask hphase =>
      exact booked_turn hb (by rw [hphase]; rfl) (by simp [hphase]) rfl
        (HandoffQueue.availability_same _).1 rfl nofun
  | tick hphase | miss hphase | watch hphase | lookLast hphase =>
      exact booked_turn hb (by rw [hphase]; rfl) (by simp [hphase]) rfl rfl rfl
        fun _ => by rw [hphase]; rfl
  | @sweep bell slot hphase =>
      have hdepot : (p.supervisor.vacate slot).2.depot = p.supervisor.depot := by
        rcases Supervisor.vacate_cases p.supervisor slot with hnone | ⟨f, -, -, -, hsome⟩
        · rw [hnone]
        · rw [hsome]
      exact booked_turn hb (by rw [hphase]; rfl) (by simp [hphase]) rfl
        (congrArg (·.queue.items) hdepot) (congrArg (·.recycled) hdepot)
        fun _ => by rw [hphase]; rfl
  | again hphase =>
      obtain ⟨bell, hphase, hitems⟩ | hphase | ⟨bell, hphase⟩ := hphase
      · exact booked_turn hb (by rw [hphase]; rfl) (fun _ _ => hitems) rfl rfl rfl nofun
      · exact booked_turn hb (by rw [hphase]; rfl) (by simp [hphase]) rfl rfl rfl nofun
      · exact booked_turn hb (by rw [hphase]; rfl) (by simp [hphase]) rfl rfl rfl nofun
  | reap hphase hitems | count hphase hitems => exact booked_look hb herrands hphase hitems rfl
  | @poll batch rest hphase hitems =>
      have hsent := hb.sent
      rw [hphase, hitems] at hsent
      rw [eaten_of_emptyHanded (by rw [hphase]; rfl), not_looksInVain (by simp [hphase]),
        List.append_nil, if_neg Bool.false_ne_true, HandoffQueue.poll_cons hitems]
      refine ⟨?_, hb.recycled, fun hlooked => absurd hlooked Bool.false_ne_true⟩
      simpa [Pipeline.enter, Pipeline.withQueue, Supervisor.withQueue, Supervisor.queue,
        ConsumerPhase.inHand] using hsent
  | @consume batch books sink store draining errands hphase hgoes =>
      have hsent := hb.sent
      rw [hphase] at hsent
      have heaten (q : Pipeline ρ) (hafter : q.phase = .listening) : eaten p q = [batch] := by
        simp [eaten, herrands, hphase, hafter]
      rw [heaten _ rfl]
      refine ⟨?_, ?_, fun hlooked => absurd hlooked Bool.false_ne_true⟩
      · simpa [Pipeline.withStore, Supervisor.queue, ConsumerPhase.inHand] using hsent
      · rw [List.flatMap_append, List.flatMap_singleton]
        exact hb.recycled.append (List.Sublist.refl _)

/-- Errands take no batch. -/
theorem booked_errand [SplitReader ρ] {errand : Errand} {rest : List Errand}
    (hb : Booked sent consumed unseen p) (herrands : p.errands = errand :: rest)
    (h : p.stepConsumer? = some q) :
    Booked sent (consumed ++ eaten p q) (if looksInVain p then [] else unseen) q := by
  obtain ⟨hitems, hrecycled⟩ := Supervisor.content_run errand p.supervisor
  have hnothing : eaten p q = [] := by simp [eaten, herrands]
  have hlooks : looksInVain p = false := by simp [looksInVain, herrands]
  rw [hnothing, hlooks, List.append_nil, if_neg Bool.false_ne_true, errand_consumer herrands h]
  exact ⟨hitems ▸ hb.sent, hrecycled ▸ hb.recycled, fun h => hitems.trans (hb.unseen h)⟩

variable [SplitReader ρ]

/-- Every move is booked, as long as the consumer takes batches. -/
theorem booked_step (hb : Booked traffic.sent traffic.consumed traffic.unseen traffic.pipeline)
    (h : step move traffic = some next) (htakes : next.pipeline.phase.isTaking = true) :
    Booked next.sent next.consumed next.unseen next.pipeline := by
  cases move with
  | thread id disturbed =>
      obtain ⟨after, hstep, rfl⟩ := Option.map_eq_some_iff.1 h
      obtain ⟨⟨batches, hitems⟩, hrecycled⟩ := Supervisor.content_thread hstep
      have hput : put traffic.pipeline.supervisor.queue after.queue = batches := by
        rw [put, ← hitems, List.drop_left]
      simp only [hput]
      refine ⟨?_, hb.recycled.trans hrecycled.sublist, fun hlooked => ?_⟩
      · show traffic.sent ++ batches = _ ++ _ ++ after.queue.items
        rw [hb.sent, ← hitems, List.append_assoc]
      · show after.queue.items = traffic.unseen ++ batches
        rw [← hitems, hb.unseen hlooked]
  | timeOut id =>
      obtain ⟨f, -, rfl⟩ := Option.map_eq_some_iff.1 h
      exact ⟨hb.sent, hb.recycled, hb.unseen⟩
  | late =>
      obtain rfl := Option.some.inj h
      exact ⟨hb.sent, hb.recycled, hb.unseen⟩
  | work =>
      simp only [step] at h
      split at h
      · obtain ⟨after, hstep, rfl⟩ := Option.map_eq_some_iff.1 h
        cases herrands : traffic.pipeline.errands with
        | nil => exact booked_takes hb herrands (takes_of_consumer herrands hstep htakes)
        | cons errand rest => exact booked_errand hb herrands hstep
      · next task later hdealt =>
          obtain ⟨hitems, hrecycled⟩ :=
            Supervisor.content_perform task traffic.pipeline.supervisor
          split at h
          · next more after hperform =>
              cases h
              rw [hperform] at hitems hrecycled
              exact ⟨hitems ▸ hb.sent, hrecycled ▸ hb.recycled,
                fun hlooked => hitems.trans (hb.unseen hlooked)⟩
          · cases h
            cases htakes

theorem booked_follow {plan : Plan ρ} {moves : List Run.Move}
    (h : Course.follow step moves (opened plan) = some last)
    (htakes : last.pipeline.phase.isTaking = true) :
    Booked last.sent last.consumed last.unseen last.pipeline :=
  Course.follow_preserves
    (fun traffic : Traffic ρ => traffic.pipeline.phase.isTaking = true →
      Booked traffic.sent traffic.consumed traffic.unseen traffic.pipeline)
    (fun hb hstep hafter => booked_step (hb (taking_step hstep hafter)) hstep hafter)
    h (fun _ => ⟨rfl, List.nil_sublist _, nofun⟩) htakes

/-! ### The release -/

/-- The consumer is about to release the latches: it has counted all fetchers. -/
structure Releases (traffic : Traffic ρ) : Prop where
  dealt : traffic.dealing = []
  errands : traffic.pipeline.errands = []
  phase : traffic.pipeline.phase.isReleasing = true

/-- Everything is drained: the queue, the fetchers in slots, and what was ever put into the
queue. -/
structure Drained (traffic : Traffic ρ) : Prop where
  queue : traffic.pipeline.supervisor.queue.items = []
  fetchers : ∀ f ∈ traffic.pipeline.supervisor.live, f.duty.fetching = false ∧ f.held = none
  consumed : traffic.sent = traffic.consumed
  recycled : (traffic.sent.flatMap (·.recycle)).Sublist
    traffic.pipeline.supervisor.depot.recycled

/-- Whatever the consumer is set up with, and however threads and consumer take their turns, when it
is about to release the latches, all fetchers in slots wait for the drain or are past it; none of
them fetches or holds a batch; and what was ever put into the queue was consumed and recycled, but
for the batches that were put since the consumer last found the queue empty, which are in it.  So
everything is drained exactly if there are no such batches. -/
theorem drained_at_release_iff {plan : Plan ρ} {moves : List Run.Move}
    (h : Course.follow step moves (opened plan) = some last) (hreleases : last.Releases) :
    (∀ f ∈ last.pipeline.supervisor.live,
      Supervisor.isDrained f = true ∧ f.duty.fetching = false ∧ f.held = none) ∧
    last.sent = last.consumed ++ last.unseen ∧
    last.pipeline.supervisor.queue.items = last.unseen ∧
    (last.consumed.flatMap (·.recycle)).Sublist last.pipeline.supervisor.depot.recycled ∧
    (last.Drained ↔ last.unseen = []) := by
  obtain ⟨hdealt, herrands, hphase⟩ := hreleases
  obtain ⟨bell, hcounted⟩ : ∃ bell, last.pipeline.phase = .counting bell [] := by
    unfold ConsumerPhase.isReleasing at hphase
    split at hphase
    · next bell hcounted => exact ⟨bell, hcounted⟩
    · cases hphase
  have htakes : last.pipeline.phase.isTaking = true := by rw [hcounted]; rfl
  have hattended := (attended_follow h htakes).attended
  have hfetchers : ∀ f ∈ last.pipeline.supervisor.live,
      Supervisor.isDrained f = true ∧ f.duty.fetching = false ∧ f.held = none := by
    intro f hf
    obtain ⟨id, hlive, hfound⟩ := List.mem_filterMap.1 hf
    obtain ⟨hmem, rfl⟩ := Supervisor.mem_crew_of_fetcher? hfound
    have hknows := hattended.knows
    rw [hcounted] at hknows
    have hdrained := hknows.2.2 f hmem hlive List.not_mem_nil
    exact ⟨hdrained, Fetcher.emptyHanded_of_isDrained (hattended.onDuty f hmem hlive) hdrained⟩
  obtain ⟨hsent, hrecycled, hunseen⟩ := booked_follow h htakes
  have hitems : last.pipeline.supervisor.queue.items = last.unseen :=
    hunseen (by rw [hcounted]; rfl)
  rw [hcounted, hitems] at hsent
  have hall : last.sent = last.consumed ++ last.unseen := by
    simpa [ConsumerPhase.inHand] using hsent
  refine ⟨hfetchers, hall, hitems, hrecycled, fun hd => hitems ▸ hd.queue, fun hnone => ?_⟩
  have hconsumed : last.sent = last.consumed := by rw [hall, hnone, List.append_nil]
  exact ⟨hitems.trans hnone, fun f hf => (hfetchers f hf).2, hconsumed, hconsumed ▸ hrecycled⟩

/-- A course on which the fetcher puts its second batch, and waits, before the consumer looks. -/
def early : List Run.Move :=
  working 6 ++ fetching 20 ++ working 5 ++ fetching 8 ++ working 8

/-- When the consumer is about to release its fetcher, everything is drained. -/
theorem sip_released_drained :
    ∃ last, Course.follow step early (opened sip) = some last ∧ last.Releases ∧ last.Drained := by
  have hcourse : (Course.follow step early (opened sip)).any (fun last =>
      last.dealing.isEmpty && last.pipeline.errands.isEmpty && last.pipeline.phase.isReleasing &&
        last.unseen.isEmpty) = true := by
    decide +kernel
  obtain ⟨last, hrun, htest⟩ := (Option.any_eq_true _ _).1 hcourse
  simp only [Bool.and_eq_true, List.isEmpty_iff] at htest
  obtain ⟨⟨⟨hdealt, herrands⟩, hphase⟩, hnone⟩ := htest
  have hreleases : last.Releases := ⟨hdealt, herrands, hphase⟩
  exact ⟨last, hrun, hreleases, (drained_at_release_iff hrun hreleases).2.2.2.2.2 hnone⟩

/-- A course on which it does so between the consumer's last look at the queue and the count. -/
def late : List Run.Move :=
  working 6 ++ fetching 20 ++ working 9 ++ fetching 8 ++ working 1

/-- What comes after it: the fetcher is released and closes its reader, and the run ends. -/
def lateEnd : List Run.Move :=
  working 3 ++ fetching 3 ++ working 8 ++ fetching 3 ++ working 4

/-- Whether a run is over with a summary. -/
def endedWell : ConsumerPhase → Bool
  | .over (.ok _) => true
  | _ => false

/-- The fetcher is released although its second batch is in the queue.  Its reader is closed, and
the run ends well without anybody having taken that batch. -/
theorem sip_released_undrained :
    ∃ last, Course.follow step late (opened sip) = some last ∧ last.Releases ∧ ¬ last.Drained ∧
      ∃ after, Course.follow step lateEnd last = some after ∧
        endedWell after.pipeline.phase = true ∧
        (∀ f ∈ after.pipeline.supervisor.crew, f.isOver = true) ∧
        after.pipeline.supervisor.queue.items ≠ [] := by
  have hcourse : (Course.follow step late (opened sip)).any (fun last =>
      (last.dealing.isEmpty && last.pipeline.errands.isEmpty && last.pipeline.phase.isReleasing &&
        !last.pipeline.supervisor.queue.items.isEmpty) &&
      (Course.follow step lateEnd last).any fun after =>
        endedWell after.pipeline.phase && after.pipeline.supervisor.crew.all (·.isOver) &&
          !after.pipeline.supervisor.queue.items.isEmpty) = true := by
    decide +kernel
  obtain ⟨last, hrun, htest⟩ := (Option.any_eq_true _ _).1 hcourse
  obtain ⟨hreleases, hends⟩ := (Bool.and_eq_true _ _ ▸ htest :)
  obtain ⟨after, hafter, hend⟩ := (Option.any_eq_true _ _).1 hends
  simp only [Bool.and_eq_true, List.isEmpty_iff, Bool.not_eq_true', List.isEmpty_eq_false_iff,
    List.all_eq_true] at hreleases hend
  obtain ⟨⟨⟨hdealt, herrands⟩, hphase⟩, hleft⟩ := hreleases
  exact ⟨last, hrun, ⟨hdealt, herrands, hphase⟩, fun hd => hleft hd.queue, after, hafter, hend.1.1,
    hend.1.2, hend.2⟩

end Traffic

end SplitFeed
