/-
# What a relay comes to

Producers number their parcels and the queue keeps their order.  So what the consumer has of a
producer's parcels, followed by what is queued of them, are always the first so many of them, in
order.  Everything in a round is an operation of the queue, and keeps that.

That a relay comes to its end is another matter.  While parcels are missing at an empty queue some
producer has one left to put, and is awake, because nobody sleeps for want of room that there is.
So there is something in the queue when the consumer's turn comes; and then the consumer is awake,
and the bell it waits for has rung.  Each round brings a parcel, but for the first of a consumer
that waits for bells, which has none yet.
-/
import SplitFeed.Handoff.Relay
import SplitFeed.Proofs.Handoff.Bells
import Mathlib.Algebra.Ring.Nat

namespace SplitFeed.Relay

variable {per producer other count : Nat} {mode : RelayMode} {heckled : Bool} {relay : Relay}
  {queue : HandoffQueue (Nat × Nat)} {parcel : Nat × Nat} {rest : List (Nat × Nat)}
  {counts : List Nat}

/-! ### Numbers and counts -/

/-- The numbers of a producer's parcels among others, in the order of the parcels. -/
def numbersOf (producer : Nat) (parcels : List (Nat × Nat)) : List Nat :=
  (parcels.filter (·.1 == producer)).map (·.2)

theorem numbersOf_append (producer : Nat) (front back : List (Nat × Nat)) :
    numbersOf producer (front ++ back) = numbersOf producer front ++ numbersOf producer back := by
  simp [numbersOf]

theorem numbersOf_singleton (producer : Nat) (parcel : Nat × Nat) :
    numbersOf producer [parcel] = if parcel.1 = producer then [parcel.2] else [] := by
  by_cases h : parcel.1 = producer <;> simp [numbersOf, h]

/-- One more of one producer is one more of all. -/
theorem sum_set_succ (h : counts[producer]? = some count) :
    (counts.set producer (count + 1)).sum = counts.sum + 1 := by
  induction counts generalizing producer with
  | nil => simp at h
  | cons first counts ih =>
      cases producer with
      | zero =>
          obtain rfl : first = count := by simpa using h
          simp only [List.set_cons_zero, List.sum_cons]
          omega
      | succ producer =>
          rw [List.set_cons_succ, List.sum_cons, List.sum_cons, ih (by simpa using h)]
          omega

/-- Counts with a bound for each fall short of it in total exactly if one of them does. -/
theorem sum_lt_iff (h : ∀ count ∈ counts, count ≤ per) :
    counts.sum ≤ counts.length * per ∧
      (counts.sum < counts.length * per ↔ ∃ count ∈ counts, count < per) := by
  induction counts with
  | nil => simp
  | cons first counts ih =>
      obtain ⟨hfirst, hcounts⟩ := List.forall_mem_cons.1 h
      obtain ⟨hle, hlt⟩ := ih hcounts
      have hsome : (∃ count ∈ first :: counts, count < per) ↔
          first < per ∨ ∃ count ∈ counts, count < per := by simp
      rw [List.sum_cons, List.length_cons, Nat.succ_mul, hsome, ← hlt]
      omega

/-! ### What a relay keeps -/

/-- The books of a relay are in order.

`inOrder` is about the queue and every bell that the consumer asked for, `attended` says that the
consumer sleeps only at an empty queue, and nobody else takes anything.  `bounded` and `counted` are
about how many parcels were put, `numbered` says which they are. -/
structure Sound (per : Nat) (relay : Relay) : Prop where
  inOrder : relay.queue.InOrder relay.awaited
  attended : relay.queue.asleepInTake = [] ∨
    relay.queue.items = [] ∧ relay.queue.asleepInTake = [relay.consumerThread]
  bounded : ∀ count ∈ relay.sent, count ≤ per
  counted : relay.received.length + relay.queue.items.length = relay.sent.sum
  numbered : ∀ producer, numbersOf producer (relay.parcels ++ relay.queue.items) =
    List.range (relay.sent[producer]?.getD 0)

/-- A relay before its first round. -/
def opened (producers capacity : Nat) : Relay where
  queue := .ofCapacity capacity
  sent := List.replicate producers 0

theorem sound_opened (producers per capacity : Nat) : Sound per (opened producers capacity) where
  inOrder := HandoffQueue.inOrder_ofCapacity capacity
  attended := .inl rfl
  bounded count hmem := by
    obtain rfl := List.eq_of_mem_replicate hmem
    exact Nat.zero_le per
  counted := by simp [opened, HandoffQueue.ofCapacity]
  numbered producer := by
    have hnone : (opened producers capacity).sent[producer]?.getD 0 = 0 := by
      by_cases h : producer < producers <;> simp [opened, h]
    rw [hnone]
    rfl

/-- The queue may change in whatever concerns neither the parcels nor the sleeping consumer. -/
theorem sound_withQueue (h : Sound per relay) (hinOrder : queue.InOrder relay.awaited)
    (hitems : queue.items = relay.queue.items)
    (hasleep : queue.asleepInTake = relay.queue.asleepInTake ∨ queue.asleepInTake = []) :
    Sound per { relay with queue } where
  inOrder := hinOrder
  attended := by
    rcases hasleep with hsame | hnobody
    · rw [hitems, hsame]
      exact h.attended
    · exact .inl hnobody
  bounded := h.bounded
  counted := hitems ▸ h.counted
  numbered producer := hitems ▸ h.numbered producer

/-- While parcels are missing, they are queued or some producer has one left. -/
theorem exists_left (h : Sound per relay) (hempty : relay.queue.items = [])
    (hmissing : relay.received.length < relay.sent.length * per) :
    ∃ producer count : Nat, relay.sent[producer]? = some count ∧ count < per := by
  have hcounted := h.counted
  rw [hempty, List.length_nil, Nat.add_zero] at hcounted
  obtain ⟨count, hmem, hless⟩ := (sum_lt_iff h.bounded).2.1 (hcounted ▸ hmissing)
  obtain ⟨producer, hfound⟩ := List.mem_iff_getElem?.1 hmem
  exact ⟨producer, count, hfound, hless⟩

/-- When the consumer has as many parcels as all shares together, every producer has put its share
and nothing is queued: nobody has put more. -/
theorem nothing_left (h : Sound per relay)
    (hall : relay.sent.length * per ≤ relay.received.length) :
    relay.queue.items = [] ∧ relay.received.length = relay.sent.length * per ∧
      ∀ count ∈ relay.sent, count = per := by
  obtain ⟨hle, hlt⟩ := sum_lt_iff h.bounded
  have hcounted := h.counted
  refine ⟨List.length_eq_zero_iff.1 (by omega), by omega, fun count hmem => ?_⟩
  refine Nat.le_antisymm (h.bounded count hmem) (Nat.le_of_not_lt fun hless => ?_)
  have := hlt.2 ⟨count, hmem, hless⟩
  omega

/-! ### Producers -/

/-- Lets one producer make an attempt, if it is awake and has a parcel left. -/
def send (per producer : Nat) (relay : Relay) : Relay :=
  match relay.sent[producer]? with
  | some count =>
    if count < per && !relay.queue.asleepInPut.contains producer then
      match relay.queue.put producer producer (producer, count) with
      | (.accepted, queue) => { relay with queue, sent := relay.sent.set producer (count + 1) }
      | (_, queue) => { relay with queue }
    else relay
  | none => relay

/-- Lets producers make their attempts, one after the other. -/
def sendAll (per : Nat) (producers : List Nat) (relay : Relay) : Relay :=
  producers.foldl (fun relay producer => relay.send per producer) relay

/-- That is what all producers do in a round. -/
theorem sendAll_eq_produce (per : Nat) (relay : Relay) (before counts : List Nat)
    (h : relay.sent = before ++ counts) :
    relay.sendAll per (List.range' before.length counts.length) =
      { relay with
        queue := (produce per relay.queue before.length counts).2
        sent := before ++ (produce per relay.queue before.length counts).1 } := by
  induction counts generalizing relay before with
  | nil => simp [sendAll, produce, ← h]
  | cons count counts ih =>
      have hfound : relay.sent[before.length]? = some count := by simp [h]
      have hsame : relay.sent = (before ++ [count]) ++ counts := by simp [h]
      have hset (count' : Nat) :
          relay.sent.set before.length count' = (before ++ [count']) ++ counts := by simp [h]
      have hlater (relay' : Relay) (count' : Nat)
          (hsent : relay'.sent = (before ++ [count']) ++ counts) :=
        ih relay' (before ++ [count']) hsent
      simp only [List.length_append, List.length_singleton] at hlater
      rw [List.length_cons, List.range'_succ, sendAll, List.foldl_cons, ← sendAll, produce]
      by_cases hmay : (count < per && !relay.queue.asleepInPut.contains before.length) = true
      · rcases hput : relay.queue.put before.length before.length (before.length, count) with
          ⟨result, queue⟩
        cases result with
        | accepted =>
            have hsend : relay.send per before.length =
                { relay with queue, sent := relay.sent.set before.length (count + 1) } := by
              simp only [send, hfound, hmay, hput, if_true]
            rw [hsend, hlater _ (count + 1) (hset _), if_pos hmay]
            simp
        | refused _ | asleep =>
            have hsend : relay.send per before.length = { relay with queue } := by
              simp only [send, hfound, hmay, hput, if_true]
            rw [hsend, hlater { relay with queue } count hsame, if_pos hmay]
            simp
      · have hsend : relay.send per before.length = relay := by
          simp only [send, hfound, if_neg hmay]
        rw [hsend, hlater relay count hsame, if_neg hmay]
        simp

/-- A producer that makes an attempt puts its next parcel, or there is no more to it than the
queue's own affairs, and the queue was not empty if the producer had a parcel left. -/
theorem send_cases (h : Sound per relay) (producer : Nat) :
    (∃ count, relay.sent[producer]? = some count ∧ count < per ∧
      (relay.queue.accept producer (producer, count)).InOrder relay.awaited ∧
        relay.send per producer =
          { relay with
            queue := relay.queue.accept producer (producer, count)
            sent := relay.sent.set producer (count + 1) }) ∨
      ∃ queue, relay.send per producer = { relay with queue } ∧ queue.InOrder relay.awaited ∧
        queue.items = relay.queue.items ∧ queue.asleepInTake = relay.queue.asleepInTake ∧
          (relay.queue.items = [] → ∀ count, relay.sent[producer]? = some count → per ≤ count) := by
  have hempty (hnone : relay.queue.items = []) :
      relay.queue.items.length < relay.queue.capacity := by
    rw [hnone]
    exact h.inOrder.room
  cases hfound : relay.sent[producer]? with
  | none => exact .inr ⟨relay.queue, by simp [send, hfound], h.inOrder, rfl, rfl, nofun⟩
  | some count =>
      have hputs := HandoffQueue.inOrder_put h.inOrder producer producer (producer, count)
      by_cases hmay : (count < per && !relay.queue.asleepInPut.contains producer) = true
      · have hless : count < per := by simp_all
        obtain ⟨hclosed, -⟩ | ⟨-, -, hput⟩ | ⟨-, hfull, hput⟩ | ⟨-, hfull, hput⟩ :=
          relay.queue.put_cases producer producer (producer, count)
        · cases h.inOrder.isOpen.symm.trans hclosed
        · rw [hput] at hputs
          exact .inl ⟨count, rfl, hless, hputs, by simp only [send, hfound, hmay, hput, if_true]⟩
        · rw [hput] at hputs
          refine .inr ⟨_, by simp only [send, hfound, hmay, hput, if_true], hputs, rfl, rfl, ?_⟩
          exact fun hnone => absurd (hempty hnone) (Nat.not_lt.2 hfull)
        · rw [hput] at hputs
          refine .inr ⟨_, by simp only [send, hfound, hmay, hput, if_true], hputs, rfl, rfl, ?_⟩
          exact fun hnone => absurd (hempty hnone) (Nat.not_lt.2 hfull)
      · refine .inr ⟨relay.queue, by simp only [send, hfound, if_neg hmay], h.inOrder, rfl, rfl,
          fun hnone count' hcount' => ?_⟩
        obtain rfl := Option.some.inj hcount'
        simpa [h.inOrder.roomy (hempty hnone)] using hmay

theorem sound_send (h : Sound per relay) (producer : Nat) :
    Sound per (relay.send per producer) := by
  obtain ⟨count, hfound, hless, hputs, hsend⟩ | ⟨queue, hsend, hqueue, hitems, hasleep, -⟩ :=
    send_cases h producer <;> rw [hsend]
  · refine ⟨hputs, .inl ?_, fun other hmem => ?_, ?_, fun other => ?_⟩
    · rw [HandoffQueue.asleepInTake_accept]
      rcases h.attended with hnobody | ⟨-, hconsumer⟩
      · rw [hnobody, List.tail_nil]
      · rw [hconsumer, List.tail_cons]
    · rcases List.mem_or_eq_of_mem_set hmem with hbefore | rfl
      · exact h.bounded other hbefore
      · exact hless
    · have hcounted := h.counted
      simp only [HandoffQueue.items_accept, List.length_append, List.length_singleton,
        sum_set_succ hfound]
      omega
    · have hnumbered := h.numbered other
      show numbersOf other
          (relay.parcels ++ (relay.queue.accept producer (producer, count)).items) =
        List.range ((relay.sent.set producer (count + 1))[other]?.getD 0)
      rw [HandoffQueue.items_accept, ← List.append_assoc, numbersOf_append, hnumbered,
        numbersOf_singleton]
      by_cases hsame : producer = other
      · subst hsame
        have hlt : producer < relay.sent.length := (List.getElem?_eq_some_iff.1 hfound).1
        rw [List.getElem?_set_self hlt, hfound, if_pos rfl]
        exact List.range_succ.symm
      · simp [hsame]
  · exact sound_withQueue h hqueue hitems (.inl hasleep)

/-- An attempt takes nothing out of the queue, and leaves the counts of others alone. -/
theorem send_keeps (h : Sound per relay) (producer : Nat) :
    (relay.queue.items ≠ [] → (relay.send per producer).queue.items ≠ []) ∧
      (relay.send per producer).received = relay.received ∧
      (relay.send per producer).awaited = relay.awaited ∧
      (relay.send per producer).sent.length = relay.sent.length ∧
      ∀ other, other ≠ producer → (relay.send per producer).sent[other]? = relay.sent[other]? := by
  obtain ⟨count, -, -, -, hsend⟩ | ⟨queue, hsend, -, hitems, -, -⟩ := send_cases h producer <;>
    rw [hsend]
  · refine ⟨fun _ => by simp, rfl, rfl, List.length_set, fun other hother => ?_⟩
    exact List.getElem?_set_ne hother.symm
  · exact ⟨fun hsome => hitems ▸ hsome, rfl, rfl, rfl, fun _ _ => rfl⟩

/-- At an empty queue a producer that has a parcel left puts it. -/
theorem items_send_ne_nil (h : Sound per relay) (hcount : relay.sent[producer]? = some count)
    (hless : count < per) : (relay.send per producer).queue.items ≠ [] := by
  obtain ⟨_, -, -, -, hsend⟩ | ⟨queue, hsend, -, hitems, -, hnone⟩ := send_cases h producer <;>
    rw [hsend]
  · simp
  · intro hempty
    exact absurd (hnone (hitems.symm.trans hempty) count hcount) (Nat.not_le.2 hless)

theorem sound_sendAll (h : Sound per relay) (producers : List Nat) :
    Sound per (relay.sendAll per producers) ∧
      (relay.sendAll per producers).received = relay.received ∧
      (relay.sendAll per producers).awaited = relay.awaited ∧
      (relay.sendAll per producers).sent.length = relay.sent.length := by
  induction producers generalizing relay with
  | nil => exact ⟨h, rfl, rfl, rfl⟩
  | cons producer producers ih =>
      obtain ⟨-, hreceived, hawaited, hlength, -⟩ := send_keeps h producer
      obtain ⟨hsound, hreceived', hawaited', hlength'⟩ := ih (sound_send h producer)
      exact ⟨hsound, hreceived'.trans hreceived, hawaited'.trans hawaited, hlength'.trans hlength⟩

/-- When all producers have had their turns there is something in the queue, if there was before or
one of them had a parcel left. -/
theorem items_sendAll_ne_nil (h : Sound per relay) (producers : List Nat)
    (hsome : relay.queue.items ≠ [] ∨
      ∃ producer ∈ producers, ∃ count, relay.sent[producer]? = some count ∧ count < per) :
    (relay.sendAll per producers).queue.items ≠ [] := by
  induction producers generalizing relay with
  | nil => exact hsome.resolve_right fun ⟨_, hmem, _⟩ => List.not_mem_nil hmem
  | cons producer producers ih =>
      obtain ⟨hstay, -, -, -, hothers⟩ := send_keeps h producer
      refine ih (sound_send h producer) ?_
      rcases hsome with hitems | ⟨other, hmem, count, hcount, hless⟩
      · exact .inl (hstay hitems)
      · by_cases hsame : other = producer
        · subst hsame
          exact .inl (items_send_ne_nil h hcount hless)
        · refine .inr ⟨other, (List.mem_cons.1 hmem).resolve_left hsame, count, ?_, hless⟩
          rw [hothers other hsame, hcount]

/-! ### The consumer -/

/-- The consumer gets the head of the queue. -/
def receive (parcel : Nat × Nat) (rest : List (Nat × Nat)) (relay : Relay) : Relay :=
  { relay with
    queue := { relay.queue with items := rest, asleepInPut := [] }
    received := parcel :: relay.received }

/-- The consumer asks for a bell. -/
def ask (relay : Relay) : Relay :=
  { relay with
    queue := relay.queue.availability.2
    awaited := relay.queue.availability.1 :: relay.awaited }

theorem sound_receive (h : Sound per relay) (hitems : relay.queue.items = parcel :: rest) :
    Sound per (relay.receive parcel rest) where
  inOrder := by
    have hqueue := HandoffQueue.inOrder_poll h.inOrder
    rwa [HandoffQueue.poll_cons hitems] at hqueue
  attended := .inl (h.attended.resolve_right fun hnone => by simp [hitems] at hnone)
  bounded := h.bounded
  counted := by
    have hcounted := h.counted
    rw [hitems, List.length_cons] at hcounted
    simp only [receive, List.length_cons]
    omega
  numbered producer := by
    have hsame : (relay.receive parcel rest).parcels ++ (relay.receive parcel rest).queue.items =
        relay.parcels ++ relay.queue.items := by
      simp [receive, parcels, hitems]
    rw [hsame]
    exact h.numbered producer

theorem sound_ask (h : Sound per relay) : Sound per relay.ask := by
  have hitems := relay.queue.availability_same.1
  have hasleep : relay.queue.availability.2.asleepInTake = relay.queue.asleepInTake := by
    obtain ⟨-, hcase⟩ | ⟨-, -, hcase⟩ | ⟨-, -, hcase⟩ := relay.queue.availability_cases <;>
      rw [hcase]
    rfl
  refine ⟨?_, ?_, h.bounded, ?_, fun producer => ?_⟩
  · refine HandoffQueue.inOrder_mono (HandoffQueue.inOrder_availability h.inOrder) ?_
    intro bell hmem
    rcases List.mem_cons.1 hmem with rfl | hbefore
    · exact List.mem_concat_self
    · exact List.mem_append_left _ hbefore
  · show relay.queue.availability.2.asleepInTake = [] ∨ relay.queue.availability.2.items = [] ∧
      relay.queue.availability.2.asleepInTake = [relay.consumerThread]
    rw [hitems, hasleep]
    exact h.attended
  · show relay.received.length + relay.queue.availability.2.items.length = relay.sent.sum
    rw [hitems]
    exact h.counted
  · show numbersOf producer (relay.parcels ++ relay.queue.availability.2.items) = _
    rw [hitems]
    exact h.numbered producer

theorem collect_poll_nil (h : relay.queue.items = []) : relay.collect .poll = relay.ask := by
  simp only [collect, HandoffQueue.poll_nil h]
  rfl

theorem collect_poll_cons (h : relay.queue.items = parcel :: rest) :
    relay.collect .poll = relay.receive parcel rest := by
  simp only [collect, HandoffQueue.poll_cons h]
  rfl

/-- Who waits for a bell asks for a first one, and polls when the last one that it asked for has
rung. -/
theorem collect_await (relay : Relay) :
    relay.collect .await =
      match relay.awaited with
      | bell :: _ => if relay.queue.hasRung bell then relay.collect .poll else relay
      | [] => relay.ask := by
  unfold collect ask
  cases relay.awaited with
  | nil => rfl
  | cons bell earlier => rfl

/-- When the consumer's turn comes at a queue with something in it, it gets that, unless it still
has to ask for its first bell. -/
theorem collect_of_cons (mode : RelayMode) (h : Sound per relay)
    (hitems : relay.queue.items = parcel :: rest) (hasked : mode = .await → relay.awaited ≠ []) :
    relay.collect mode = relay.receive parcel rest := by
  have hsome : relay.queue.items ≠ [] := by simp [hitems]
  cases mode with
  | take =>
      have hawake : relay.queue.asleepInTake = [] :=
        h.attended.resolve_right fun hnone => hsome hnone.1
      have hnot : relay.queue.asleepInTake.contains relay.consumerThread = false := by
        rw [hawake]
        rfl
      simp only [collect, hnot, Bool.false_eq_true, if_false, HandoffQueue.take, hitems]
      rfl
  | poll => exact collect_poll_cons hitems
  | await =>
      rw [collect_await]
      cases hawaited : relay.awaited with
      | nil => exact absurd hawaited (hasked rfl)
      | cons bell earlier =>
          have hrung : relay.queue.hasRung bell = true :=
            Belfry.hasRung_of_sound h.inOrder.bells (.inl hsome)
              (hawaited ▸ List.mem_cons_self : bell ∈ relay.awaited)
          simp only [hrung, if_true]
          exact collect_poll_cons hitems

theorem sound_collect (h : Sound per relay) (mode : RelayMode) :
    Sound per (relay.collect mode) := by
  have hpolls : Sound per (relay.collect .poll) := by
    cases hitems : relay.queue.items with
    | nil =>
        rw [collect_poll_nil hitems]
        exact sound_ask h
    | cons parcel rest =>
        rw [collect_poll_cons hitems]
        exact sound_receive h hitems
  cases mode with
  | poll => exact hpolls
  | await =>
      rw [collect_await]
      split
      · split
        · exact hpolls
        · exact h
      · exact sound_ask h
  | take =>
      have htakes := HandoffQueue.inOrder_take h.inOrder relay.consumerThread
      by_cases hasleep : relay.queue.asleepInTake.contains relay.consumerThread = true
      · simpa only [collect, hasleep, if_true] using h
      · obtain ⟨head, rest, hitems, -⟩ | ⟨hclosed, -⟩ | ⟨-, htake⟩ | ⟨hitems, -, -, htake⟩ :=
          relay.queue.take_cases relay.consumerThread
        · rw [collect_of_cons .take h hitems nofun]
          exact sound_receive h hitems
        · cases h.inOrder.isOpen.symm.trans hclosed
        · rw [htake] at htakes
          simp only [collect, if_neg hasleep, htake]
          exact sound_withQueue h htakes rfl (.inl rfl)
        · rw [htake] at htakes
          have hnobody : relay.queue.asleepInTake = [] :=
            h.attended.resolve_right fun hnone => by simp [hnone.2] at hasleep
          simp only [collect, if_neg hasleep, htake]
          refine ⟨htakes, .inr ⟨hitems, ?_⟩, h.bounded, h.counted, h.numbered⟩
          simp [hnobody, consumerThread]

/-! ### Rounds -/

/-- Waking producers up leaves a queue in order, and what is in it. -/
theorem inOrder_wakeProducers {handed : List Nat} (h : queue.InOrder handed)
    (producers : List Nat) :
    let woken := producers.foldl (fun queue producer => queue.wakeProducer producer) queue
    woken.InOrder handed ∧ woken.items = queue.items := by
  induction producers generalizing queue with
  | nil => exact ⟨h, rfl⟩
  | cons producer producers ih => exact ih (HandoffQueue.inOrder_wakeProducer h producer)

/-- A disturbance changes nothing about the parcels. -/
theorem sound_disturb (h : Sound per relay) :
    Sound per relay.disturb ∧ relay.disturb.queue.items = relay.queue.items := by
  obtain ⟨hinOrder, hitems⟩ := inOrder_wakeProducers h.inOrder (List.range relay.sent.length)
  exact ⟨sound_withQueue h (HandoffQueue.inOrder_wakeConsumer hinOrder) hitems (.inr rfl), hitems⟩

/-- The relay when the consumer's turn comes. -/
def beforeCollect (per : Nat) (heckled : Bool) (relay : Relay) : Relay :=
  let sent := { relay with
    queue := (produce per relay.queue 0 relay.sent).2
    sent := (produce per relay.queue 0 relay.sent).1 }
  if heckled then sent.disturb else sent

theorem round_eq (per : Nat) (mode : RelayMode) (heckled : Bool) (relay : Relay) :
    relay.round per mode heckled = (relay.beforeCollect per heckled).collect mode := rfl

/-- When the consumer's turn comes, there is something in the queue if parcels are missing. -/
theorem sound_beforeCollect (h : Sound per relay) (heckled : Bool) :
    Sound per (relay.beforeCollect per heckled) ∧
      (relay.beforeCollect per heckled).received = relay.received ∧
      (relay.beforeCollect per heckled).awaited = relay.awaited ∧
      (relay.beforeCollect per heckled).sent.length = relay.sent.length ∧
      (relay.received.length < relay.sent.length * per →
        (relay.beforeCollect per heckled).queue.items ≠ []) := by
  have hall := sendAll_eq_produce per relay [] relay.sent rfl
  obtain ⟨hsound, hreceived, hawaited, hlength⟩ :=
    sound_sendAll h (List.range' 0 relay.sent.length)
  have hsome (hmissing : relay.received.length < relay.sent.length * per) :
      (relay.sendAll per (List.range' 0 relay.sent.length)).queue.items ≠ [] := by
    refine items_sendAll_ne_nil h _ ?_
    by_cases hempty : relay.queue.items = []
    · obtain ⟨producer, count, hcount, hless⟩ := exists_left h hempty hmissing
      refine .inr ⟨producer, ?_, count, hcount, hless⟩
      simpa using (List.getElem?_eq_some_iff.1 hcount).1
    · exact .inl hempty
  simp only [List.length_nil, List.nil_append] at hall
  rw [hall] at hsound hlength hsome
  cases heckled with
  | false => exact ⟨hsound, rfl, rfl, hlength, hsome⟩
  | true =>
      obtain ⟨hdisturbed, hitems⟩ := sound_disturb hsound
      exact ⟨hdisturbed, rfl, rfl, hlength, fun hmissing => hitems ▸ hsome hmissing⟩

theorem sound_round (h : Sound per relay) (mode : RelayMode) (heckled : Bool) :
    Sound per (relay.round per mode heckled) :=
  sound_collect (sound_beforeCollect h heckled).1 mode

/-- How many rounds the consumer is still to spend on asking for its first bell. -/
def lag (mode : RelayMode) (relay : Relay) : Nat :=
  if mode = .await ∧ relay.awaited = [] then 1 else 0

/-- While parcels are missing, a round brings one, or the first bell. -/
theorem round_advances (h : Sound per relay) (mode : RelayMode) (heckled : Bool)
    (hmissing : relay.received.length < relay.sent.length * per) :
    (relay.round per mode heckled).sent.length = relay.sent.length ∧
      relay.received.length + lag mode (relay.round per mode heckled) + 1 =
        (relay.round per mode heckled).received.length + lag mode relay := by
  obtain ⟨hsound, hreceived, hawaited, hlength, hsome⟩ := sound_beforeCollect h heckled
  obtain ⟨parcel, rest, hitems⟩ := List.exists_cons_of_ne_nil (hsome hmissing)
  rw [round_eq]
  by_cases hfirst : mode = .await ∧ relay.awaited = []
  · obtain ⟨rfl, hnone⟩ := hfirst
    have hasks : (relay.beforeCollect per heckled).collect .await =
        (relay.beforeCollect per heckled).ask := by
      rw [collect_await, hawaited, hnone]
    rw [hasks]
    refine ⟨hlength, ?_⟩
    simp [lag, ask, hnone, hreceived]
  · have hasked : mode = .await → (relay.beforeCollect per heckled).awaited ≠ [] :=
      fun hmode => hawaited ▸ fun hnone => hfirst ⟨hmode, hnone⟩
    rw [collect_of_cons mode hsound hitems hasked]
    refine ⟨hlength, ?_⟩
    have hlag : lag mode ((relay.beforeCollect per heckled).receive parcel rest) = 0 := by
      rw [lag, if_neg]
      exact fun hnow => hfirst ⟨hnow.1, hawaited ▸ hnow.2⟩
    rw [hlag, lag, if_neg hfirst]
    simp [receive, hreceived]

/-- With a round for each missing parcel, and for the first bell, a relay comes to its end. -/
theorem sound_run (h : Sound per relay) (mode : RelayMode) (heckled : Bool) (rounds : Nat)
    (hrounds : relay.sent.length * per + lag mode relay ≤ relay.received.length + rounds) :
    Sound per (run per mode heckled (relay.sent.length * per) rounds relay) ∧
      (run per mode heckled (relay.sent.length * per) rounds relay).sent.length =
        relay.sent.length ∧
      relay.sent.length * per ≤
        (run per mode heckled (relay.sent.length * per) rounds relay).received.length := by
  induction rounds generalizing relay with
  | zero => exact ⟨h, rfl, by simp only [run]; omega⟩
  | succ rounds ih =>
      rw [run]
      split
      · next hmissing =>
          obtain ⟨hlength, hadvances⟩ := round_advances h mode heckled hmissing
          have hlater := ih (sound_round h mode heckled)
          rw [hlength] at hlater
          exact hlater (by omega)
      · next hdone => exact ⟨h, rfl, Nat.le_of_not_lt hdone⟩

/-- A consumer never gets the parcels of a producer out of order. -/
theorem inOrder_of_sound (h : Sound per relay) : relay.inOrder = true := by
  refine List.all_eq_true.2 fun producer _ => beq_iff_eq.2 ?_
  have hnumbered := h.numbered producer
  rw [numbersOf_append] at hnumbered
  have hfirst := congrArg (List.take (numbersOf producer relay.parcels).length) hnumbered
  rw [List.take_left, List.take_range] at hfirst
  have hlength := congrArg List.length hfirst
  rw [List.length_range] at hlength
  exact hfirst.trans (congrArg List.range hlength.symm)

/-- Whatever the capacity, however the consumer waits and whether or not everybody is disturbed
all the time: a relay ends with all parcels received, each producer's in order, with nothing left
in the closed queue, and with no bell that the consumer asked for still silent. -/
theorem complete_delivers (producers per capacity : Nat) (mode : RelayMode) (heckled : Bool) :
    let relay := complete producers per capacity mode heckled
    (∀ producer, numbersOf producer relay.parcels =
      List.range (if producer < producers then per else 0)) ∧
    relay.inOrder = true ∧ relay.parcels.length = producers * per ∧
    relay.queue.items = [] ∧ relay.queue.closed = true ∧
    ∀ bell ∈ relay.awaited, relay.queue.hasRung bell = true := by
  have hopened := sound_opened producers per capacity
  have hproducers : (opened producers capacity).sent.length = producers := List.length_replicate
  have hlag : lag mode (opened producers capacity) ≤ 1 := by
    unfold lag
    split <;> decide
  have hrun := sound_run hopened mode heckled (3 * (producers * per) + 3) (by
    rw [hproducers]
    omega)
  rw [hproducers] at hrun
  generalize hended : run per mode heckled (producers * per) (3 * (producers * per) + 3)
    (opened producers capacity) = ended at hrun
  obtain ⟨hsound, hlength, hall⟩ := hrun
  have hcomplete : complete producers per capacity mode heckled =
      { ended with queue := ended.queue.close } := by
    rw [← hended]
    rfl
  obtain ⟨hempty, hcount, hshares⟩ := nothing_left hsound (hlength.symm ▸ hall)
  simp only [hcomplete]
  refine ⟨fun producer => ?_, ?_, ?_, hempty, rfl, fun bell hmem => ?_⟩
  · have hnumbered := hsound.numbered producer
    rw [hempty, List.append_nil] at hnumbered
    refine hnumbered.trans (congrArg List.range ?_)
    split
    · next hproducer =>
        have hlt' : producer < ended.sent.length := hlength ▸ hproducer
        rw [List.getElem?_eq_getElem hlt']
        exact hshares _ (List.getElem_mem hlt')
    · next hproducer =>
        rw [List.getElem?_eq_none (by omega)]
        rfl
  · exact (inOrder_of_sound hsound : ended.inOrder = true)
  · exact (List.length_reverse : ended.parcels.length = _).trans (hlength ▸ hcount)
  · exact Belfry.hasRung_ringBell_of_sound hsound.inOrder.bells hmem

end SplitFeed.Relay
