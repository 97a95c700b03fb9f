/-
# Wake-ups are aimed, and spent once

A wake-up is a flag that anybody may raise and that two different ends of a call lower: a put that
is woken, and one that is accepted without having had to wait.  To say when a flag is up without
looking at it, everything that can be seen at a dock is noted: each wake-up, and each call that
ended with how it ended.  A wake-up is pending if it was noted since the last note of an end that
spends it.

The flags agree with the notes, whatever threads do.  All the rest follows from that: whoever is
woken finds its own flag up, and lowers it.
-/
import SplitFeed.Proofs.Handoff.Sleepers

namespace SplitFeed

namespace HandoffQueue

variable {α : Type} {thread producer : Nat} {element back : α} {queue after : HandoffQueue α}

/-- A producer that is woken had a wake-up pending, at a full, open queue. -/
theorem woken_of_put (h : queue.put thread producer element = (.refused (.wokenUp back), after)) :
    producer ∈ queue.wokenProducers ∧ queue.closed = false ∧
      queue.capacity ≤ queue.items.length := by
  obtain ⟨-, hput⟩ | ⟨-, -, hput⟩ | ⟨hopen, hfull, hput⟩ | ⟨-, -, hput⟩ :=
    queue.put_cases thread producer element
  · cases hput.symm.trans h
  · cases hput.symm.trans h
  · refine ⟨?_, hopen, hfull⟩
    by_contra hunwoken
    have hnoRoom : queue.hasRoom = false := by simpa [hasRoom] using hfull
    simp [put, hopen, hnoRoom, hunwoken] at h
  · cases hput.symm.trans h

/-- A consumer that is interrupted had a wake-up pending, at an empty, open queue. -/
theorem woken_of_take (h : queue.take thread = (.refused .interrupted, after)) :
    queue.consumerWoken = true ∧ queue.items = [] ∧ queue.closed = false := by
  unfold take at h
  split at h
  · cases h
  · next hempty =>
      split at h
      · cases h
      · next hopen =>
          split at h
          · next hwoken => exact ⟨hwoken, hempty, Bool.eq_false_iff.2 hopen⟩
          · cases h

/-- At a full queue a put of a woken producer does not wait. -/
theorem put_of_woken (hwoken : producer ∈ queue.wokenProducers)
    (hfull : queue.capacity ≤ queue.items.length) :
    (queue.put thread producer element).1 =
      .refused (if queue.closed then .closed element else .wokenUp element) := by
  have hnoRoom : queue.hasRoom = false := by simpa [hasRoom] using hfull
  cases hclosed : queue.closed <;> simp [put, hclosed, hnoRoom, hwoken]

/-- How a put ends does not depend on the wake-ups of other producers. -/
theorem put_wakeProducer_of_ne {other : Nat} (hother : other ≠ producer) :
    ((queue.wakeProducer other).put thread producer element).1 =
      (queue.put thread producer element).1 := by
  have hwoken : producer ∈ (queue.wakeProducer other).wokenProducers ↔
      producer ∈ queue.wokenProducers := by
    simp [wakeProducer, rouseProducers, Ne.symm hother]
  have hroom : (queue.wakeProducer other).hasRoom = queue.hasRoom := rfl
  simp only [put, closed_wakeProducer, hroom, hwoken]
  repeat' split
  all_goals rfl

/-- A poll wakes nobody, and spends no wake-up. -/
theorem woken_poll (queue : HandoffQueue α) :
    queue.poll.2.wokenProducers = queue.wokenProducers ∧
      queue.poll.2.consumerWoken = queue.consumerWoken := by
  unfold poll
  split <;> exact ⟨rfl, rfl⟩

/-- Nor does who asks for a bell. -/
theorem consumerWoken_availability (queue : HandoffQueue α) :
    queue.availability.2.consumerWoken = queue.consumerWoken := by
  unfold availability
  split
  · rfl
  · split <;> rfl

end HandoffQueue

namespace Dock

variable {α : Type}

/-! ### What is noted -/

/-- What can be seen of a move. -/
inductive Note (α : Type) where
  /-- Somebody woke a producer. -/
  | producerWoken (producer : Nat)
  /-- Somebody woke the consumer. -/
  | consumerWoken
  /-- A call ended. -/
  | ended (thread : Nat) (call : DockCall α) (result : DockResult α)
deriving DecidableEq

namespace Note

/-- Whether a producer was woken. -/
def wakes (producer : Nat) : Note α → Bool
  | producerWoken woken => woken == producer
  | _ => false

/-- Whether a put of a producer ended because it was woken. -/
def releases (producer : Nat) : Note α → Bool
  | ended _ (.put caller _) (.notStored (.wokenUp _)) => caller == producer
  | _ => false

/-- Whether a put of a producer was accepted, or ended because it was woken. -/
def settles (producer : Nat) : Note α → Bool
  | ended _ (.put caller _) .stored => caller == producer
  | note => note.releases producer

/-- Whether the consumer was woken. -/
def wakesConsumer : Note α → Bool
  | consumerWoken => true
  | _ => false

/-- Whether a call ended because the consumer was woken. -/
def interrupts : Note α → Bool
  | ended _ _ (.notTaken .interrupted) => true
  | _ => false

variable {note : Note α} {producer : Nat}

theorem releases_of_wakes (producer : Nat) (h : note.wakes producer = true) :
    note.releases producer = false := by
  cases note with
  | producerWoken _ => rfl
  | consumerWoken | ended _ _ _ => cases h

theorem interrupts_of_wakesConsumer (h : note.wakesConsumer = true) : note.interrupts = false := by
  cases note with
  | consumerWoken => rfl
  | producerWoken _ | ended _ _ _ => cases h

/-- A put that was woken is settled. -/
theorem settles_of_releases (h : note.releases producer = true) : note.settles producer = true := by
  unfold settles
  split
  · cases h
  · exact h

end Note

/-- What an attempt of a call lets see: how the call ended, if it did. -/
def ending (thread : Nat) (call : DockCall α) (queue : HandoffQueue α) : List (Note α) :=
  (attempt thread call queue).1.toList.map (.ended thread call)

/-- What a move lets see. -/
def notes (dock : Dock α) : Move α → List (Note α)
  | .start thread call => ending thread call dock.queue
  | .retry thread =>
    match dock.underWay.find? (·.1 == thread) with
    | some (_, call) => ending thread call dock.queue
    | none => []
  | .wakeProducer producer => [.producerWoken producer]
  | .wakeConsumer => [.consumerWoken]
  | .poll | .availability | .notifyAvailable | .close | .stir _ | .shuffle .. => []

/-- A note of the one kind was made, and none of the other kind since. -/
def Pending (calls spends : Note α → Bool) (log : List (Note α)) : Prop :=
  ∃ before note after, log = before ++ note :: after ∧ calls note = true ∧
    ∀ later ∈ after, spends later = false

/-- A producer was woken since the last put of it that was accepted or woken. -/
abbrev PutPending (producer : Nat) : List (Note α) → Prop :=
  Pending (Note.wakes producer) (Note.settles producer)

/-- The consumer was woken since a take was last interrupted. -/
abbrev TakePending : List (Note α) → Prop :=
  Pending Note.wakesConsumer Note.interrupts

/-! ### Flags that agree with the notes -/

section Flags

variable {calls spends uses : Note α → Bool} {log : List (Note α)} {note : Note α} {flag : Bool}

theorem not_pending_nil : ¬ Pending calls spends ([] : List (Note α)) := by
  rintro ⟨before, note, after, hlog, -⟩
  simp at hlog

/-- The last note may be the call, or must leave pending what was. -/
theorem pending_concat :
    Pending calls spends (log ++ [note]) ↔
      calls note = true ∨ Pending calls spends log ∧ spends note = false := by
  constructor
  · rintro ⟨before, call, after, hlog, hcall, hafter⟩
    rcases List.eq_nil_or_concat after with rfl | ⟨earlier, last, rfl⟩
    · obtain ⟨-, hlast⟩ := List.append_inj' hlog rfl
      obtain rfl : note = call := by simpa using hlast
      exact .inl hcall
    · rw [List.concat_eq_append] at hlog hafter
      rw [← List.cons_append, ← List.append_assoc] at hlog
      obtain ⟨hbefore, hlast⟩ := List.append_inj' hlog rfl
      obtain rfl : note = last := by simpa using hlast
      exact .inr ⟨⟨before, call, earlier, hbefore, hcall,
        fun later hlater => hafter later (List.mem_append_left _ hlater)⟩,
        hafter note (List.mem_append_right _ List.mem_cons_self)⟩
  · rintro (hcall | ⟨⟨before, call, after, rfl, hcall, hafter⟩, hspends⟩)
    · exact ⟨log, note, [], rfl, hcall, nofun⟩
    · refine ⟨before, call, after ++ [note], by simp, hcall, fun later hlater => ?_⟩
      rcases List.mem_append.1 hlater with hold | hlast
      · exact hafter later hold
      · rwa [List.mem_singleton.1 hlast]

/-- A flag is up while something is pending, and there were calls enough for all uses and for the
flag that is still up. -/
structure Kept (calls spends uses : Note α → Bool) (log : List (Note α)) (flag : Bool) : Prop where
  pending : flag = true ↔ Pending calls spends log
  enough : log.countP uses + flag.toNat ≤ log.countP calls

theorem kept_nil : Kept calls spends uses ([] : List (Note α)) false where
  pending := iff_of_false Bool.false_ne_true not_pending_nil
  enough := Nat.le_refl _

/-- A call raises the flag, whatever spends lowers it, and a use must find it up. -/
theorem kept_concat (h : Kept calls spends uses log flag)
    (hcall : calls note = true → uses note = false)
    (huse : uses note = true → flag = true ∧ spends note = true) :
    Kept calls spends uses (log ++ [note]) (calls note || (flag && !spends note)) where
  pending := by
    rw [pending_concat, ← h.pending]
    simp
  enough := by
    have henough := h.enough
    rw [List.countP_append, List.countP_append, List.countP_singleton, List.countP_singleton]
    cases hcalls : calls note <;> cases huses : uses note
    · have hless : (flag && !spends note).toNat ≤ flag.toNat := by
        cases flag <;> cases spends note <;> decide
      simp only [Bool.false_or, Bool.false_eq_true, if_false]
      omega
    · obtain ⟨rfl, hspends⟩ := huse huses
      simp only [hspends, Bool.false_or, Bool.false_eq_true, if_true, if_false] at henough ⊢
      simpa using henough
    · simp only [Bool.true_or, Bool.toNat_true, Bool.false_eq_true, if_true, if_false]
      omega
    · simp [hcall hcalls] at huses

end Flags

/-- The flags of the queue agree with what was noted. -/
structure Booked (log : List (Note α)) (queue : HandoffQueue α) : Prop where
  once : queue.wokenProducers.Nodup
  puts : ∀ producer, Kept (Note.wakes producer) (Note.settles producer) (Note.releases producer) log
    (decide (producer ∈ queue.wokenProducers))
  takes : Kept Note.wakesConsumer Note.interrupts Note.interrupts log queue.consumerWoken

variable {log : List (Note α)} {dock next : Dock α} {queue after : HandoffQueue α}
  {thread producer : Nat} {call : DockCall α} {note : Note α} {move : Move α}

theorem booked_ofCapacity (capacity : Nat) :
    Booked [] (HandoffQueue.ofCapacity capacity : HandoffQueue α) where
  once := List.nodup_nil
  puts _ := kept_nil
  takes := kept_nil

/-- Nobody's flag changes. -/
theorem booked_of_same (h : Booked log queue)
    (hproducers : after.wokenProducers = queue.wokenProducers)
    (hconsumer : after.consumerWoken = queue.consumerWoken) : Booked log after where
  once := hproducers ▸ h.once
  puts := hproducers ▸ h.puts
  takes := hconsumer ▸ h.takes

/-- What is noted changes the flags as it should: nobody is woken or interrupted whose flag is down,
and the flags go up and down with the notes. -/
theorem booked_concat (h : Booked log queue) (honce : after.wokenProducers.Nodup)
    (hputs : ∀ producer, producer ∈ after.wokenProducers ↔ note.wakes producer = true ∨
      producer ∈ queue.wokenProducers ∧ note.settles producer = false)
    (hreleased : ∀ producer, note.releases producer = true → producer ∈ queue.wokenProducers)
    (htakes : after.consumerWoken =
      (note.wakesConsumer || (queue.consumerWoken && !note.interrupts)))
    (hinterrupted : note.interrupts = true → queue.consumerWoken = true) :
    Booked (log ++ [note]) after where
  once := honce
  puts producer := by
    have hflag : decide (producer ∈ after.wokenProducers) =
        (note.wakes producer ||
          (decide (producer ∈ queue.wokenProducers) && !note.settles producer)) := by
      rw [Bool.eq_iff_iff]
      simpa using hputs producer
    rw [hflag]
    refine kept_concat (h.puts producer) (Note.releases_of_wakes producer) fun hreleases => ?_
    exact ⟨decide_eq_true (hreleased producer hreleases), Note.settles_of_releases hreleases⟩
  takes := by
    rw [htakes]
    exact kept_concat h.takes Note.interrupts_of_wakesConsumer fun hinterrupts =>
      ⟨hinterrupted hinterrupts, hinterrupts⟩

/-! ### What a move makes of the flags -/

/-- A put of a producer that is accepted or woken lowers its flag. -/
theorem booked_settled (h : Booked log queue) {thread producer : Nat} {element : α}
    {result : DockResult α} (hsettles : ∀ other,
      (Note.ended thread (.put producer element) result).settles other = (producer == other))
    (hwoken : ∀ other, (Note.ended thread (.put producer element) result).releases other = true →
      other ∈ queue.wokenProducers)
    (hinterrupts : (Note.ended thread (.put producer element) result).interrupts = false)
    (hproducers : after.wokenProducers = queue.wokenProducers.erase producer)
    (hconsumer : after.consumerWoken = queue.consumerWoken) :
    Booked (log ++ [.ended thread (.put producer element) result]) after := by
  refine booked_concat h (hproducers ▸ h.once.erase _) (fun other => ?_) hwoken ?_ ?_
  · rw [hproducers, h.once.mem_erase_iff, hsettles]
    simp [Note.wakes, and_comm, @eq_comm _ other]
  · simp [hconsumer, hinterrupts, Note.wakesConsumer]
  · simp [hinterrupts]

/-- A call may end without anybody having been woken. -/
theorem booked_unwoken (h : Booked log queue) {thread : Nat} {call : DockCall α}
    {result : DockResult α}
    (hsettles : ∀ other, (Note.ended thread call result).settles other = false)
    (hinterrupts : (Note.ended thread call result).interrupts = false)
    (hproducers : after.wokenProducers = queue.wokenProducers)
    (hconsumer : after.consumerWoken = queue.consumerWoken) :
    Booked (log ++ [.ended thread call result]) after := by
  refine booked_concat h (hproducers ▸ h.once) (fun other => ?_) (fun other hreleases => ?_) ?_ ?_
  · simp [hproducers, hsettles, Note.wakes]
  · cases (hsettles other).symm.trans (Note.settles_of_releases hreleases)
  · simp [hconsumer, hinterrupts, Note.wakesConsumer]
  · simp [hinterrupts]

/-- An attempt of a put lowers the flag of its producer if it is accepted or woken. -/
theorem booked_put (h : Booked log queue) (thread producer : Nat) (element : α) :
    Booked (log ++ ending thread (.put producer element) queue)
      (attempt thread (.put producer element) queue).2 := by
  unfold ending attempt
  obtain ⟨-, hput⟩ | ⟨-, -, hput⟩ | ⟨-, -, hput⟩ | ⟨-, -, hput⟩ :=
    queue.put_cases thread producer element <;> simp only [hput]
  · exact booked_unwoken h (fun _ => rfl) rfl rfl rfl
  · exact booked_settled h (fun _ => rfl) nofun rfl (HandoffQueue.wokenProducers_accept ..)
      (HandoffQueue.consumerWoken_accept ..)
  · refine booked_settled h (fun _ => rfl) (fun other hreleases => ?_) rfl rfl rfl
    obtain rfl : producer = other := beq_iff_eq.1 hreleases
    exact (HandoffQueue.woken_of_put hput).1
  · simp only [Option.toList_none, List.map_nil, List.append_nil]
    exact booked_of_same h rfl rfl

/-- An attempt of a take lowers the flag of the consumer if it is interrupted. -/
theorem booked_take (h : Booked log queue) (thread : Nat) :
    Booked (log ++ ending thread .take queue) (attempt thread .take queue).2 := by
  unfold ending attempt
  obtain ⟨_, _, -, htake⟩ | ⟨-, htake⟩ | ⟨hwoken, htake⟩ | ⟨-, -, -, htake⟩ :=
    queue.take_cases thread <;> simp only [htake]
  · exact booked_unwoken h (fun _ => rfl) rfl rfl rfl
  · exact booked_unwoken h (fun _ => rfl) rfl rfl rfl
  · refine booked_concat h h.once (fun other => ?_) nofun ?_ fun _ => hwoken
    · simp [Note.wakes, Note.settles, Note.releases]
    · simp [Note.wakesConsumer, Note.interrupts]
  · simp only [Option.toList_none, List.map_nil, List.append_nil]
    exact booked_of_same h rfl rfl

theorem booked_attempt (h : Booked log queue) (thread : Nat) (call : DockCall α) :
    Booked (log ++ ending thread call queue) (attempt thread call queue).2 := by
  cases call with
  | put producer element => exact booked_put h thread producer element
  | take => exact booked_take h thread

theorem booked_wakeProducer (h : Booked log queue) (producer : Nat) :
    Booked (log ++ [.producerWoken producer]) (queue.wakeProducer producer) := by
  refine booked_concat h (h.once.insert) (fun other => ?_) nofun ?_ nofun
  · simp [HandoffQueue.wakeProducer, HandoffQueue.rouseProducers, Note.wakes, Note.settles,
      Note.releases, @eq_comm _ other]
  · simp [HandoffQueue.wakeProducer, HandoffQueue.rouseProducers, Note.wakesConsumer,
      Note.interrupts]

theorem booked_wakeConsumer (h : Booked log queue) :
    Booked (log ++ [.consumerWoken]) queue.wakeConsumer := by
  refine booked_concat h h.once (fun other => ?_) nofun rfl nofun
  simp [HandoffQueue.wakeConsumer, HandoffQueue.rouseConsumers, Note.wakes, Note.settles,
    Note.releases]

theorem queue_start (thread : Nat) (call : DockCall α) (dock : Dock α) :
    (dock.start thread call).2.queue = (attempt thread call dock.queue).2 := by
  unfold start
  split <;> next hattempt => rw [hattempt]

theorem queue_retry (thread : Nat) (call : DockCall α) (dock : Dock α) :
    (dock.retry thread call).queue = (attempt thread call dock.queue).2 := by
  unfold retry
  split <;> next hattempt => rw [hattempt]

/-- Every move keeps the flags in agreement with the notes. -/
theorem booked_step (h : Booked log dock.queue) (hstep : step move dock = some next) :
    Booked (log ++ notes dock move) next.queue := by
  cases move with
  | start thread call =>
      simp only [step] at hstep
      split at hstep
      · cases hstep
      · obtain rfl := Option.some.inj hstep
        rw [queue_start]
        exact booked_attempt h thread call
  | retry thread =>
      simp only [step] at hstep
      split at hstep
      · next other call hfound =>
          split at hstep
          · cases hstep
          · obtain rfl := Option.some.inj hstep
            rw [queue_retry, notes, hfound]
            exact booked_attempt h thread call
      · cases hstep
  | wakeProducer producer =>
      obtain rfl := Option.some.inj hstep
      exact booked_wakeProducer h producer
  | wakeConsumer =>
      obtain rfl := Option.some.inj hstep
      exact booked_wakeConsumer h
  | poll =>
      obtain rfl := Option.some.inj hstep
      rw [notes, List.append_nil]
      exact booked_of_same h (HandoffQueue.woken_poll _).1 (HandoffQueue.woken_poll _).2
  | availability =>
      obtain rfl := Option.some.inj hstep
      rw [notes, List.append_nil]
      exact booked_of_same h (HandoffQueue.availability_waiting _).2
        (HandoffQueue.consumerWoken_availability _)
  | notifyAvailable | close | stir _ =>
      obtain rfl := Option.some.inj hstep
      rw [notes, List.append_nil]
      exact booked_of_same h rfl rfl
  | shuffle asleepInPut asleepInTake =>
      simp only [step] at hstep
      split at hstep
      · obtain rfl := Option.some.inj hstep
        rw [notes, List.append_nil]
        exact booked_of_same h rfl rfl
      · cases hstep

/-! ### Whoever is woken, and whoever must be -/

/-- An end that is noted is that of an attempt. -/
theorem attempt_of_mem_notes {result : DockResult α}
    (h : .ended thread call result ∈ notes dock move) :
    (attempt thread call dock.queue).1 = some result := by
  have hending {other : Nat} {begun : DockCall α}
      (hmem : .ended thread call result ∈ ending other begun dock.queue) :
      (attempt thread call dock.queue).1 = some result := by
    obtain ⟨ended, hended, hsame⟩ := List.mem_map.1 hmem
    obtain ⟨rfl, rfl, rfl⟩ := Note.ended.inj hsame
    exact Option.mem_toList.1 hended
  cases move with
  | start other begun => exact hending h
  | retry other =>
      simp only [notes] at h
      split at h
      · exact hending h
      · cases h
  | wakeProducer _ => cases List.mem_singleton.1 h
  | wakeConsumer => cases List.mem_singleton.1 h
  | poll | availability | notifyAvailable | close | stir _ | shuffle _ _ => cases h

theorem woken_of_attempt_put {element back : α}
    (h : (attempt thread (.put producer element) queue).1 = some (.notStored (.wokenUp back))) :
    producer ∈ queue.wokenProducers ∧ queue.closed = false ∧
      queue.capacity ≤ queue.items.length := by
  simp only [attempt] at h
  split at h
  · cases h
  · next error _ hput =>
      obtain rfl : error = .wokenUp back := by simpa using h
      exact HandoffQueue.woken_of_put hput
  · cases h

theorem woken_of_attempt_take
    (h : (attempt thread .take queue).1 = some (.notTaken .interrupted)) :
    queue.consumerWoken = true ∧ queue.items = [] ∧ queue.closed = false := by
  simp only [attempt] at h
  split at h
  · cases h
  · next error _ htake =>
      obtain rfl : error = .interrupted := by simpa using h
      exact HandoffQueue.woken_of_take htake
  · cases h

theorem ending_of_refused {element : α} {error : PutError α}
    (h : (queue.put thread producer element).1 = .refused error) :
    ending thread (.put producer element) queue =
      [.ended thread (.put producer element) (.notStored error)] := by
  cases hput : queue.put thread producer element with
  | mk result after =>
      obtain rfl : result = .refused error := by simpa [hput] using h
      simp [ending, attempt, hput]

/-- A thread that has no call under way begins one, or a thread is to go on with its call. -/
inductive Tries (dock : Dock α) (thread : Nat) (call : DockCall α) : Move α → Prop
  | start (hfree : thread ∉ dock.underWay.map Prod.fst) :
      Tries dock thread call (.start thread call)
  | retry (hcall : (thread, call) ∈ dock.underWay) : Tries dock thread call (.retry thread)

theorem find?_underWay (honce : (dock.underWay.map Prod.fst).Nodup)
    (hcall : (thread, call) ∈ dock.underWay) :
    dock.underWay.find? (·.1 == thread) = some (thread, call) := by
  cases hfound : dock.underWay.find? (·.1 == thread) with
  | none => simpa using List.find?_eq_none.1 hfound (thread, call) hcall
  | some entry =>
      obtain ⟨other, begun⟩ := entry
      obtain rfl : other = thread := by simpa using List.find?_some hfound
      rw [eq_of_once honce (List.mem_of_find?_eq_some hfound) hcall]

/-- Nobody who is awake is kept from trying, and what is noted then is how the attempt ended. -/
theorem step_of_tries (h : Watchful dock) (htries : Tries dock thread call move)
    (hawake : isAsleep thread dock.queue = false) :
    (step move dock).isSome = true ∧ notes dock move = ending thread call dock.queue := by
  cases htries with
  | start hfree => simp [step, hfree, notes]
  | retry hcall => simp [step, notes, find?_underWay h.once hcall, hawake]

/-- A thread that tries a put of a woken producer is awake. -/
theorem awake_of_woken {element : α} (h : Watchful dock)
    (htries : Tries dock thread (.put producer element) move)
    (hwoken : producer ∈ dock.queue.wokenProducers) : isAsleep thread dock.queue = false := by
  refine Bool.eq_false_iff.2 fun hasleep => ?_
  cases htries with
  | start hfree =>
      simp only [isAsleep, Bool.or_eq_true, decide_eq_true_eq] at hasleep
      rcases hasleep with hput | htake
      · obtain ⟨_, _, hcall⟩ := h.puts thread hput
        exact hfree (List.mem_map_of_mem hcall)
      · exact hfree (List.mem_map_of_mem (h.takes thread htake))
  | retry hcall =>
      exact h.unwoken thread producer element hcall (mem_asleepInPut h hcall hasleep) hwoken

/-- Wake-ups are aimed, and spent once.  Whatever threads do at a dock, and in whatever order: a put
is woken only at a full, open queue and only if its producer was woken since the last put of that
producer that was accepted or woken, and how a put ends has nothing to do with wake-ups of other
producers; a take is interrupted only at an empty, open queue and only if the consumer was woken
since a take was last interrupted.  So no producer's puts are woken more often than the producer
was, and takes are interrupted no more often than the consumer was woken.  And while a wake-up of a
producer is pending, every put of it that finds the queue full can be tried and ends there: it is
woken, or refused if the queue is closed. -/
theorem wake_ups_spent_once (capacity : Nat) (moves : List (Move α)) {dock : Dock α}
    (h : Course.follow step moves (opened capacity) = some dock) :
    let log := Course.gather step notes moves (opened capacity)
    (∀ move thread producer element back,
      .ended thread (.put producer element) (.notStored (.wokenUp back)) ∈ notes dock move →
        dock.queue.items.length = dock.queue.capacity ∧ dock.queue.closed = false ∧
          PutPending producer log) ∧
    (∀ thread producer other element, other ≠ producer →
      ((dock.queue.wakeProducer other).put thread producer element).1 =
        (dock.queue.put thread producer element).1) ∧
    (∀ move thread, .ended thread .take (.notTaken .interrupted) ∈ notes dock move →
      dock.queue.items = [] ∧ dock.queue.closed = false ∧ TakePending log) ∧
    (∀ producer, log.countP (Note.releases producer) ≤ log.countP (Note.wakes producer)) ∧
    log.countP Note.interrupts ≤ log.countP Note.wakesConsumer ∧
    (∀ producer, PutPending producer log → dock.queue.items.length = dock.queue.capacity →
      ∀ move thread element, Tries dock thread (.put producer element) move →
        (step move dock).isSome = true ∧ notes dock move =
          [.ended thread (.put producer element) (.notStored
            (if dock.queue.closed then .closed element else .wokenUp element))]) := by
  intro log
  have hw : Watchful dock := Course.follow_preserves Watchful watchful_step h
    (watchful_opened capacity)
  have hbooked : Booked log dock.queue :=
    Course.follow_gathers (fun log dock => Booked log dock.queue) booked_step h
      (booked_ofCapacity capacity)
  refine ⟨fun move thread producer element back hnote => ?_, fun thread producer other element =>
    HandoffQueue.put_wakeProducer_of_ne, fun move thread hnote => ?_, fun producer => ?_, ?_,
    fun producer hpending hfull move thread element htries => ?_⟩
  · obtain ⟨hwoken, hopen, hfull⟩ := woken_of_attempt_put (attempt_of_mem_notes hnote)
    exact ⟨Nat.le_antisymm hw.fits hfull, hopen,
      (hbooked.puts producer).pending.1 (decide_eq_true hwoken)⟩
  · obtain ⟨hwoken, hempty, hopen⟩ := woken_of_attempt_take (attempt_of_mem_notes hnote)
    exact ⟨hempty, hopen, hbooked.takes.pending.1 hwoken⟩
  · exact Nat.le_of_add_right_le (hbooked.puts producer).enough
  · exact Nat.le_of_add_right_le hbooked.takes.enough
  · have hwoken : producer ∈ dock.queue.wokenProducers :=
      of_decide_eq_true ((hbooked.puts producer).pending.2 hpending)
    obtain ⟨hstep, hnotes⟩ := step_of_tries hw htries (awake_of_woken hw htries hwoken)
    refine ⟨hstep, hnotes.trans ?_⟩
    exact ending_of_refused (HandoffQueue.put_of_woken hwoken (Nat.le_of_eq hfull.symm))

/-- Thread 1 sleeps in a put of producer 4.  The wake-up of producer 3 lets it try again in vain;
then producer 4 is woken. -/
def aimedCourse : List (Move Nat) :=
  [.start 0 (.put 3 10), .start 1 (.put 4 11), .wakeProducer 3, .retry 1, .wakeProducer 4]

/-- The wake-up of producer 4 ends that put, and also one that producer 4 begins in its stead; the
one of producer 3 is left for a put of its own. -/
theorem aimed_wake_up_spent :
    ∃ dock : Dock Nat, Course.follow step aimedCourse (opened 1) = some dock ∧
      notes dock (.retry 1) = [.ended 1 (.put 4 11) (.notStored (.wokenUp 11))] ∧
      notes dock (.start 2 (.put 4 12)) = [.ended 2 (.put 4 12) (.notStored (.wokenUp 12))] ∧
      PutPending 4 (Course.gather step notes aimedCourse (opened 1)) := by
  have hcall : (1, .put 4 11) ∈ [(1, (.put 4 11 : DockCall Nat))] := List.mem_cons_self
  have hfree : 2 ∉ [(1, (.put 4 11 : DockCall Nat))].map Prod.fst := by decide
  obtain ⟨hwoken, -, -, -, -, hreleased⟩ := wake_ups_spent_once 1 aimedCourse rfl
  have hpending : PutPending 4 (Course.gather step notes aimedCourse (opened 1)) :=
    (hwoken (.retry 1) 1 4 11 11 List.mem_cons_self).2.2
  exact ⟨_, rfl, (hreleased 4 hpending rfl (.retry 1) 1 11 (.retry hcall)).2,
    (hreleased 4 hpending rfl (.start 2 (.put 4 12)) 2 12 (.start hfree)).2, hpending⟩

end Dock

end SplitFeed
