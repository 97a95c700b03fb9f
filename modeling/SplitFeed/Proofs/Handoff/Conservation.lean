/-
# The hand-off queue neither loses, invents nor reorders

Here the queue is looked at together with the calls that were made to it.  A put call has a number
and makes attempts until one of them settles it; in between it may sleep for as long as it likes,
and other calls, wake-ups and a close may come.  `accepted` remembers which calls were accepted,
in that order, and `delivered` what takes and polls returned.

The invariant is an account: what was delivered, followed by what is still queued, is what was
accepted.
-/
import SplitFeed.Proofs.Handoff.Moves

namespace SplitFeed

namespace HandoffQueue

variable {α : Type}

/-- The element that an attempt to take came back with. -/
def TakeResult.element? : TakeResult α → Option α
  | taken element => some element
  | refused _ | asleep => none

theorem take_head? (thread : Nat) (queue : HandoffQueue α) :
    (queue.take thread).1.element? = queue.items.head? := by
  unfold take
  split
  case h_1 head rest hitems => rw [hitems]; rfl
  case h_2 hitems =>
      rw [hitems]
      split
      · rfl
      · split <;> rfl

theorem take_tail (thread : Nat) (queue : HandoffQueue α) :
    (queue.take thread).2.items = queue.items.tail := by
  unfold take
  split
  case h_1 head rest hitems => rw [hitems]; rfl
  case h_2 hitems =>
      have htail : queue.items.tail = [] := by rw [hitems]; rfl
      rw [htail]
      split
      · exact hitems
      · split <;> exact hitems

theorem poll_head? (queue : HandoffQueue α) : queue.poll.1 = queue.items.head? := by
  unfold poll
  split
  case h_1 head rest hitems => rw [hitems]; rfl
  case h_2 hitems => rw [hitems]; rfl

theorem poll_tail (queue : HandoffQueue α) : queue.poll.2.items = queue.items.tail := by
  unfold poll
  split
  case h_1 head rest hitems => rw [hitems]; rfl
  case h_2 hitems => exact hitems.trans (congrArg List.tail hitems).symm

end HandoffQueue

/-- What became of a call of put so far. -/
inductive Fate (α : Type) where
  | underway
  | accepted
  | refused (error : PutError α)

/-- A call of put. -/
structure PutCall (α : Type) where
  thread : Nat
  producer : Nat
  element : α
  fate : Fate α := .underway

/-- A queue with the history of its use.

`calls` are all calls of put in the order in which they began, `accepted` the numbers and elements
of those that were accepted, in the order in which they were, and `delivered` what calls of take
and poll returned. -/
structure Ramp (α : Type) where
  queue : HandoffQueue α
  calls : List (PutCall α) := []
  accepted : List (Nat × α) := []
  delivered : List α := []

namespace Ramp

variable {α : Type}

/-- A new queue that nobody has used. -/
def opened (capacity : Nat) : Ramp α := { queue := HandoffQueue.ofCapacity capacity }

/-- What producers, consumers and others can do next. -/
inductive Move (α : Type) where
  /-- A thread calls put. -/
  | call (thread producer : Nat) (element : α)
  /-- A call of put that is under way makes an attempt, its first or one after it slept. -/
  | attempt (number : Nat)
  | take (thread : Nat)
  | poll
  | availability
  | notifyAvailable
  | close
  | wakeProducer (producer : Nat)
  | wakeConsumer

/-- Whether a move takes the head of the queue, if there is one. -/
def Move.takes : Move α → Bool
  | take _ | poll => true
  | _ => false

/-- A call that is under way makes an attempt. -/
def attempt (number : Nat) (call : PutCall α) (ramp : Ramp α) : Ramp α :=
  let (result, queue) := ramp.queue.put call.thread call.producer call.element
  match result with
  | .accepted =>
    { ramp with
      queue
      calls := ramp.calls.set number { call with fate := .accepted }
      accepted := ramp.accepted ++ [(number, call.element)] }
  | .refused error =>
    { ramp with queue, calls := ramp.calls.set number { call with fate := .refused error } }
  | .asleep => { ramp with queue }

/-- The ramp after a move.  A call that is settled, or was never made, makes no attempt. -/
def step (ramp : Ramp α) : Move α → Ramp α
  | .call thread producer element =>
    { ramp with calls := ramp.calls ++ [{ thread, producer, element }] }
  | .attempt number =>
    match ramp.calls[number]? with
    | some call =>
      match call.fate with
      | .underway => ramp.attempt number call
      | _ => ramp
    | none => ramp
  | .take thread =>
    let (result, queue) := ramp.queue.take thread
    { ramp with queue, delivered := ramp.delivered ++ result.element?.toList }
  | .poll =>
    let (element, queue) := ramp.queue.poll
    { ramp with queue, delivered := ramp.delivered ++ element.toList }
  | .availability => { ramp with queue := ramp.queue.availability.2 }
  | .notifyAvailable => { ramp with queue := ramp.queue.notifyAvailable }
  | .close => { ramp with queue := ramp.queue.close }
  | .wakeProducer producer => { ramp with queue := ramp.queue.wakeProducer producer }
  | .wakeConsumer => { ramp with queue := ramp.queue.wakeConsumer }

/-- The ramp after one move after the other. -/
def after (ramp : Ramp α) (moves : List (Move α)) : Ramp α := moves.foldl step ramp

/-- The books of the queue are in order.

`balance` is the account, `fits` the bound, `booked` and `once` say that `accepted` lists the
accepted calls without repetition, and `returned` that a refusal returns the caller's element. -/
structure Sound (ramp : Ramp α) : Prop where
  balance : ramp.delivered ++ ramp.queue.items = ramp.accepted.map Prod.snd
  fits : ramp.queue.items.length ≤ ramp.queue.capacity
  booked : ∀ number element, (number, element) ∈ ramp.accepted ↔
    ∃ call, ramp.calls[number]? = some call ∧ call.fate = .accepted ∧ call.element = element
  once : (ramp.accepted.map Prod.fst).Nodup
  returned : ∀ call ∈ ramp.calls, ∀ error, call.fate = .refused error →
    error.element = call.element

theorem sound_opened (capacity : Nat) : Sound (opened capacity : Ramp α) where
  balance := rfl
  fits := Nat.zero_le _
  booked := by simp [opened]
  once := List.nodup_nil
  returned := by simp [opened]

/-- A call is among the accepted exactly by its fate. -/
theorem mem_accepted_iff {ramp : Ramp α} (h : Sound ramp) {number : Nat} {call : PutCall α}
    (hcall : ramp.calls[number]? = some call) :
    number ∈ ramp.accepted.map Prod.fst ↔ call.fate = .accepted := by
  constructor
  · intro hmem
    obtain ⟨⟨_, element⟩, hpair, rfl⟩ := List.mem_map.1 hmem
    obtain ⟨other, hother, hfate, -⟩ := (h.booked _ element).1 hpair
    obtain rfl : call = other := Option.some.inj (hcall.symm.trans hother)
    exact hfate
  · intro hfate
    exact List.mem_map.2 ⟨(number, call.element), (h.booked ..).2 ⟨call, hcall, hfate, rfl⟩, rfl⟩

/-- Moves that settle no call keep the books if they only hand out what they take away. -/
theorem sound_of_unsettled {ramp : Ramp α} (h : Sound ramp) {queue : HandoffQueue α}
    {delivered : List α} (hcapacity : queue.capacity = ramp.queue.capacity)
    (hlength : queue.items.length ≤ ramp.queue.items.length)
    (hbalance : delivered ++ queue.items = ramp.delivered ++ ramp.queue.items) :
    Sound { ramp with queue, delivered } where
  balance := hbalance.trans h.balance
  fits := by
    show queue.items.length ≤ queue.capacity
    exact Nat.le_trans hlength (hcapacity ▸ h.fits)
  booked := h.booked
  once := h.once
  returned := h.returned

theorem sound_of_same {ramp : Ramp α} (h : Sound ramp) {queue : HandoffQueue α}
    (hcapacity : queue.capacity = ramp.queue.capacity) (hitems : queue.items = ramp.queue.items) :
    Sound { ramp with queue } :=
  sound_of_unsettled h hcapacity (Nat.le_of_eq (congrArg List.length hitems))
    (congrArg (ramp.delivered ++ ·) hitems)

/-- The call that a move settles is the only one whose fate changes. -/
theorem getElem?_settle {calls : List (PutCall α)} {number : Nat} {call : PutCall α}
    (hcall : calls[number]? = some call) (settled : PutCall α) (other : Nat) :
    (calls.set number settled)[other]? =
      if other = number then some settled else calls[other]? := by
  obtain ⟨hlt, -⟩ := List.getElem?_eq_some_iff.1 hcall
  rw [List.getElem?_set]
  by_cases hother : other = number
  · rw [if_pos hother.symm, if_pos hlt, if_pos hother]
  · rw [if_neg (Ne.symm hother), if_neg hother]

/-- A call that is accepted takes the next place. -/
theorem sound_accepted {ramp : Ramp α} (h : Sound ramp) {number : Nat} {call : PutCall α}
    (hcall : ramp.calls[number]? = some call) (hfate : call.fate = .underway)
    (hroom : ramp.queue.items.length < ramp.queue.capacity) :
    Sound { ramp with
      queue := ramp.queue.accept call.producer call.element
      calls := ramp.calls.set number { call with fate := .accepted }
      accepted := ramp.accepted ++ [(number, call.element)] } where
  balance := by
    show ramp.delivered ++ (ramp.queue.accept call.producer call.element).items = _
    rw [HandoffQueue.items_accept, ← List.append_assoc, h.balance, List.map_append]
    rfl
  fits := by
    show (ramp.queue.accept call.producer call.element).items.length ≤
      (ramp.queue.accept call.producer call.element).capacity
    rw [HandoffQueue.items_accept, HandoffQueue.capacity_accept, List.length_append]
    exact hroom
  booked other element := by
    rw [List.mem_append, List.mem_singleton, Prod.mk.injEq, h.booked]
    simp only [getElem?_settle hcall]
    by_cases hother : other = number
    · subst hother
      simp [hcall, hfate, eq_comm]
    · simp [hother]
  once := by
    have hnew : number ∉ ramp.accepted.map Prod.fst := by
      rw [mem_accepted_iff h hcall, hfate]
      nofun
    rw [List.map_append]
    refine List.nodup_append.2 ⟨h.once, by simp, fun other hother last hlast hsame => hnew ?_⟩
    obtain rfl : last = number := List.mem_singleton.1 hlast
    exact hsame ▸ hother
  returned other hmem error herror := by
    rcases List.mem_or_eq_of_mem_set hmem with hold | rfl
    · exact h.returned other hold error herror
    · cases herror

/-- A call that is refused gives back its element. -/
theorem sound_refused {ramp : Ramp α} (h : Sound ramp) {number : Nat} {call : PutCall α}
    (hcall : ramp.calls[number]? = some call) (hfate : call.fate = .underway)
    {error : PutError α} (herror : error.element = call.element) {queue : HandoffQueue α}
    (hcapacity : queue.capacity = ramp.queue.capacity) (hitems : queue.items = ramp.queue.items) :
    Sound { ramp with
      queue, calls := ramp.calls.set number { call with fate := .refused error } } where
  balance := by
    show ramp.delivered ++ queue.items = _
    rw [hitems, h.balance]
  fits := by
    show queue.items.length ≤ queue.capacity
    rw [hitems, hcapacity]
    exact h.fits
  booked other element := by
    rw [h.booked]
    simp only [getElem?_settle hcall]
    by_cases hother : other = number
    · subst hother
      simp [hcall, hfate]
    · simp [hother]
  once := h.once
  returned other hmem refusal hrefusal := by
    rcases List.mem_or_eq_of_mem_set hmem with hold | rfl
    · exact h.returned other hold refusal hrefusal
    · obtain rfl := Fate.refused.inj hrefusal
      exact herror

theorem sound_attempt {ramp : Ramp α} (h : Sound ramp) {number : Nat} {call : PutCall α}
    (hcall : ramp.calls[number]? = some call) (hfate : call.fate = .underway) :
    Sound (ramp.attempt number call) := by
  unfold attempt
  obtain ⟨-, hput⟩ | ⟨-, hroom, hput⟩ | ⟨-, -, hput⟩ | ⟨-, -, hput⟩ :=
    ramp.queue.put_cases call.thread call.producer call.element <;> rw [hput]
  · exact sound_refused h hcall hfate rfl rfl rfl
  · exact sound_accepted h hcall hfate hroom
  · exact sound_refused h hcall hfate rfl rfl rfl
  · exact sound_of_same h rfl rfl

/-- Beginning a call changes nothing that was settled. -/
theorem sound_call {ramp : Ramp α} (h : Sound ramp) (thread producer : Nat) (element : α) :
    Sound (ramp.step (.call thread producer element)) where
  balance := h.balance
  fits := h.fits
  booked number other := by
    rw [step, h.booked]
    refine exists_congr fun call => and_congr_left ?_
    rintro ⟨hfate, -⟩
    constructor <;> intro hcall
    · rw [List.getElem?_append_left (List.getElem?_eq_some_iff.1 hcall).1]
      exact hcall
    · rw [List.getElem?_append] at hcall
      split at hcall
      · exact hcall
      · obtain ⟨_, hlast⟩ := List.getElem?_eq_some_iff.1 hcall
        simp [← hlast] at hfate
  once := h.once
  returned call hmem error herror := by
    rcases List.mem_append.1 hmem with hold | hnew
    · exact h.returned call hold error herror
    · rw [List.mem_singleton.1 hnew] at herror
      cases herror

/-- What is taken away from the front is handed out. -/
theorem sound_taken {ramp : Ramp α} (h : Sound ramp) {queue : HandoffQueue α}
    {element : Option α} (hcapacity : queue.capacity = ramp.queue.capacity)
    (hhead : element = ramp.queue.items.head?) (htail : queue.items = ramp.queue.items.tail) :
    Sound { ramp with queue, delivered := ramp.delivered ++ element.toList } := by
  refine sound_of_unsettled h hcapacity ?_ ?_
  · rw [htail]
    simp
  · rw [htail, hhead, List.append_assoc]
    cases ramp.queue.items <;> rfl

/-- Every move keeps the books in order. -/
theorem sound_step {ramp : Ramp α} (h : Sound ramp) (move : Move α) : Sound (ramp.step move) := by
  cases move with
  | call thread producer element => exact sound_call h thread producer element
  | attempt number =>
      simp only [step]
      split
      case h_1 call hcall =>
          split
          case h_1 hfate => exact sound_attempt h hcall hfate
          case h_2 => exact h
      case h_2 => exact h
  | take thread =>
      exact sound_taken h (HandoffQueue.capacity_apply (.take thread) ramp.queue)
        (HandoffQueue.take_head? ..) (HandoffQueue.take_tail ..)
  | poll =>
      exact sound_taken h (HandoffQueue.capacity_apply .poll ramp.queue)
        (HandoffQueue.poll_head? _) (HandoffQueue.poll_tail _)
  | availability =>
      exact sound_of_same h (HandoffQueue.capacity_apply .availability ramp.queue)
        (HandoffQueue.availability_same _).1
  | notifyAvailable | close | wakeProducer _ | wakeConsumer => exact sound_of_same h rfl rfl

theorem sound_after {ramp : Ramp α} (h : Sound ramp) (moves : List (Move α)) :
    Sound (ramp.after moves) := by
  induction moves generalizing ramp with
  | nil => exact h
  | cons move moves ih => exact ih (sound_step h move)

theorem queue_attempt (number : Nat) (call : PutCall α) (ramp : Ramp α) :
    (ramp.attempt number call).queue =
      (ramp.queue.put call.thread call.producer call.element).2 := by
  unfold attempt
  rcases ramp.queue.put call.thread call.producer call.element with ⟨_ | _ | _, _⟩ <;> rfl

/-- The room of the queue never changes. -/
theorem capacity_step (ramp : Ramp α) (move : Move α) :
    (ramp.step move).queue.capacity = ramp.queue.capacity := by
  cases move with
  | attempt number =>
      simp only [step]
      split
      case h_1 call hcall =>
          split
          case h_1 =>
              rw [queue_attempt]
              exact HandoffQueue.capacity_apply (.put ..) ramp.queue
          case h_2 => rfl
      case h_2 => rfl
  | take thread => exact HandoffQueue.capacity_apply (.take thread) ramp.queue
  | poll => exact HandoffQueue.capacity_apply .poll ramp.queue
  | availability => exact HandoffQueue.capacity_apply .availability ramp.queue
  | call _ _ _ | notifyAvailable | close | wakeProducer _ | wakeConsumer => rfl

theorem capacity_after (ramp : Ramp α) (moves : List (Move α)) :
    (ramp.after moves).queue.capacity = ramp.queue.capacity := by
  induction moves generalizing ramp with
  | nil => rfl
  | cons move moves ih => exact (ih (ramp.step move)).trans (capacity_step ramp move)

/-! ### After a close -/

/-- After a close nothing is accepted, and all that happens to the content is that its head is
taken. -/
theorem step_of_closed {ramp : Ramp α} (h : ramp.queue.closed = true) (move : Move α) :
    (ramp.step move).queue.closed = true ∧ (ramp.step move).accepted = ramp.accepted ∧
      (ramp.step move).queue.items =
        if move.takes then ramp.queue.items.tail else ramp.queue.items := by
  cases move with
  | attempt number =>
      simp only [step]
      split
      case h_1 call hcall =>
          split
          case h_1 =>
              have hput : ramp.queue.put call.thread call.producer call.element =
                  (.refused (.closed call.element), ramp.queue) := by
                simp [HandoffQueue.put, h]
              rw [attempt, hput]
              exact ⟨h, rfl, rfl⟩
          case h_2 => exact ⟨h, rfl, rfl⟩
      case h_2 => exact ⟨h, rfl, rfl⟩
  | take thread =>
      exact ⟨@HandoffQueue.closed_apply _ (.take thread) _ h, rfl, HandoffQueue.take_tail ..⟩
  | poll =>
      exact ⟨@HandoffQueue.closed_apply _ .poll _ h, rfl, HandoffQueue.poll_tail _⟩
  | availability =>
      obtain ⟨hitems, hclosed⟩ := HandoffQueue.availability_same ramp.queue
      exact ⟨hclosed.trans h, rfl, hitems⟩
  | call _ _ _ | notifyAvailable | wakeProducer _ | wakeConsumer => exact ⟨h, rfl, rfl⟩
  | close => exact ⟨rfl, rfl, rfl⟩

/-- What was in the queue when it was closed leaves it take by take. -/
theorem after_of_closed {ramp : Ramp α} (h : ramp.queue.closed = true) (moves : List (Move α)) :
    (ramp.after moves).accepted = ramp.accepted ∧
      (ramp.after moves).queue.items = ramp.queue.items.drop (moves.countP Move.takes) := by
  induction moves generalizing ramp with
  | nil => exact ⟨rfl, rfl⟩
  | cons move moves ih =>
      obtain ⟨hclosed, haccepted, hitems⟩ := step_of_closed h move
      obtain ⟨hrest, hleft⟩ := ih hclosed
      refine ⟨hrest.trans haccepted, hleft.trans ?_⟩
      rw [hitems, List.countP_cons]
      split <;> simp

/-- The hand-off queue conserves elements and their order.  Whatever was done to a queue of any
capacity: what takes and polls returned, followed by what is queued, is what was accepted, in
order; no more is queued than there is room for; every accepted call stands there once; a refused
call got its own element back and is nowhere there, nor is its element if no other call brought it
too, and the same goes for a call that is still under way; and after a close nothing more is
accepted, while as many takes or polls as there are elements deliver all that was. -/
theorem elements_conserved (capacity : Nat) (moves : List (Move α)) :
    let ramp := (opened capacity : Ramp α).after moves
    ramp.delivered ++ ramp.queue.items = ramp.accepted.map Prod.snd ∧
    ramp.queue.items.length ≤ max capacity 1 ∧
    (ramp.accepted.map Prod.fst).Nodup ∧
    (∀ number element, (number, element) ∈ ramp.accepted ↔ ∃ call,
      ramp.calls[number]? = some call ∧ call.fate = .accepted ∧ call.element = element) ∧
    (∀ call ∈ ramp.calls, ∀ error, call.fate = .refused error → error.element = call.element) ∧
    (∀ number, ∀ call ∈ ramp.calls[number]?, call.fate ≠ .accepted →
      number ∉ ramp.accepted.map Prod.fst ∧
      ((∀ other, ∀ rival ∈ ramp.calls[other]?, rival.element = call.element → other = number) →
        call.element ∉ ramp.delivered ++ ramp.queue.items)) ∧
    (ramp.queue.closed = true → ∀ later, (ramp.after later).accepted = ramp.accepted ∧
      (ramp.queue.items.length ≤ later.countP Move.takes →
        (ramp.after later).delivered = ramp.accepted.map Prod.snd)) := by
  intro ramp
  have hsound : Sound ramp := sound_after (sound_opened capacity) moves
  have hcapacity : ramp.queue.capacity = max capacity 1 := capacity_after (opened capacity) moves
  refine ⟨hsound.balance, hcapacity ▸ hsound.fits, hsound.once, hsound.booked, hsound.returned,
    ?_, ?_⟩
  · intro number call hcall hfate
    refine ⟨mt (mem_accepted_iff hsound hcall).1 hfate, fun hunique hmem => hfate ?_⟩
    rw [hsound.balance] at hmem
    obtain ⟨⟨other, element⟩, hpair, helement⟩ := List.mem_map.1 hmem
    obtain ⟨rival, hrival, haccepted, hsame⟩ := (hsound.booked other element).1 hpair
    obtain rfl := hunique other rival hrival (hsame.trans helement)
    exact Option.some.inj (hcall.symm.trans hrival) ▸ haccepted
  · intro hclosed later
    obtain ⟨haccepted, hitems⟩ := after_of_closed hclosed later
    refine ⟨haccepted, fun hall => ?_⟩
    have hbalance := (sound_after hsound later).balance
    rwa [hitems, List.drop_eq_nil_of_le hall, List.append_nil, haccepted] at hbalance

end Ramp

end SplitFeed
