/-
# What can happen to the hand-off queue

The operations of the queue as moves, and what they leave alone.  Whoever shares the queue with a
fetcher or a consumer can do no more to it than make such moves, so a property that every move
preserves holds whatever the others do.
-/
import SplitFeed.Handoff.Queue

namespace SplitFeed.HandoffQueue

variable {α : Type}

/-- An operation of the queue with its arguments. -/
inductive Move (α : Type) where
  | put (thread producer : Nat) (element : α)
  | take (thread : Nat)
  | poll
  | availability
  | notifyAvailable
  | close
  | wakeProducer (producer : Nat)
  | wakeConsumer

/-- The queue after an operation. -/
def Move.apply (queue : HandoffQueue α) : Move α → HandoffQueue α
  | put thread producer element => (queue.put thread producer element).2
  | take thread => (queue.take thread).2
  | poll => queue.poll.2
  | availability => queue.availability.2
  | notifyAvailable => queue.notifyAvailable
  | close => queue.close
  | wakeProducer producer => queue.wakeProducer producer
  | wakeConsumer => queue.wakeConsumer

/-! ### What the single operations do to elements, room and openness -/

@[simp]
theorem items_accept (producer : Nat) (element : α) (queue : HandoffQueue α) :
    (queue.accept producer element).items = queue.items ++ [element] := by
  unfold accept
  split <;> rfl

@[simp]
theorem closed_accept (producer : Nat) (element : α) (queue : HandoffQueue α) :
    (queue.accept producer element).closed = queue.closed := by
  unfold accept
  split <;> rfl

@[simp]
theorem capacity_accept (producer : Nat) (element : α) (queue : HandoffQueue α) :
    (queue.accept producer element).capacity = queue.capacity := by
  unfold accept
  split <;> rfl

@[simp]
theorem items_notifyAvailable (queue : HandoffQueue α) :
    queue.notifyAvailable.items = queue.items := rfl

@[simp]
theorem closed_notifyAvailable (queue : HandoffQueue α) :
    queue.notifyAvailable.closed = queue.closed := rfl

@[simp]
theorem capacity_notifyAvailable (queue : HandoffQueue α) :
    queue.notifyAvailable.capacity = queue.capacity := rfl

@[simp]
theorem items_wakeProducer (producer : Nat) (queue : HandoffQueue α) :
    (queue.wakeProducer producer).items = queue.items := rfl

@[simp]
theorem closed_wakeProducer (producer : Nat) (queue : HandoffQueue α) :
    (queue.wakeProducer producer).closed = queue.closed := rfl

@[simp]
theorem capacity_wakeProducer (producer : Nat) (queue : HandoffQueue α) :
    (queue.wakeProducer producer).capacity = queue.capacity := rfl

/-- Asking for a bell leaves the content alone, and does not open or close the queue. -/
theorem availability_same (queue : HandoffQueue α) :
    queue.availability.2.items = queue.items ∧ queue.availability.2.closed = queue.closed := by
  unfold availability
  split
  · exact ⟨rfl, rfl⟩
  · split <;> exact ⟨rfl, rfl⟩

/-- An attempt to put is refused by a closed queue, accepted if there is room, and otherwise spends
a wake-up or waits. -/
theorem put_cases (thread producer : Nat) (element : α) (queue : HandoffQueue α) :
    (queue.closed = true ∧
        queue.put thread producer element = (.refused (.closed element), queue)) ∨
      (queue.closed = false ∧ queue.items.length < queue.capacity ∧
        queue.put thread producer element = (.accepted, queue.accept producer element)) ∨
      (queue.closed = false ∧ queue.capacity ≤ queue.items.length ∧
        queue.put thread producer element = (.refused (.wokenUp element),
          { queue with wokenProducers := queue.wokenProducers.erase producer })) ∨
      (queue.closed = false ∧ queue.capacity ≤ queue.items.length ∧
        queue.put thread producer element = (.asleep,
          { queue with asleepInPut := queue.asleepInPut ++ [thread] })) := by
  unfold put
  cases hclosed : queue.closed with
  | true => exact .inl ⟨rfl, rfl⟩
  | false =>
      by_cases hroom : queue.hasRoom = true
      · exact .inr (.inl ⟨rfl, by simpa [hasRoom] using hroom, by simp [hroom]⟩)
      · have hfull : queue.capacity ≤ queue.items.length := by simpa [hasRoom] using hroom
        by_cases hwoken : producer ∈ queue.wokenProducers
        · exact .inr (.inr (.inl ⟨rfl, hfull, by simp [hroom, hwoken]⟩))
        · exact .inr (.inr (.inr ⟨rfl, hfull, by simp [hroom, hwoken]⟩))

/-- An attempt to take finds an element, is refused by a closed queue, spends a wake-up,
or waits. -/
theorem take_cases (thread : Nat) (queue : HandoffQueue α) :
    (∃ head rest, queue.items = head :: rest ∧ queue.take thread =
        (.taken head, { queue with items := rest, asleepInPut := [] })) ∨
      (queue.closed = true ∧ queue.take thread = (.refused .closed, queue)) ∨
      (queue.consumerWoken = true ∧
        queue.take thread = (.refused .interrupted, { queue with consumerWoken := false })) ∨
      (queue.items = [] ∧ queue.closed = false ∧ queue.consumerWoken = false ∧
        queue.take thread =
          (.asleep, { queue with asleepInTake := queue.asleepInTake ++ [thread] })) := by
  cases hitems : queue.items with
  | cons head rest =>
      refine .inl ⟨head, rest, rfl, ?_⟩
      simp only [take, hitems]
      rfl
  | nil =>
      cases hclosed : queue.closed with
      | true => exact .inr (.inl ⟨rfl, by simp [take, hitems, hclosed]⟩)
      | false =>
          cases hwoken : queue.consumerWoken with
          | true => exact .inr (.inr (.inl ⟨rfl, by simp [take, hitems, hclosed, hwoken]⟩))
          | false =>
              exact .inr (.inr (.inr ⟨rfl, rfl, rfl, by simp [take, hitems, hclosed, hwoken]⟩))

/-- A poll takes the head and lets every sleeping producer try again. -/
theorem poll_cons {queue : HandoffQueue α} {head : α} {rest : List α}
    (h : queue.items = head :: rest) :
    queue.poll = (some head, { queue with items := rest, asleepInPut := [] }) := by
  simp only [poll, h]
  rfl

theorem poll_nil {queue : HandoffQueue α} (h : queue.items = []) : queue.poll = (none, queue) := by
  simp [poll, h]

/-- Whoever is asleep in a put, or is to be woken from one, is so after an element was accepted, but
for the producer that it came from. -/
theorem asleepInPut_accept (producer : Nat) (element : α) (queue : HandoffQueue α) :
    (queue.accept producer element).asleepInPut = queue.asleepInPut := by
  unfold accept
  split <;> rfl

theorem wokenProducers_accept (producer : Nat) (element : α) (queue : HandoffQueue α) :
    (queue.accept producer element).wokenProducers = queue.wokenProducers.erase producer := by
  unfold accept
  split <;> rfl

/-- An element that was accepted lets one consumer go. -/
theorem asleepInTake_accept (producer : Nat) (element : α) (queue : HandoffQueue α) :
    (queue.accept producer element).asleepInTake = queue.asleepInTake.tail := by
  unfold accept
  split <;> rfl

/-- Asking for a bell leaves those who sleep alone. -/
theorem availability_waiting (queue : HandoffQueue α) :
    queue.availability.2.asleepInPut = queue.asleepInPut ∧
      queue.availability.2.wokenProducers = queue.wokenProducers := by
  unfold availability
  split
  · exact ⟨rfl, rfl⟩
  · split <;> exact ⟨rfl, rfl⟩

/-- A put wakes nobody. -/
theorem wokenProducers_put_subset (thread producer : Nat) (element : α) (queue : HandoffQueue α) :
    (queue.put thread producer element).2.wokenProducers ⊆ queue.wokenProducers := by
  obtain ⟨-, h⟩ | ⟨-, -, h⟩ | ⟨-, -, h⟩ | ⟨-, -, h⟩ := queue.put_cases thread producer element <;>
    rw [h]
  · exact List.Subset.refl _
  · rw [wokenProducers_accept]
    exact List.erase_subset
  · exact List.erase_subset
  · exact List.Subset.refl _

/-- No operation changes how many elements fit. -/
@[simp]
theorem capacity_apply (move : Move α) (queue : HandoffQueue α) :
    (move.apply queue).capacity = queue.capacity := by
  cases move with
  | put thread producer element =>
      simp only [Move.apply, put]
      split
      · rfl
      · split
        · exact capacity_accept ..
        · split <;> rfl
  | take thread =>
      simp only [Move.apply, take]
      split
      · rfl
      · split
        · rfl
        · split <;> rfl
  | poll =>
      simp only [Move.apply, poll]
      split <;> rfl
  | availability =>
      simp only [Move.apply, availability]
      split
      · rfl
      · split <;> rfl
  | notifyAvailable | close | wakeProducer _ | wakeConsumer => rfl

/-- A closed queue stays closed. -/
theorem closed_apply {move : Move α} {queue : HandoffQueue α} (h : queue.closed = true) :
    (move.apply queue).closed = true := by
  cases move with
  | put thread producer element => simp [Move.apply, put, h]
  | take thread =>
      simp only [Move.apply, take, h]
      split
      · rfl
      · exact h
  | poll =>
      simp only [Move.apply, poll]
      split <;> exact h
  | availability => simp [Move.apply, availability, h]
  | notifyAvailable | wakeProducer _ | wakeConsumer => exact h
  | close => rfl

end SplitFeed.HandoffQueue
