/-
# A relay through the queue

The trial that the queue has to pass as a whole.  Several producers each put numbered parcels into
one queue, and one consumer collects them.  A producer whose put was woken tries again; the consumer
blocks in a take, polls, or waits for the bell.  Somebody may disturb everybody once per round.

However small the queue, all parcels have to arrive, each producer's in the order in which it put
them, and no bell that the consumer has asked for may stay silent.  That they do is
`Relay.complete_delivers`.
-/
import SplitFeed.Handoff.Queue

namespace SplitFeed

/-- How the consumer of a relay waits. -/
inductive RelayMode where
  | take
  | poll
  | await
deriving DecidableEq, Inhabited

/-- A relay under way: parcels are pairs of a producer and a number counted from zero.

`sent` is the number of parcels each producer has put, `received` what the consumer got, newest
first, `awaited` every bell it asked for. -/
structure Relay where
  queue : HandoffQueue (Nat × Nat)
  sent : List Nat
  received : List (Nat × Nat) := []
  awaited : List Nat := []

namespace Relay

/-- The thread number of the consumer among `producers` producers. -/
def consumerThread (relay : Relay) : Nat := relay.sent.length

/-- Lets each producer that is awake and has parcels left make one attempt. -/
def produce (per : Nat) (queue : HandoffQueue (Nat × Nat)) (first : Nat) :
    List Nat → List Nat × HandoffQueue (Nat × Nat)
  | [] => ([], queue)
  | count :: rest =>
    if count < per && !queue.asleepInPut.contains first then
      match queue.put first first (first, count) with
      | (.accepted, queue) =>
        let (counts, queue) := produce per queue (first + 1) rest
        ((count + 1) :: counts, queue)
      | (_, queue) =>
        let (counts, queue) := produce per queue (first + 1) rest
        (count :: counts, queue)
    else
      let (counts, queue) := produce per queue (first + 1) rest
      (count :: counts, queue)

/-- Lets the consumer make one attempt in its own way. -/
def collect (mode : RelayMode) (relay : Relay) : Relay :=
  match mode with
  | .take =>
    if relay.queue.asleepInTake.contains relay.consumerThread then relay
    else
      match relay.queue.take relay.consumerThread with
      | (.taken parcel, queue) => { relay with queue, received := parcel :: relay.received }
      | (_, queue) => { relay with queue }
  | .poll =>
    match relay.queue.poll with
    | (some parcel, queue) => { relay with queue, received := parcel :: relay.received }
    | (none, queue) =>
      let (bell, queue) := queue.availability
      { relay with queue, awaited := bell :: relay.awaited }
  | .await =>
    match relay.awaited with
    | bell :: _ =>
      if relay.queue.hasRung bell then
        match relay.queue.poll with
        | (some parcel, queue) => { relay with queue, received := parcel :: relay.received }
        | (none, queue) =>
          let (bell, queue) := queue.availability
          { relay with queue, awaited := bell :: relay.awaited }
      else relay
    | [] =>
      let (bell, queue) := relay.queue.availability
      { relay with queue, awaited := [bell] }

/-- Wakes every producer and the consumer. -/
def disturb (relay : Relay) : Relay :=
  let queue := (List.range relay.sent.length).foldl (fun q p => q.wakeProducer p) relay.queue
  { relay with queue := queue.wakeConsumer }

/-- One round: the producers, a disturbance if there is to be one, the consumer. -/
def round (per : Nat) (mode : RelayMode) (heckled : Bool) (relay : Relay) : Relay :=
  let (sent, queue) := produce per relay.queue 0 relay.sent
  let relay := { relay with sent, queue }
  let relay := if heckled then relay.disturb else relay
  relay.collect mode

/-- Repeats rounds until the consumer has `wanted` parcels, at most `rounds` times. -/
def run (per : Nat) (mode : RelayMode) (heckled : Bool) (wanted : Nat) : Nat → Relay → Relay
  | 0, relay => relay
  | rounds + 1, relay =>
    if relay.received.length < wanted then
      run per mode heckled wanted rounds (relay.round per mode heckled)
    else relay

/-- A relay of `producers` producers with `per` parcels each, run to its end and closed.  There are
rounds to spare: each brings a parcel, but for the first of a consumer that waits for bells. -/
def complete (producers per capacity : Nat) (mode : RelayMode) (heckled : Bool) : Relay :=
  let start : Relay := { queue := .ofCapacity capacity, sent := List.replicate producers 0 }
  let wanted := producers * per
  let ended := run per mode heckled wanted (3 * wanted + 3) start
  { ended with queue := ended.queue.close }

/-- The parcels in the order in which the consumer got them. -/
def parcels (relay : Relay) : List (Nat × Nat) := relay.received.reverse

/-- Whether the consumer got each producer's parcels in ascending order. -/
def inOrder (relay : Relay) : Bool :=
  (List.range relay.sent.length).all fun producer =>
    let numbers := (relay.parcels.filter (·.1 == producer)).map (·.2)
    numbers == List.range numbers.length

end Relay

end SplitFeed
