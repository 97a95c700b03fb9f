/-
# Batches on loan

Whoever fetches a batch from a reader holds it for as long as he likes, may read in it and attach a
ticket to it, and may give it back, in any order with other batches that he holds.  Meanwhile the
reader hears of changes, is woken or is closed.

A reader hands out the batches that came back before it reads anything new, in the order in which
they came back: `again` are the batches that it hands out once more.
-/
import SplitFeed.Proofs.Course
import SplitFeed.Proofs.Reading.Roll

namespace SplitFeed

namespace Backend

/-- Whether the reader was closed. -/
def isClosed : Backend → Bool
  | ranges reader => reader.docket.closed
  | files reader => reader.docket.closed

/-- The reader with other batches to be handed out again. -/
def withReplay (replay : List (SplitBatch Record)) : Backend → Backend
  | ranges reader => ranges { reader with docket := { reader.docket with replay } }
  | files reader => files { reader with docket := { reader.docket with replay } }

variable {store : FileStore} {disturbed : List Bool} {backend next : Backend}
  {batch stale : SplitBatch Record} {replay : List (SplitBatch Record)}

/-- As long as a reader is open, what came back first is handed out first, and nothing else becomes
of the reader. -/
theorem fetch_of_replay (hopen : backend.isClosed = false)
    (hreplay : backend.replay = stale :: replay) :
    SplitReader.fetch store disturbed backend = (.returned stale, backend.withReplay replay) := by
  cases backend with
  | ranges reader =>
      have hdocket : reader.docket.closed = false := hopen
      have hstale : reader.docket.replay = stale :: replay := hreplay
      simp [SplitReader.fetch, fetch, RangeReader.fetch, withReplay, hdocket, hstale]
  | files reader =>
      have hdocket : reader.docket.closed = false := hopen
      have hstale : reader.docket.replay = stale :: replay := hreplay
      simp [SplitReader.fetch, fetch, FileReader.fetch, withReplay, hdocket, hstale]

/-- A fetch that returns is one of an open reader. -/
theorem isOpen_of_returned
    (h : SplitReader.fetch store disturbed backend = (.returned batch, next)) :
    backend.isClosed = false := by
  rw [← Bool.not_eq_true]
  intro hclosed
  cases reads_of_fetch h with
  | @ranges reader _ hread =>
      have hdocket : reader.docket.closed = true := hclosed
      simp [RangeReader.fetch, hdocket] at hread
  | @files reader _ hread =>
      have hdocket : reader.docket.closed = true := hclosed
      simp [FileReader.fetch, hdocket] at hread

/-- No fetch panics. -/
theorem fetch_ne_panicked (text : String) :
    SplitReader.fetch store disturbed backend ≠ (.panicked text, next) := by
  intro h
  cases reads_of_fetch h with
  | @ranges reader _ hread =>
      simp only [RangeReader.fetch] at hread
      generalize (if reader.delayMs = 0 then _ else _ : Bool × WakeFlag) = nap at hread
      obtain ⟨woken, flag⟩ := nap
      cases woken <;> grind
  | files hread =>
      simp only [FileReader.fetch] at hread
      grind

theorem replay_rewind (backend : Backend) :
    (backend.rewind stale).replay = backend.replay ++
      [stale.retainSplits fun id => backend.admits id].filter (!·.isEmpty) := by
  have hdocket {κ : Type} (docket : Docket κ) :
      (docket.takeBack stale).replay = docket.replay ++
        [stale.retainSplits docket.admits].filter (!·.isEmpty) := by
    simp only [Docket.takeBack]
    split <;> simp_all
  cases backend <;> exact hdocket _

end Backend

/-- What someone does with a batch that he holds. -/
inductive Use where
  | nextSplit
  | nextRecord
  | attach (ticket : Nat)

/-- What becomes of the batch. -/
def Use.apply : Use → SplitBatch Record → SplitBatch Record
  | nextSplit, batch => batch.nextSplit.2
  | nextRecord, batch => batch.nextRecord.2
  | attach ticket, batch => batch.withTicket ticket

/-- A reader, and the batches that were fetched and not given back. -/
structure Lending where
  reader : Backend
  out : List (SplitBatch Record) := []

namespace Lending

/-- What may happen. -/
inductive Move where
  /-- The reader is told of a change. -/
  | change (change : SplitsChange Split)
  /-- A batch is fetched, from the files as they are now. -/
  | fetch (store : FileStore) (disturbed : List Bool)
  /-- A batch is used that somebody holds. -/
  | use (place : Nat) (use : Use)
  /-- A batch goes back to the reader. -/
  | giveBack (place : Nat)
  | wake
  | close

/-- What a move makes of the reader and of the batches on loan; only what is on loan can be given
back. -/
def step : Move → Lending → Option Lending
  | .change change, lending =>
    some { lending with reader := (SplitReader.change change lending.reader).2.2 }
  | .fetch store disturbed, lending =>
    match SplitReader.fetch store disturbed lending.reader with
    | (.returned batch, reader) => some ⟨reader, lending.out ++ [batch]⟩
    | (_, reader) => some { lending with reader }
  | .use place use, lending => some { lending with out := lending.out.modify place use.apply }
  | .giveBack place, lending =>
    (lending.out[place]?).map fun stale =>
      ⟨(SplitReader.rewind stale lending.reader).2.2, lending.out.eraseIdx place⟩
  | .wake, lending => some { lending with reader := SplitReader.wake lending.reader }
  | .close, lending => some { lending with reader := (SplitReader.close lending.reader).2 }

/-- The batch that a move fetches. -/
def returned (lending : Lending) : Move → List (SplitBatch Record)
  | .fetch store disturbed =>
    match (SplitReader.fetch store disturbed lending.reader).1 with
    | .returned batch => [batch]
    | _ => []
  | _ => []

/-- The batch that a move fetches while batches wait to be handed out again. -/
def again (lending : Lending) (move : Move) : List (SplitBatch Record) :=
  if lending.reader.replay = [] then [] else lending.returned move

/-- The batch that goes back in a move. -/
def givenBack (lending : Lending) : Move → List (SplitBatch Record)
  | .giveBack place => lending.out[place]?.toList
  | _ => []

/-- Whether the reader takes note of a change. -/
def Hears (lending : Lending) (change : SplitsChange Split) : Prop :=
  (SplitReader.change change lending.reader).1 = .returned ()

instance (lending : Lending) (change : SplitsChange Split) : Decidable (lending.Hears change) :=
  inferInstanceAs (Decidable ((SplitReader.change change lending.reader).1 = .returned ()))

variable {lending next : Lending} {store : FileStore} {disturbed : List Bool}

/-- A fetch returns and its batch is out on loan, or it fails. -/
theorem fetch_cases (h : step (.fetch store disturbed) lending = some next) :
    (∃ batch reader,
      SplitReader.fetch store disturbed lending.reader = (.returned batch, reader) ∧
        next = ⟨reader, lending.out ++ [batch]⟩) ∨
    ∃ cause reader,
      SplitReader.fetch store disturbed lending.reader = (.failed cause, reader) ∧
        next = { lending with reader } := by
  simp only [step] at h
  rcases hfetch : SplitReader.fetch store disturbed lending.reader with ⟨result, reader⟩
  rw [hfetch] at h
  cases result with
  | returned batch => exact .inl ⟨batch, reader, rfl, (Option.some.inj h).symm⟩
  | failed cause => exact .inr ⟨cause, reader, rfl, (Option.some.inj h).symm⟩
  | panicked text => exact absurd hfetch (Backend.fetch_ne_panicked text)

/-- A change is heard, or it is refused and nothing happens. -/
theorem change_cases {change : SplitsChange Split} (h : step (.change change) lending = some next) :
    (∃ recycled reader, lending.Hears change ∧
      SplitReader.change change lending.reader = (.returned (), recycled, reader) ∧
        Backend.Changed change lending.reader recycled reader ∧
          next = { lending with reader }) ∨
    (¬ lending.Hears change ∧ (SplitReader.change change lending.reader).2.1 = [] ∧
      next = lending) := by
  obtain rfl := Option.some.inj h
  by_cases hsuits : Backend.Suits lending.reader.sort change
  · obtain ⟨recycled, reader, hcall, hchanged⟩ := Backend.change_of_suits hsuits
    exact .inl ⟨recycled, reader, by rw [Hears, hcall], hcall, hchanged, by rw [hcall]⟩
  · obtain ⟨cause, hcall⟩ := Backend.refused_of_not_suits hsuits
    exact .inr ⟨by simp [Hears, hcall], by rw [hcall], by rw [hcall]⟩

theorem giveBack_cases {place : Nat} (h : step (.giveBack place) lending = some next) :
    ∃ stale, lending.out[place]? = some stale ∧ lending.givenBack (.giveBack place) = [stale] ∧
      next = ⟨lending.reader.rewind stale, lending.out.eraseIdx place⟩ := by
  simp only [step, Option.map_eq_some_iff] at h
  obtain ⟨stale, hstale, rfl⟩ := h
  exact ⟨stale, hstale, by simp [givenBack, hstale], rfl⟩

/-- The batches that a fetch leaves to be handed out again are those behind the one it returns. -/
theorem again_replay (h : step (.fetch store disturbed) lending = some next) :
    lending.again (.fetch store disturbed) ++ next.reader.replay = lending.reader.replay := by
  rcases fetch_cases h with ⟨batch, reader, hfetch, rfl⟩ | ⟨cause, reader, hfetch, rfl⟩
  · have hrest : reader.replay = lending.reader.replay.tail := (Backend.fetched hfetch).2.1
    cases hreplay : lending.reader.replay with
    | nil => simp [again, hreplay, hrest]
    | cons stale replay =>
        have hfirst : SplitReader.fetch store disturbed lending.reader =
            (.returned stale, lending.reader.withReplay replay) :=
          Backend.fetch_of_replay (Backend.isOpen_of_returned hfetch) hreplay
        have hsame : batch = stale := by
          rw [hfetch] at hfirst
          exact Called.returned.inj (Prod.mk.inj hfirst).1
        simp [again, returned, hreplay, hfetch, hrest, hsame]
  · have hsame : reader.replay = lending.reader.replay := (Backend.fetched_of_failed hfetch).2.1
    simp [again, returned, hfetch, hsame]

end Lending

end SplitFeed
