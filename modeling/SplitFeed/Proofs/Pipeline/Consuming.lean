/-
# What the consumer has sent and booked

The consumer sends the records of batches that nobody has begun to read, group by group, as long as
its record limit allows, and drops the others.  A tally says what is in the sink and in the books
after some batches: the records that come within the limit were sent as lines and counted, and a
split counts as finished if its end mark came in a batch of which no record was dropped.
-/
import SplitFeed.Consumer
import SplitFeed.Proofs.News
import SplitFeed.Proofs.Pipeline.Sending

namespace SplitFeed

/-! ### Limits -/

section Limits

variable {α β : Type} {limit : Option Nat}

/-- The first entries, as many as a limit allows. -/
def within (limit : Option Nat) (entries : List α) : List α :=
  match limit with
  | none => entries
  | some most => entries.take most

/-- The entries that a limit leaves over. -/
def beyond (limit : Option Nat) (entries : List α) : List α :=
  match limit with
  | none => []
  | some most => entries.drop most

/-- What is left of a limit for entries behind others. -/
def remaining (limit : Option Nat) (entries : List α) : Option Nat :=
  limit.map (· - (within limit entries).length)

theorem within_append_beyond (limit : Option Nat) (entries : List α) :
    within limit entries ++ beyond limit entries = entries := by
  cases limit with
  | none => exact List.append_nil _
  | some most => exact List.take_append_drop most entries

theorem remaining_some (most : Nat) (entries : List α) :
    remaining (some most) entries = some (most - entries.length) := by
  simp only [remaining, within, Option.map_some, List.length_take]
  congr 1
  omega

theorem within_append (limit : Option Nat) (first second : List α) :
    within limit (first ++ second) =
      within limit first ++ within (remaining limit first) second := by
  cases limit with
  | none => rfl
  | some most =>
      rw [remaining_some]
      exact List.take_append

theorem beyond_append (limit : Option Nat) (first second : List α) :
    beyond limit (first ++ second) =
      beyond limit first ++ beyond (remaining limit first) second := by
  cases limit with
  | none => rfl
  | some most =>
      rw [remaining_some]
      exact List.drop_append

/-- Nothing is left of a limit that leaves entries over. -/
theorem remaining_of_beyond {entries : List α} (h : beyond limit entries ≠ []) :
    remaining limit entries = some 0 := by
  cases limit with
  | none => exact absurd rfl h
  | some most =>
      rw [remaining_some]
      simp only [beyond, ne_eq, List.drop_eq_nil_iff] at h
      congr 1
      omega

@[simp]
theorem within_zero (entries : List α) : within (some 0) entries = [] := rfl

@[simp]
theorem beyond_zero (entries : List α) : beyond (some 0) entries = entries := rfl

@[simp]
theorem within_none (entries : List α) : within none entries = entries := rfl

@[simp]
theorem beyond_none (entries : List α) : beyond none entries = [] := rfl

theorem within_nil (limit : Option Nat) : within limit ([] : List α) = [] := by
  cases limit <;> simp [within]

theorem beyond_nil (limit : Option Nat) : beyond limit ([] : List α) = [] := by
  cases limit <;> simp [beyond]

theorem within_map (limit : Option Nat) (f : α → β) (entries : List α) :
    within limit (entries.map f) = (within limit entries).map f := by
  cases limit <;> simp [within]

theorem beyond_map (limit : Option Nat) (f : α → β) (entries : List α) :
    beyond limit (entries.map f) = (beyond limit entries).map f := by
  cases limit <;> simp [beyond]

/-- Some of several entries behind others are left over exactly if there are any and not all are
within the limit. -/
theorem beyond_remaining {first second : List α} :
    beyond (remaining limit first) second ≠ [] ↔
      second ≠ [] ∧ beyond limit (first ++ second) ≠ [] := by
  cases limit with
  | none => simp [remaining]
  | some most =>
      rw [remaining_some]
      simp only [beyond, ne_eq, List.drop_eq_nil_iff, List.length_append]
      rw [← List.length_eq_zero_iff]
      omega

end Limits

/-! ### Lines -/

theorem renderLines_append (first second : List Record) :
    renderLines (first ++ second) = renderLines first ++ renderLines second := by
  simp [renderLines, String.join_append]

/-- The lines of entries. -/
def linesOf (entries : List (String × Record)) : String :=
  renderLines (entries.map (·.2))

variable {group : Group Record} {groups : List (Group Record)} {id : String}

theorem linesOf_append (first second : List (String × Record)) :
    linesOf (first ++ second) = linesOf first ++ linesOf second := by
  simp [linesOf, renderLines_append]

/-- A sink that was opened was sent the lines of entries. -/
def SentLines (entries : List (String × Record)) (opened : Sink) (before : FileStore)
    (sink : Sink) (store : FileStore) : Prop :=
  ∃ payloads, opened.sendAll payloads before = some (sink, store) ∧
    String.join payloads = linesOf entries

section Lines

variable {first second : List (String × Record)} {opened between sink : Sink}
  {before meanwhile store : FileStore}

theorem sentLines_append (h : SentLines first opened before between meanwhile)
    (h' : SentLines second between meanwhile sink store) :
    SentLines (first ++ second) opened before sink store := by
  obtain ⟨payloads, hsent, hjoin⟩ := h
  obtain ⟨more, hsent', hjoin'⟩ := h'
  refine ⟨payloads ++ more, (Sink.sendAll_append hsent).trans hsent', ?_⟩
  rw [String.join_append, hjoin, hjoin', linesOf_append]

/-- The lines of a group go as one payload, unless that is empty. -/
theorem sentLines_payload {records : List Record} {result : Except Failure Unit}
    (h : (if (renderLines records).isEmpty then (.ok (), opened, before)
      else opened.send (renderLines records) before) = (result, sink, store))
    (hok : result = .ok ()) (id : String) :
    SentLines (records.map (id, ·)) opened before sink store := by
  subst hok
  have hlines : linesOf (records.map (id, ·)) = renderLines records := by
    simp [linesOf, Function.comp_def]
  split at h
  · next hempty =>
      cases h
      exact ⟨[], rfl, by rw [hlines, String.isEmpty_iff.1 hempty]; rfl⟩
  · exact ⟨[renderLines records], Sink.sendAll_cons h, by simp [hlines]⟩

end Lines

/-! ### Consuming a batch -/

namespace ConsumerBooks

variable {books after : ConsumerBooks} {sink next : Sink} {store later : FileStore}
  {sofar rendering : Rendering} {batch : SplitBatch Record} {budget : Option Nat}

theorem affordable_eq (budget : Option Nat) (records : List Record) :
    affordable budget records = within budget records := by
  cases budget <;> rfl

theorem exceeds_iff {records : List Record} :
    exceeds budget records = true ↔ beyond budget records ≠ [] := by
  cases budget <;> simp [exceeds, beyond]

/-- The entries within the budget are sent. -/
theorem sendGroups_cases
    (h : sendGroups budget sofar sink store groups = (.ok rendering, next, later))
    (hsofar : sofar.truncated = false) :
    SentLines (within budget (entriesOf groups)) sink store next later ∧
      rendering.records = sofar.records + (within budget (entriesOf groups)).length ∧
      rendering.bytes = sofar.bytes + (linesOf (within budget (entriesOf groups))).utf8ByteSize ∧
      (rendering.truncated = true ↔ beyond budget (entriesOf groups) ≠ []) := by
  induction groups generalizing budget sofar sink store with
  | nil =>
      cases h
      have hnone : entriesOf [] = [] := rfl
      rw [hnone, within_nil, beyond_nil]
      exact ⟨⟨[], rfl, rfl⟩, rfl, rfl, by simp [hsofar]⟩
  | cons group groups ih =>
      obtain ⟨id, records⟩ := group
      have hentries : entriesOf ((id, records) :: groups) =
          records.map (id, ·) ++ entriesOf groups := rfl
      have hremaining : remaining budget (records.map (id, ·)) =
          budget.map (· - (within budget records).length) := by
        simp [remaining, within_map]
      rw [hentries, within_append, beyond_append, within_map, beyond_map, hremaining]
      simp only [sendGroups, affordable_eq] at h
      generalize hsend : (if (renderLines (within budget records)).isEmpty then _ else _ :
        Except Failure Unit × Sink × FileStore) = sent at h
      obtain ⟨result, between, meanwhile⟩ := sent
      cases result with
      | error cause => cases h
      | ok _ =>
          have hfirst := sentLines_payload hsend rfl id
          have hlines : linesOf ((within budget records).map (id, ·)) =
              renderLines (within budget records) := by
            simp [linesOf, Function.comp_def]
          cases hexceeds : exceeds budget records with
          | true =>
              have hleft := exceeds_iff.1 hexceeds
              have hnothing := remaining_of_beyond hleft
              rw [remaining] at hnothing
              simp only [hexceeds, ↓reduceIte] at h
              cases h
              rw [hnothing]
              simpa [hlines, hleft] using hfirst
          | false =>
              have hall : beyond budget records = [] :=
                by_contra fun hleft => by simp [exceeds_iff.2 hleft] at hexceeds
              simp only [hexceeds, Bool.false_eq_true, ↓reduceIte] at h
              obtain ⟨hrest, hrecords, hbytes, hcut⟩ := ih h rfl
              refine ⟨sentLines_append hfirst hrest, ?_, ?_, ?_⟩
              · simp [hrecords, Nat.add_assoc]
              · simp [hbytes, linesOf_append, hlines, String.utf8ByteSize_append, Nat.add_assoc]
              · simpa [hall] using hcut

theorem eq_of_add {first second sum : Nat} (h : Word.add first second = .ok sum) :
    sum = first + second := by
  unfold Word.add at h
  split at h
  · exact (Except.ok.inj h).symm
  · cases h

/-- Totals that still fit after an update are the sums. -/
theorem totals_of_update {totals later : Report.Totals} {records bytes finished : Nat}
    (h : totals.update records bytes finished = .ok later) :
    later.records = totals.records + records ∧ later.bytes = totals.bytes + bytes := by
  simp only [Report.Totals.update, bind, Except.bind, pure, Except.pure] at h
  split at h
  · cases h
  · next first hfirst =>
      split at h
      · cases h
      · next second hsecond =>
          split at h
          · cases h
          · cases h
            exact ⟨eq_of_add hfirst, eq_of_add hsecond⟩

/-- What is booked of a batch. -/
theorem book_cases {ended : IdSet} (h : books.book rendering ended = .ok after) :
    after.limit = books.limit ∧
      after.totals.records = books.totals.records + rendering.records ∧
      after.totals.bytes = books.totals.bytes + rendering.bytes ∧
      ∀ id, after.finished.contains id = true ↔
        (ended.contains id = true ∧ rendering.truncated = false) ∨
          books.finished.contains id = true := by
  simp only [book, bind, Except.bind, pure, Except.pure] at h
  split at h
  · cases h
  · next totals htotals =>
      cases h
      obtain ⟨hrecords, hbytes⟩ := totals_of_update htotals
      refine ⟨rfl, hrecords, hbytes, fun id => ?_⟩
      rw [IdSet.contains_insertAll, Bool.or_eq_true]
      cases rendering.truncated <;> simp [IdSet.contains]

/-- Of a batch that is consumed without trouble the entries within the budget are sent and counted,
and its end marks are booked if that are all of them. -/
theorem consume_cases (h : books.consume batch sink store = (.ok after, next, later)) :
    SentLines (within books.budget (entriesOf batch.waiting)) sink store next later ∧
      after.limit = books.limit ∧
      after.totals.records =
        books.totals.records + (within books.budget (entriesOf batch.waiting)).length ∧
      after.totals.bytes = books.totals.bytes +
        (linesOf (within books.budget (entriesOf batch.waiting))).utf8ByteSize ∧
      ∀ id, after.finished.contains id = true ↔
        (batch.finished.contains id = true ∧ beyond books.budget (entriesOf batch.waiting) = []) ∨
          books.finished.contains id = true := by
  unfold consume at h
  split at h
  · cases h
  · next rendering sink' store' hsent =>
      split at h
      · cases h
      · next hbooked =>
          cases h
          obtain ⟨hlines, hrecords, hbytes, hcut⟩ := sendGroups_cases hsent rfl
          obtain ⟨hlimit, hrecords', hbytes', hfinished⟩ := book_cases hbooked
          refine ⟨hlines, hlimit, ?_, ?_, fun id => ?_⟩
          · rw [hrecords', hrecords]
            exact congrArg _ (Nat.zero_add _)
          · rw [hbytes', hbytes]
            exact congrArg _ (Nat.zero_add _)
          · rw [hfinished, ← Bool.not_eq_true, hcut, not_not]

end ConsumerBooks

/-! ### Tallies -/

/-- The records that batches have for a reader who has not begun, each with the id of its split. -/
def entriesIn (taken : List (SplitBatch Record)) : List (String × Record) :=
  entriesOf (taken.flatMap (·.waiting))

theorem entriesIn_append (first second : List (SplitBatch Record)) :
    entriesIn (first ++ second) = entriesIn first ++ entriesIn second := by
  simp [entriesIn, entriesOf]

/-- Some records of a batch are dropped when it comes behind others. -/
def IsCut (limit : Option Nat) (earlier : List (SplitBatch Record))
    (batch : SplitBatch Record) : Prop :=
  entriesIn [batch] ≠ [] ∧ beyond limit (entriesIn (earlier ++ [batch])) ≠ []

/-- What is in the sink and in the books after some batches were consumed under a limit: the
entries within the limit were sent to the sink that was opened, and they are counted; those splits
are finished whose end mark came in a batch that was not cut. -/
structure Tally (limit : Option Nat) (opened : Sink) (before : FileStore)
    (taken : List (SplitBatch Record)) (sink : Sink) (store : FileStore) (books : ConsumerBooks) :
    Prop where
  sent : SentLines (within limit (entriesIn taken)) opened before sink store
  records : books.totals.records = (within limit (entriesIn taken)).length
  bytes : books.totals.bytes = (linesOf (within limit (entriesIn taken))).utf8ByteSize
  finished : ∀ id, books.finished.contains id = true ↔
    ∃ earlier batch, earlier ++ [batch] <+: taken ∧ batch.finished.contains id = true ∧
      ¬ IsCut limit earlier batch
  limited : books.limit = limit

section Tallies

variable {limit : Option Nat} {opened sink next : Sink} {before store later : FileStore}
  {taken : List (SplitBatch Record)} {books after : ConsumerBooks} {batch : SplitBatch Record}

/-- Before anything is consumed there is nothing in the books. -/
theorem tally_nil (opened : Sink) (before : FileStore) (totals : Report.Totals)
    (hrecords : totals.records = 0) (hbytes : totals.bytes = 0) :
    Tally limit opened before [] opened before { totals, limit } := by
  have hnone : within limit (entriesIn []) = [] := within_nil limit
  refine ⟨?_, ?_, ?_, fun id => ?_, rfl⟩
  · rw [hnone]
    exact ⟨[], rfl, rfl⟩
  · rw [hnone]
    exact hrecords
  · rw [hnone]
    exact hbytes
  · simp

/-- A batch that is consumed without trouble is added to the tally. -/
theorem tally_consume (ht : Tally limit opened before taken sink store books)
    (h : books.consume batch sink store = (.ok after, next, later)) :
    Tally limit opened before (taken ++ [batch]) next later after := by
  have hbudget : books.budget = remaining limit (entriesIn taken) := by
    simp only [ConsumerBooks.budget, remaining, ht.limited, ht.records]
  have hentries : entriesOf batch.waiting = entriesIn [batch] := by simp [entriesIn]
  obtain ⟨hsent, hlimit, hrecords, hbytes, hfinished⟩ := ConsumerBooks.consume_cases h
  rw [hbudget, hentries] at hsent hrecords hbytes
  have hwithin : within limit (entriesIn (taken ++ [batch])) = within limit (entriesIn taken) ++
      within (remaining limit (entriesIn taken)) (entriesIn [batch]) := by
    rw [entriesIn_append, within_append]
  refine ⟨?_, ?_, ?_, fun id => ?_, hlimit.trans ht.limited⟩
  · rw [hwithin]
    exact sentLines_append ht.sent hsent
  · rw [hwithin, List.length_append, hrecords, ht.records]
  · rw [hwithin, linesOf_append, String.utf8ByteSize_append, hbytes, ht.bytes]
  · have hcut : beyond books.budget (entriesOf batch.waiting) = [] ↔ ¬ IsCut limit taken batch := by
      rw [hbudget, hentries, IsCut, entriesIn_append, ← beyond_remaining, not_not]
    rw [hfinished, hcut, ht.finished]
    constructor
    · rintro (⟨hends, hwhole⟩ | ⟨earlier, other, hprefix, hends, hwhole⟩)
      · exact ⟨taken, batch, List.prefix_rfl, hends, hwhole⟩
      · exact ⟨earlier, other, hprefix.trans (List.prefix_append _ _), hends, hwhole⟩
    · rintro ⟨earlier, other, hprefix, hends, hwhole⟩
      rcases List.prefix_concat_iff.1 hprefix with hall | hbefore
      · obtain ⟨rfl, hlast⟩ := List.append_inj' hall rfl
        obtain rfl := List.singleton_inj.1 hlast
        exact .inl ⟨hends, hwhole⟩
      · exact .inr ⟨earlier, other, hbefore, hends, hwhole⟩

/-- Without a limit no batch is cut. -/
theorem finished_of_unlimited (ht : Tally none opened before taken sink store books) (id : String) :
    books.finished.contains id = true ↔ ∃ batch ∈ taken, batch.finished.contains id = true := by
  rw [ht.finished]
  constructor
  · rintro ⟨earlier, batch, hprefix, hends, -⟩
    exact ⟨batch, hprefix.subset (List.mem_append_right _ List.mem_cons_self), hends⟩
  · rintro ⟨batch, hmem, hends⟩
    obtain ⟨earlier, later, rfl⟩ := List.append_of_mem hmem
    exact ⟨earlier, batch, ⟨later, by simp⟩, hends, fun hcut => hcut.2 rfl⟩

end Tallies

end SplitFeed
