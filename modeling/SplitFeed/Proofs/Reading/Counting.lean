/-
# Counting out a range

A range is read in pieces of one size, the last one shorter.  The pieces are known beforehand: each
has a place, and begins where that many pieces of full size end.  A reader of one range always
stands behind a number of pieces.  A fetch builds the next one, or hands out the batch that came
back, or finds nothing and stays where it is.

So whatever is kept and given back, the batches that were built are the first pieces in order, the
kept ones of them are these pieces but for the one that waits to be handed out again, and the piece
with the end mark is the last.
-/
import SplitFeed.Proofs.Reading.Session
import Mathlib.Algebra.Order.Floor.Div

namespace SplitFeed

namespace SplitBatch

variable {id : String} {records : List Record}

/-- What a fetch of one split's records brings. -/
def fetched (id : String) (records : List Record) (ended : Bool) : SplitBatch Record where
  waiting := if records = [] then [] else [(id, records)]
  finished := if ended then IdSet.empty.insert id else ∅

theorem fetched_eq (id : String) (records : List Record) (ended : Bool) :
    fetched id records ended =
      if ended then ((empty : SplitBatch Record).addRecords id records).finishSplit id
      else (empty : SplitBatch Record).addRecords id records := by
  cases ended <;> cases records <;> rfl

theorem recordCount_fetched (id : String) (records : List Record) (ended : Bool) :
    (fetched id records ended).recordCount = records.length := by
  cases records <;> simp [fetched, recordCount, groups]

theorem entriesOf_fetched (id : String) (records : List Record) (ended : Bool) :
    entriesOf (fetched id records ended).groups = records.map (id, ·) := by
  cases records <;> simp [fetched, entriesOf, groups]

theorem finished_fetched (id : String) (records : List Record) (ended : Bool) :
    (fetched id records ended).finished.toList = if ended then [id] else [] := by
  cases ended <;> rfl

/-- A fetch brings something if it brings a record or the end mark. -/
theorem isEmpty_fetched {ended : Bool} :
    (fetched id records ended).isEmpty = (records.isEmpty && !ended) := by
  rw [isEmpty, recordCount_fetched]
  cases ended <;> cases records <;> rfl

/-- A sweep that spares the split takes nothing away. -/
theorem retainSplits_fetched {keep : String → Bool} (hkeep : keep id = true)
    (records : List Record) (ended : Bool) :
    (fetched id records ended).retainSplits keep = fetched id records ended := by
  cases records <;> cases ended <;>
    simp [fetched, retainSplits, hkeep, IdSet.filter, IdSet.insert, IdSet.insertInto, IdSet.empty,
      EmptyCollection.emptyCollection]

end SplitBatch

/-- Those of several batches in which something happened. -/
def SplitBatch.telling (batches : List (SplitBatch Record)) : List (SplitBatch Record) :=
  batches.filter (!·.isEmpty)

theorem SplitBatch.telling_append (first second : List (SplitBatch Record)) :
    telling (first ++ second) = telling first ++ telling second :=
  List.filter_append _ _

/-! ### The pieces of a range -/

namespace RangeSplit

variable {limit place : Nat} {split : RangeSplit}

/-- How many pieces a range has.  There is one even if nothing is in the range, for its end mark. -/
def pieceCount (limit : Nat) (split : RangeSplit) : Nat :=
  max 1 ((split.stop - split.start) ⌈/⌉ limit)

theorem pieceCount_le (hlimit : 0 < limit) :
    split.pieceCount limit ≤ place ↔ 1 ≤ place ∧ split.stop - split.start ≤ limit * place := by
  rw [pieceCount, max_le_iff, ceilDiv_le_iff_le_mul hlimit]

theorem one_le_pieceCount (limit : Nat) (split : RangeSplit) : 1 ≤ split.pieceCount limit :=
  le_max_left _ _

/-- The records of the numbers of a range. -/
def numbers (split : RangeSplit) : List Record :=
  (List.range' split.start (split.stop - split.start)).map (RangeReader.recordOf split.id)

/-- The range, when so many pieces of it were read. -/
def cursorAt (limit place : Nat) (split : RangeSplit) : RangeCursor :=
  { split, next := split.start + place * limit }

/-- The records of a piece. -/
def recordsAt (limit place : Nat) (split : RangeSplit) : List Record :=
  RangeReader.pieceRecords limit (split.cursorAt limit place)

/-- The batch that a piece makes. -/
def pieceAt (limit place : Nat) (split : RangeSplit) : SplitBatch Record :=
  .fetched split.id (split.recordsAt limit place) (decide (split.pieceCount limit ≤ place + 1))

/-- The end mark is in the last piece. -/
theorem finished_pieceAt (limit place : Nat) (split : RangeSplit) :
    (split.pieceAt limit place).finished.toList =
      if split.pieceCount limit ≤ place + 1 then [split.id] else [] := by
  rw [pieceAt, SplitBatch.finished_fetched]
  simp only [decide_eq_true_eq]

end RangeSplit

namespace RangeReader

/-- The end of a piece is found without a sum that does not fit: where the sum stops at the largest
number, the range has ended before. -/
theorem pieceEnd_eq {cursor : RangeCursor} (hfits : cursor.split.stop < Word.size) (limit : Nat) :
    pieceEnd limit cursor = min cursor.split.stop (cursor.next + limit) := by
  simp only [pieceEnd, Word.addUpTo, Word.greatest]
  omega

/-- The next piece of a range as one batch. -/
theorem piece_eq (limit : Nat) (cursor : RangeCursor) :
    piece limit cursor =
      (.fetched cursor.split.id (pieceRecords limit cursor)
          (decide (cursor.split.stop ≤ pieceEnd limit cursor)),
        if cursor.split.stop ≤ pieceEnd limit cursor then none
        else some { cursor with next := pieceEnd limit cursor }) := by
  rw [SplitBatch.fetched_eq]
  by_cases hend : cursor.split.stop ≤ pieceEnd limit cursor <;> simp [piece, hend, pieceRecords]

/-- Positions and sums of a reader fit, and no sum was cut short. -/
def InBounds (reader : RangeReader) : Prop :=
  ∀ cursor ∈ reader.docket.cursors, cursor.next < Word.size ∧
    pieceEnd reader.maxRecords cursor < Word.size ∧
      pieceEnd reader.maxRecords cursor =
        min cursor.split.stop (cursor.next + reader.maxRecords)

end RangeReader

namespace RangeSplit

variable {limit place : Nat} {split : RangeSplit}

theorem pieceEnd_cursorAt (hstop : split.stop < Word.size) :
    RangeReader.pieceEnd limit (split.cursorAt limit place) =
      min split.stop (split.start + (place + 1) * limit) := by
  rw [RangeReader.pieceEnd_eq hstop, Nat.succ_mul, ← Nat.add_assoc]
  rfl

/-- The range ends with its last piece. -/
theorem stop_le_pieceEnd (hlimit : 0 < limit) (hstop : split.stop < Word.size) (place : Nat) :
    split.stop ≤ RangeReader.pieceEnd limit (split.cursorAt limit place) ↔
      split.pieceCount limit ≤ place + 1 := by
  rw [pieceEnd_cursorAt hstop, pieceCount_le hlimit, Nat.mul_comm limit]
  omega

/-- The next piece, and the range behind it. -/
theorem piece_cursorAt (hlimit : 0 < limit) (hstop : split.stop < Word.size) (place : Nat) :
    RangeReader.piece limit (split.cursorAt limit place) =
      (split.pieceAt limit place,
        if split.pieceCount limit ≤ place + 1 then none
        else some (split.cursorAt limit (place + 1))) := by
  have hends := stop_le_pieceEnd hlimit hstop place
  have hsplit : (split.cursorAt limit place).split = split := rfl
  rw [RangeReader.piece_eq, hsplit]
  refine Prod.ext ?_ ?_
  · rw [pieceAt, decide_eq_decide.2 hends]
    rfl
  · by_cases hend : split.pieceCount limit ≤ place + 1
    · rw [if_pos (hends.2 hend), if_pos hend]
    · have hmore := mt hends.1 hend
      have hnext : RangeReader.pieceEnd limit (split.cursorAt limit place) =
          split.start + (place + 1) * limit := by
        rw [pieceEnd_cursorAt hstop] at hmore ⊢
        exact Nat.min_eq_right (by omega)
      rw [if_neg hmore, if_neg hend, hnext]
      rfl

/-- A piece behind the first begins inside the range. -/
theorem eq_zero_or_lt_stop (hlimit : 0 < limit) (hplace : place < split.pieceCount limit) :
    place = 0 ∨ split.start + place * limit < split.stop := by
  have hfew := mt (pieceCount_le hlimit).2 (Nat.not_le.2 hplace)
  rw [Nat.mul_comm] at hfew
  omega

theorem recordsAt_eq (hstop : split.stop < Word.size) (limit place : Nat) :
    split.recordsAt limit place =
      (List.range' (split.start + place * limit)
        (min split.stop (split.start + (place + 1) * limit) - (split.start + place * limit))).map
        (RangeReader.recordOf split.id) := by
  rw [recordsAt, RangeReader.pieceRecords, pieceEnd_cursorAt hstop]
  rfl

theorem length_recordsAt_le (limit place : Nat) (split : RangeSplit) :
    (split.recordsAt limit place).length ≤ limit := by
  simp only [recordsAt, RangeReader.pieceRecords, List.length_map, List.length_range',
    RangeReader.pieceEnd, Word.addUpTo]
  omega

/-- Every piece but the last is full. -/
theorem length_recordsAt (hlimit : 0 < limit) (hstop : split.stop < Word.size)
    (hmore : place + 1 < split.pieceCount limit) :
    (split.recordsAt limit place).length = limit := by
  have hbefore := mt (pieceCount_le hlimit).2 (Nat.not_le.2 hmore)
  rw [Nat.mul_comm, Nat.succ_mul] at hbefore
  rw [recordsAt_eq hstop, List.length_map, List.length_range', Nat.succ_mul]
  omega

/-- No piece says nothing. -/
theorem isEmpty_pieceAt (hlimit : 0 < limit) (hstop : split.stop < Word.size) (place : Nat) :
    (split.pieceAt limit place).isEmpty = false := by
  rw [pieceAt, SplitBatch.isEmpty_fetched]
  by_cases hend : split.pieceCount limit ≤ place + 1
  · simp [hend]
  · have hlength := length_recordsAt hlimit hstop (Nat.not_le.1 hend)
    have hne : split.recordsAt limit place ≠ [] := by
      intro hnone
      rw [hnone, List.length_nil] at hlength
      omega
    simp [hne]

/-- The numbers up to one bound and those up to a later one, both cut at the end of the range. -/
theorem range'_cut {start first second : Nat} (hfirst : start ≤ first) (hsecond : first ≤ second)
    (stop : Nat) :
    List.range' start (min stop first - start) ++ List.range' first (min stop second - first) =
      List.range' start (min stop second - start) := by
  rcases Nat.le_total stop first with hpast | hbefore
  · rw [Nat.min_eq_left hpast, Nat.min_eq_left (hpast.trans hsecond), Nat.sub_eq_zero_of_le hpast,
      List.range'_zero, List.append_nil]
  · have hmiddle : first = start + 1 * (first - start) := by omega
    have hlength : min stop second - start = (first - start) + (min stop second - first) := by omega
    rw [Nat.min_eq_right hbefore, hlength, ← List.range'_append, ← hmiddle]

/-- The first pieces hold the first numbers. -/
theorem recordsAt_range (hstop : split.stop < Word.size) (count : Nat) :
    (List.range count).flatMap (split.recordsAt limit ·) =
      (List.range' split.start (min split.stop (split.start + count * limit) - split.start)).map
        (RangeReader.recordOf split.id) := by
  induction count with
  | zero =>
      have hnone : min split.stop (split.start + 0 * limit) - split.start = 0 := by omega
      rw [hnone]
      rfl
  | succ count ih =>
      have hlater : split.start + count * limit ≤ split.start + (count + 1) * limit :=
        Nat.add_le_add_left (Nat.mul_le_mul_right _ (Nat.le_succ _)) _
      rw [List.range_succ, List.flatMap_append, ih, List.flatMap_singleton, recordsAt_eq hstop,
        ← List.map_append, range'_cut (Nat.le_add_right _ _) hlater]

/-- All pieces hold all numbers. -/
theorem recordsAt_all (hlimit : 0 < limit) (hstop : split.stop < Word.size) :
    (List.range (split.pieceCount limit)).flatMap (split.recordsAt limit ·) = split.numbers := by
  have hall : split.stop - split.start ≤ limit * split.pieceCount limit :=
    ((pieceCount_le hlimit).1 (Nat.le_refl _)).2
  rw [recordsAt_range hstop, numbers]
  rw [Nat.mul_comm] at hall
  congr 2
  omega

/-- The last piece of a range with numbers has the last of them. -/
theorem getLast?_recordsAt (hlimit : 0 < limit) (hstop : split.stop < Word.size)
    (hsome : split.start < split.stop) (hlast : place + 1 = split.pieceCount limit) :
    (split.recordsAt limit place).getLast? =
      some (RangeReader.recordOf split.id (split.stop - 1)) := by
  have hall := ((pieceCount_le hlimit).1 (Nat.le_of_eq hlast.symm)).2
  have hend : min split.stop (split.start + (place + 1) * limit) = split.stop := by
    rw [Nat.mul_comm] at hall
    omega
  have hbefore : split.start + place * limit < split.stop := by
    have hplace : place < split.pieceCount limit := by omega
    rcases eq_zero_or_lt_stop hlimit hplace with rfl | hinside <;> omega
  have hlength : split.stop - (split.start + place * limit) ≠ 0 := by omega
  have hnumber : split.start + place * limit + (split.stop - (split.start + place * limit)) - 1 =
      split.stop - 1 := by omega
  rw [recordsAt_eq hstop, hend, List.getLast?_map, List.getLast?_range', if_neg hlength, hnumber]
  rfl

/-- An empty range has one piece, without records. -/
theorem recordsAt_of_le (hstop : split.stop < Word.size) (hle : split.stop ≤ split.start)
    (limit place : Nat) : split.recordsAt limit place = [] := by
  have hnone : min split.stop (split.start + (place + 1) * limit) -
      (split.start + place * limit) = 0 := by omega
  rw [recordsAt_eq hstop, hnone]
  rfl

theorem pieceCount_of_le (hle : split.stop ≤ split.start) (hlimit : 0 < limit) :
    split.pieceCount limit = 1 := by
  refine Nat.le_antisymm ((pieceCount_le hlimit).2 ⟨Nat.le_refl 1, ?_⟩) (one_le_pieceCount _ _)
  rw [Nat.sub_eq_zero_of_le hle]
  exact Nat.zero_le _

/-- The batches of the first pieces. -/
def pieces (limit count : Nat) (split : RangeSplit) : List (SplitBatch Record) :=
  (List.range count).map (split.pieceAt limit ·)

theorem pieces_succ (limit count : Nat) (split : RangeSplit) :
    split.pieces limit (count + 1) = split.pieces limit count ++ [split.pieceAt limit count] := by
  simp [pieces, List.range_succ]

theorem length_pieces (limit count : Nat) (split : RangeSplit) :
    (split.pieces limit count).length = count := by
  simp [pieces]

/-- The first pieces are a front of all. -/
theorem pieces_prefix {count all : Nat} (hle : count ≤ all) (limit : Nat) (split : RangeSplit) :
    split.pieces limit count <+: split.pieces limit all := by
  obtain ⟨more, rfl⟩ := Nat.exists_eq_add_of_le hle
  rw [pieces, pieces, List.range_add, List.map_append]
  exact List.prefix_append _ _

/-- A front of the pieces are fewer pieces. -/
theorem eq_pieces {front rest : List (SplitBatch Record)} {count : Nat}
    (h : front ++ rest = split.pieces limit count) : front = split.pieces limit front.length := by
  have hlength := congrArg List.length h
  rw [List.length_append, length_pieces] at hlength
  have hfewer : min front.length count = front.length := by omega
  have hfront := congrArg (List.take front.length) h
  rw [List.take_left', pieces, ← List.map_take, List.take_range, hfewer] at hfront
  · exact hfront
  · rfl

end RangeSplit

/-! ### The reader of one range -/

namespace RangeReader

/-- The reader of a range, when so many of its pieces were built. -/
def standing (limit delayMs : Nat) (split : RangeSplit) (count : Nat)
    (replay : List (SplitBatch Record)) (flag : WakeFlag) : RangeReader where
  docket := {
    cursors := if count < split.pieceCount limit then [split.cursorAt limit count] else []
    replay
    flag }
  maxRecords := limit
  delayMs

/-- Wherever the reader stands, its positions and sums fit. -/
theorem inBounds_standing {limit delayMs count : Nat} {split : RangeSplit}
    {replay : List (SplitBatch Record)} {flag : WakeFlag} (hlimit : 0 < limit)
    (hstart : split.start < Word.size) (hstop : split.stop < Word.size) :
    (standing limit delayMs split count replay flag).InBounds := by
  intro cursor hcursor
  simp only [standing] at hcursor ⊢
  split at hcursor
  · next hmore =>
      rw [List.mem_singleton] at hcursor
      subst hcursor
      refine ⟨?_, Nat.lt_of_le_of_lt (pieceEnd_spec limit _ hstop).1 hstop,
        pieceEnd_eq hstop limit⟩
      rcases RangeSplit.eq_zero_or_lt_stop hlimit hmore with rfl | hinside
      · simpa [RangeSplit.cursorAt] using hstart
      · exact hinside.trans hstop
  · cases hcursor

/-- What a fetch makes of the reader of a range: it hands out the batch that came back, it finds
nothing because all was built or a wake-up came, or it builds the next piece. -/
inductive Brings (limit delayMs : Nat) (split : RangeSplit) (disturbed : List Bool) :
    Nat → List (SplitBatch Record) → WakeFlag → SplitBatch Record → Nat → WakeFlag → Prop
  | again {count : Nat} {flag : WakeFlag} (stale : SplitBatch Record) :
      Brings limit delayMs split disturbed count [stale] flag stale count flag
  | nothing {count : Nat} {flag : WakeFlag}
      (hidle : split.pieceCount limit ≤ count ∨ (flag.raised || disturbed.headD false) = true) :
      Brings limit delayMs split disturbed count [] flag .empty count ⟨false⟩
  | piece {count : Nat} {flag : WakeFlag} (hmore : count < split.pieceCount limit) :
      Brings limit delayMs split disturbed count [] flag (split.pieceAt limit count) (count + 1)
        (if delayMs = 0 then flag else ⟨false⟩)

variable {limit delayMs : Nat} {split : RangeSplit}

theorem fetch_standing (delayMs : Nat) (hlimit : 0 < limit) (hstop : split.stop < Word.size)
    (disturbed : List Bool) (count : Nat) {replay : List (SplitBatch Record)} (flag : WakeFlag)
    (hreplay : replay.length ≤ 1) :
    ∃ batch later after,
      (standing limit delayMs split count replay flag).fetch disturbed =
          (.returned batch, standing limit delayMs split later [] after) ∧
        Brings limit delayMs split disturbed count replay flag batch later after := by
  match replay with
  | [stale] => exact ⟨stale, count, flag, rfl, .again stale⟩
  | [] =>
      by_cases hmore : count < split.pieceCount limit
      · have hpiece := RangeSplit.piece_cursorAt hlimit hstop count
        have hleft : (if split.pieceCount limit ≤ count + 1 then none
            else some (split.cursorAt limit (count + 1))).toList =
              if count + 1 < split.pieceCount limit then [split.cursorAt limit (count + 1)]
                else [] := by
          by_cases hend : split.pieceCount limit ≤ count + 1
          · rw [if_pos hend, if_neg (Nat.not_lt.2 hend)]
            rfl
          · rw [if_neg hend, if_pos (Nat.not_le.1 hend)]
            rfl
        by_cases hdelay : delayMs = 0
        · refine ⟨_, _, _, ?_, .piece hmore⟩
          simp [fetch, standing, hmore, hdelay, hpiece, hleft]
        · have hnap : flag.nap (disturbed.headD false) =
              (flag.raised || disturbed.headD false, ⟨false⟩) := rfl
          cases hwoken : flag.raised || disturbed.headD false with
          | true =>
              rw [hwoken] at hnap
              refine ⟨_, _, _, ?_, .nothing (.inr hwoken)⟩
              simp only [fetch, standing, if_pos hmore, if_neg hdelay, hnap, Bool.false_eq_true,
                ↓reduceIte]
          | false =>
              rw [hwoken] at hnap
              refine ⟨_, _, _, ?_, .piece hmore⟩
              simp only [fetch, standing, if_pos hmore, if_neg hdelay, hnap, hpiece, hleft,
                Bool.false_eq_true, ↓reduceIte, List.append_nil]
      · refine ⟨_, _, _, ?_, .nothing (.inl (Nat.not_lt.1 hmore))⟩
        simp [fetch, standing, hmore, WakeFlag.nap]

/-- A piece that comes back waits to be handed out again. -/
theorem takeBack_standing {batch : SplitBatch Record} {count : Nat} (delayMs : Nat)
    (flag : WakeFlag)
    (hbatch : batch = .empty ∨ batch ∈ split.pieces limit count) (hlimit : 0 < limit)
    (hstop : split.stop < Word.size) :
    (standing limit delayMs split count [] flag).docket.takeBack batch =
      (standing limit delayMs split count (SplitBatch.telling [batch]) flag).docket := by
  rcases hbatch with rfl | hpiece
  · rfl
  · obtain ⟨place, -, rfl⟩ := List.mem_map.1 hpiece
    have hsome := RangeSplit.isEmpty_pieceAt hlimit hstop place
    have hkept : (split.pieceAt limit place).retainSplits
        (standing limit delayMs split count [] flag).docket.admits =
          split.pieceAt limit place :=
      SplitBatch.retainSplits_fetched rfl _ _
    rw [Docket.takeBack, hkept, hsome]
    simp [SplitBatch.telling, hsome, standing]

/-- What a fetch brings is nothing, or a piece. -/
theorem Brings.eq_empty_or_mem {disturbed : List Bool} {count later : Nat}
    {replay kept : List (SplitBatch Record)} {flag after : WakeFlag} {batch : SplitBatch Record}
    (h : Brings limit delayMs split disturbed count replay flag batch later after)
    (htold : kept ++ replay = split.pieces limit count) :
    batch = .empty ∨ batch ∈ split.pieces limit later := by
  cases h with
  | again => exact .inr (htold ▸ List.mem_append_right _ List.mem_cons_self)
  | nothing => exact .inl rfl
  | piece => exact .inr (by simp [RangeSplit.pieces_succ])

/-- Behind what was kept comes what a fetch brings, and no piece is left out or repeated. -/
theorem Brings.told {disturbed : List Bool} {count later : Nat}
    {replay kept : List (SplitBatch Record)} {flag after : WakeFlag} {batch : SplitBatch Record}
    (h : Brings limit delayMs split disturbed count replay flag batch later after)
    (hlimit : 0 < limit) (hstop : split.stop < Word.size)
    (htold : kept ++ replay = split.pieces limit count) :
    kept ++ SplitBatch.telling [batch] = split.pieces limit later := by
  cases h with
  | again =>
      have hmem : batch ∈ split.pieces limit count :=
        htold ▸ List.mem_append_right _ List.mem_cons_self
      obtain ⟨place, -, rfl⟩ := List.mem_map.1 hmem
      simpa [SplitBatch.telling, RangeSplit.isEmpty_pieceAt hlimit hstop] using htold
  | nothing => exact htold
  | piece =>
      rw [List.append_nil] at htold
      rw [htold, RangeSplit.pieces_succ]
      simp [SplitBatch.telling, RangeSplit.isEmpty_pieceAt hlimit hstop]

theorem Brings.later_le {disturbed : List Bool} {count later : Nat}
    {replay : List (SplitBatch Record)} {flag after : WakeFlag} {batch : SplitBatch Record}
    (h : Brings limit delayMs split disturbed count replay flag batch later after)
    (hcount : count ≤ split.pieceCount limit) : later ≤ split.pieceCount limit := by
  cases h with
  | again => exact hcount
  | nothing => exact hcount
  | piece hmore => exact hmore

end RangeReader

/-! ### Sessions with it -/

namespace Session

/-- The session with a new reader that has taken on a range. -/
def ofRange (maxRecords delayMs : Nat) (split : RangeSplit) : Session where
  reader :=
    (SplitReader.change (.addition [.range split])
      (Backend.ranges (.withLimits maxRecords delayMs))).2.2

/-- The batch that a move has the reader build, if something happens in it.  One that came back is
not built again. -/
def newlyBuilt (store : FileStore) (session : Session) : Move → List (SplitBatch Record)
  | .wake => []
  | .fetch disturbed _ =>
    match session.reader.replay, SplitReader.fetch store disturbed session.reader with
    | [], (.returned batch, _) => SplitBatch.telling [batch]
    | _, _ => []

/-- The reader has built so many pieces of the range, and these are the kept ones and the one that
waits to be handed out again. -/
structure Counted (limit delayMs : Nat) (split : RangeSplit) (count : Nat)
    (replay : List (SplitBatch Record)) (flag : WakeFlag) (session : Session) : Prop where
  reader : session.reader = .ranges (.standing limit delayMs split count replay flag)
  count_le : count ≤ split.pieceCount limit
  replay_le : replay.length ≤ 1
  told : SplitBatch.telling session.kept ++ replay = split.pieces limit count

variable {limit delayMs count : Nat} {split : RangeSplit} {replay : List (SplitBatch Record)}
  {flag : WakeFlag} {session : Session} {store : FileStore}

theorem counted_ofRange (maxRecords delayMs : Nat) (split : RangeSplit) :
    (ofRange maxRecords delayMs split).Counted (max maxRecords 1) delayMs split 0 [] {} := by
  refine ⟨?_, Nat.zero_le _, Nat.zero_le _, rfl⟩
  have hsome : 0 < split.pieceCount (max maxRecords 1) := RangeSplit.one_le_pieceCount _ _
  have hfirst : split.cursorAt (max maxRecords 1) 0 = { split, next := split.start } := by
    simp [RangeSplit.cursorAt]
  rw [RangeReader.standing, if_pos hsome, hfirst]
  rfl

/-- Every fetch returns. -/
theorem fetch_counted (store : FileStore)
    (h : session.Counted limit delayMs split count replay flag)
    (hlimit : 0 < limit) (hstop : split.stop < Word.size) (disturbed : List Bool) :
    ∃ batch later after,
      SplitReader.fetch store disturbed session.reader =
          (.returned batch, .ranges (.standing limit delayMs split later [] after)) ∧
        RangeReader.Brings limit delayMs split disturbed count replay flag batch later after := by
  obtain ⟨batch, later, after, hread, hbrings⟩ :=
    RangeReader.fetch_standing delayMs hlimit hstop disturbed count flag h.replay_le
  refine ⟨batch, later, after, ?_, hbrings⟩
  rw [h.reader]
  simp [SplitReader.fetch, Backend.fetch, hread]

/-- The batch of a fetch is kept. -/
theorem counted_keep {disturbed : List Bool} {batch : SplitBatch Record} {later : Nat}
    {after : WakeFlag} (h : session.Counted limit delayMs split count replay flag)
    (hbrings : RangeReader.Brings limit delayMs split disturbed count replay flag batch later after)
    (hlimit : 0 < limit) (hstop : split.stop < Word.size) :
    Counted limit delayMs split later [] after
      { reader := .ranges (.standing limit delayMs split later [] after)
        kept := session.kept ++ [batch] } := by
  refine ⟨rfl, hbrings.later_le h.count_le, Nat.zero_le _, ?_⟩
  rw [SplitBatch.telling_append, List.append_nil, hbrings.told hlimit hstop h.told]

/-- Every move can be made, and the pieces that were built are then those of before and what the
move built. -/
theorem counted_step (h : session.Counted limit delayMs split count replay flag)
    (hlimit : 0 < limit) (hstop : split.stop < Word.size) (move : Move) :
    ∃ next later again after, step store move session = some next ∧
      next.Counted limit delayMs split later again after ∧
        split.pieces limit later =
          split.pieces limit count ++ newlyBuilt store session move := by
  cases move with
  | wake =>
      refine ⟨_, count, replay, flag.wake, rfl, ⟨?_, h.count_le, h.replay_le, h.told⟩, ?_⟩
      · rw [h.reader]
        rfl
      · exact (List.append_nil _).symm
  | fetch disturbed keeps =>
      obtain ⟨batch, later, after, hfetch, hbrings⟩ :=
        fetch_counted store h hlimit hstop disturbed
      have htold := hbrings.told hlimit hstop h.told
      have hbuilt : split.pieces limit later =
          split.pieces limit count ++ newlyBuilt store session (.fetch disturbed keeps) := by
        have hreplay : session.reader.replay = replay := by rw [h.reader]; rfl
        rw [newlyBuilt, hfetch, hreplay]
        cases hbrings with
        | again => exact (List.append_nil _).symm
        | nothing => exact (List.append_nil _).symm
        | piece => rw [← htold, ← h.told, List.append_nil]
      cases keeps with
      | true =>
          exact ⟨_, later, [], after, by rw [step, hfetch]; rfl,
            counted_keep h hbrings hlimit hstop, hbuilt⟩
      | false =>
          have hback : SplitReader.rewind batch
              (Backend.ranges (.standing limit delayMs split later [] after)) =
                (.returned (), [],
                  .ranges (.standing limit delayMs split later (SplitBatch.telling [batch])
                    after)) := by
            have hwaits := RangeReader.takeBack_standing delayMs after
              (hbrings.eq_empty_or_mem h.told) hlimit hstop
            simp only [SplitReader.rewind, Backend.rewind, hwaits]
            rfl
          refine ⟨{ session with reader := _ }, later, SplitBatch.telling [batch], after,
            by simp [step, hfetch, hback], ⟨rfl, hbrings.later_le h.count_le, ?_, htold⟩, hbuilt⟩
          exact List.length_filter_le _ _

/-- On every course the pieces that were built are the batches that its moves built. -/
theorem counted_follow (store : FileStore)
    (h : session.Counted limit delayMs split count replay flag)
    (hlimit : 0 < limit) (hstop : split.stop < Word.size) (moves : List Move) :
    ∃ last later again after, Course.follow (step store) moves session = some last ∧
      last.Counted limit delayMs split later again after ∧
        split.pieces limit later =
          split.pieces limit count ++
            Course.gather (step store) (newlyBuilt store) moves session := by
  induction moves generalizing session count replay flag with
  | nil => exact ⟨session, count, replay, flag, rfl, h, (List.append_nil _).symm⟩
  | cons move moves ih =>
      obtain ⟨next, later, again, after, hmove, hnext, hbuilt⟩ := counted_step h hlimit hstop move
      obtain ⟨last, final, waiting, raised, hrest, hlast, hmore⟩ := ih hnext
      refine ⟨last, final, waiting, raised, Course.follow_cons_eq_some.2 ⟨next, hmove, hrest⟩,
        hlast, ?_⟩
      rw [hmore, hbuilt, List.append_assoc]
      simp [Course.gather, hmove]

/-! ### A range that was counted out -/

/-- The kept batches count a range out: they hold the records of its numbers, all others are
empty, the end mark comes once, with the last record, or alone if the range has no numbers, and
as many batches were built as the range has pieces. -/
structure CountedOut (limit : Nat) (split : RangeSplit) (built kept : List (SplitBatch Record)) :
    Prop where
  records : kept.flatMap (fun batch => entriesOf batch.groups) =
    split.numbers.map (split.id, ·)
  mark : ∃ before last after, kept = before ++ last :: after ∧
    last.finished.toList = [split.id] ∧
    (∀ batch ∈ before, batch.finished.isEmpty = true) ∧
    (∀ batch ∈ after, batch.isEmpty = true) ∧
    (split.start < split.stop → (entriesOf last.groups).getLast? =
      some (split.id, RangeReader.recordOf split.id (split.stop - 1))) ∧
    (split.stop ≤ split.start → last.recordCount = 0 ∧ ∀ batch ∈ before, batch.isEmpty = true)
  built : built.length = max 1 ((split.stop - split.start) ⌈/⌉ limit)

/-- Batches that tell of nothing hold no records. -/
theorem entries_telling (batches : List (SplitBatch Record)) :
    (SplitBatch.telling batches).flatMap (fun batch => entriesOf batch.groups) =
      batches.flatMap fun batch => entriesOf batch.groups := by
  induction batches with
  | nil => rfl
  | cons batch batches ih =>
      rw [← List.singleton_append, SplitBatch.telling_append, List.flatMap_append,
        List.flatMap_append, ih]
      congr 1
      cases hempty : batch.isEmpty with
      | false => simp [SplitBatch.telling, hempty]
      | true =>
          have hnone : ∀ group ∈ batch.groups, group.2 = [] := by
            simp only [SplitBatch.isEmpty, SplitBatch.recordCount, Bool.and_eq_true, beq_iff_eq,
              List.length_eq_zero_iff, List.flatMap_eq_nil_iff] at hempty
            exact hempty.1
          have hentries : entriesOf batch.groups = [] :=
            List.flatMap_eq_nil_iff.2 fun group hgroup => by rw [hnone group hgroup]; rfl
          simp [SplitBatch.telling, hempty, hentries]

theorem entries_pieces (limit count : Nat) (split : RangeSplit) :
    (split.pieces limit count).flatMap (fun batch => entriesOf batch.groups) =
      ((List.range count).flatMap (split.recordsAt limit ·)).map (split.id, ·) := by
  rw [RangeSplit.pieces, List.flatMap_map, List.map_flatMap]
  simp only [RangeSplit.pieceAt, SplitBatch.entriesOf_fetched]

/-- What was kept are the first pieces. -/
theorem telling_kept (h : session.Counted limit delayMs split count replay flag) :
    ∃ told ≤ count, SplitBatch.telling session.kept = split.pieces limit told := by
  refine ⟨_, ?_, RangeSplit.eq_pieces h.told⟩
  have hlength := congrArg List.length h.told
  rw [List.length_append, RangeSplit.length_pieces] at hlength
  omega

/-- No kept batch holds more records than a piece. -/
theorem recordCount_kept_le (h : session.Counted limit delayMs split count replay flag)
    {batch : SplitBatch Record} (hbatch : batch ∈ session.kept) : batch.recordCount ≤ limit := by
  cases hempty : batch.isEmpty with
  | true =>
      simp only [SplitBatch.isEmpty, Bool.and_eq_true, beq_iff_eq] at hempty
      exact hempty.1 ▸ Nat.zero_le _
  | false =>
      obtain ⟨told, -, htold⟩ := telling_kept h
      have hmem : batch ∈ SplitBatch.telling session.kept :=
        List.mem_filter.2 ⟨hbatch, by simp [hempty]⟩
      rw [htold] at hmem
      obtain ⟨place, -, rfl⟩ := List.mem_map.1 hmem
      rw [RangeSplit.pieceAt, SplitBatch.recordCount_fetched]
      exact RangeSplit.length_recordsAt_le limit place split

/-- What was kept is the front of the range. -/
theorem entries_kept_prefix (h : session.Counted limit delayMs split count replay flag)
    (hlimit : 0 < limit) (hstop : split.stop < Word.size) :
    session.kept.flatMap (fun batch => entriesOf batch.groups) <+:
      split.numbers.map (split.id, ·) := by
  obtain ⟨told, hle, htold⟩ := telling_kept h
  have hfront := (RangeSplit.pieces_prefix (hle.trans h.count_le) limit split).flatMap
    fun batch : SplitBatch Record => entriesOf batch.groups
  rwa [← htold, entries_telling, entries_pieces, RangeSplit.recordsAt_all hlimit hstop] at hfront

/-- The end mark is kept when all pieces are. -/
theorem mark_kept_iff (h : session.Counted limit delayMs split count replay flag) :
    (∃ batch ∈ session.kept, batch.finished.contains split.id = true) ↔
      SplitBatch.telling session.kept = split.pieces limit (split.pieceCount limit) := by
  obtain ⟨told, hle, htold⟩ := telling_kept h
  constructor
  · rintro ⟨batch, hbatch, hends⟩
    have hsome : batch.isEmpty = false := by
      cases hempty : batch.isEmpty with
      | false => rfl
      | true =>
          simp only [SplitBatch.isEmpty, Bool.and_eq_true] at hempty
          rw [IdSet.contains_of_isEmpty hempty.2] at hends
          cases hends
    have hmem : batch ∈ SplitBatch.telling session.kept :=
      List.mem_filter.2 ⟨hbatch, by simp [hsome]⟩
    rw [htold] at hmem
    obtain ⟨place, hplace, rfl⟩ := List.mem_map.1 hmem
    have hlast : split.pieceCount limit ≤ place + 1 := by
      by_contra hmore
      rw [IdSet.contains, RangeSplit.finished_pieceAt, if_neg hmore] at hends
      cases hends
    have hall : told = split.pieceCount limit :=
      Nat.le_antisymm (hle.trans h.count_le)
        (hlast.trans (Nat.succ_le_of_lt (List.mem_range.1 hplace)))
    rw [htold, hall]
  · intro hall
    have hone := RangeSplit.one_le_pieceCount limit split
    have hmem : split.pieceAt limit (split.pieceCount limit - 1) ∈
        SplitBatch.telling session.kept := by
      rw [hall]
      exact List.mem_map.2 ⟨_, List.mem_range.2 (Nat.sub_lt hone Nat.one_pos), rfl⟩
    refine ⟨_, (List.mem_filter.1 hmem).1, ?_⟩
    rw [IdSet.contains, RangeSplit.finished_pieceAt, if_pos (by omega)]
    simp

/-- Before the last piece no batch has an end mark. -/
theorem finished_of_early {kept : List (SplitBatch Record)} {early : Nat}
    (hkept : SplitBatch.telling kept = split.pieces limit early)
    (hearly : early < split.pieceCount limit) {batch : SplitBatch Record} (hbatch : batch ∈ kept) :
    batch.finished.isEmpty = true := by
  cases hempty : batch.isEmpty with
  | true =>
      simp only [SplitBatch.isEmpty, Bool.and_eq_true] at hempty
      exact hempty.2
  | false =>
      have hmem : batch ∈ SplitBatch.telling kept := List.mem_filter.2 ⟨hbatch, by simp [hempty]⟩
      rw [hkept] at hmem
      obtain ⟨place, hplace, rfl⟩ := List.mem_map.1 hmem
      have hmore : ¬ split.pieceCount limit ≤ place + 1 := by
        have hbefore := List.mem_range.1 hplace
        omega
      rw [IdSet.isEmpty, RangeSplit.finished_pieceAt, if_neg hmore]
      rfl

/-- When all pieces are kept, the range is counted out. -/
theorem countedOut_of_all {built kept : List (SplitBatch Record)}
    (hkept : SplitBatch.telling kept = split.pieces limit (split.pieceCount limit))
    (hbuilt : built.length = split.pieceCount limit) (hlimit : 0 < limit)
    (hstop : split.stop < Word.size) : CountedOut limit split built kept := by
  constructor
  case records =>
    rw [← entries_telling, hkept, entries_pieces, RangeSplit.recordsAt_all hlimit hstop]
  case mark =>
    obtain ⟨place, hplace⟩ : ∃ place, split.pieceCount limit = place + 1 :=
      Nat.exists_eq_succ_of_ne_zero (Nat.ne_of_gt (RangeSplit.one_le_pieceCount limit split))
    rw [hplace, RangeSplit.pieces_succ] at hkept
    obtain ⟨front, rest, rfl, hfront, hrest⟩ := List.filter_eq_append_iff.1 hkept
    obtain ⟨idle, after, rfl, hidle, -, hafter⟩ := List.filter_eq_cons_iff.1 hrest
    have hbefore : SplitBatch.telling (front ++ idle) = split.pieces limit place := by
      have hnone : SplitBatch.telling idle = [] := List.filter_eq_nil_iff.2 hidle
      rw [SplitBatch.telling_append, hnone, List.append_nil]
      exact hfront
    refine ⟨front ++ idle, split.pieceAt limit place, after, by simp, ?_, ?_, ?_, ?_, ?_⟩
    · rw [RangeSplit.finished_pieceAt, hplace, if_pos (Nat.le_refl _)]
    · intro batch hbatch
      exact finished_of_early hbefore (hplace ▸ Nat.lt_succ_self place) hbatch
    · intro batch hbatch
      simpa using List.filter_eq_nil_iff.1 hafter batch hbatch
    · intro hsome
      rw [RangeSplit.pieceAt, SplitBatch.entriesOf_fetched, List.getLast?_map,
        RangeSplit.getLast?_recordsAt hlimit hstop hsome hplace.symm]
      rfl
    · intro hnone
      have hfirst : place = 0 := by
        have hone := RangeSplit.pieceCount_of_le hnone hlimit
        omega
      rw [hfirst] at hbefore ⊢
      rw [RangeSplit.pieceAt, SplitBatch.recordCount_fetched,
        RangeSplit.recordsAt_of_le hstop hnone]
      refine ⟨rfl, fun batch hbatch => ?_⟩
      simpa using List.filter_eq_nil_iff.1 hbefore batch hbatch
  case built => exact hbuilt

/-- How many undisturbed fetches keep the end mark at the latest: one for each piece that is not
kept, and one if a wake-up is pending. -/
def toGo (limit : Nat) (split : RangeSplit) (session : Session) : Nat :=
  split.pieceCount limit - (SplitBatch.telling session.kept).length +
    match session.reader with
    | .ranges reader => reader.docket.flag.raised.toNat
    | .files _ => 0

theorem toGo_eq (h : session.Counted limit delayMs split count replay flag) :
    toGo limit split session =
      split.pieceCount limit - (count - replay.length) + flag.raised.toNat := by
  have hlength := congrArg List.length h.told
  rw [List.length_append, RangeSplit.length_pieces] at hlength
  rw [toGo, h.reader, ← hlength, Nat.add_sub_cancel]
  rfl

/-- An undisturbed fetch brings the end mark nearer. -/
theorem gets_on (store : FileStore)
    (h : session.Counted limit delayMs split count replay flag) (hlimit : 0 < limit)
    (hstop : split.stop < Word.size) :
    (∃ batch ∈ session.kept, batch.finished.contains split.id = true) ∨
      ∃ next, step store (.fetch [] true) session = some next ∧
        (∃ later after, next.Counted limit delayMs split later [] after) ∧
          toGo limit split next < toGo limit split session := by
  rw [mark_kept_iff h]
  refine or_iff_not_imp_left.2 fun hmore => ?_
  obtain ⟨batch, later, after, hfetch, hbrings⟩ :=
    fetch_counted store h hlimit hstop []
  have hnext := counted_keep h hbrings hlimit hstop
  refine ⟨_, by rw [step, hfetch]; rfl, ⟨later, after, hnext⟩, ?_⟩
  rw [toGo_eq h, toGo_eq hnext]
  have hcount := h.count_le
  have htold := congrArg List.length h.told
  rw [List.length_append, RangeSplit.length_pieces] at htold
  cases hbrings with
  | again =>
      simp only [List.length_singleton, List.length_nil] at htold ⊢
      omega
  | nothing hidle =>
      rcases hidle with hall | hraised
      · rw [Nat.le_antisymm hcount hall] at h
        exact absurd (by simpa using h.told) hmore
      · have hflag : flag.raised = true := by simpa using hraised
        simp [hflag]
  | piece hplace =>
      have hflag : (if delayMs = 0 then flag else ⟨false⟩ : WakeFlag).raised.toNat ≤
          flag.raised.toNat := by
        split
        · exact Nat.le_refl _
        · exact Nat.zero_le _
      simp only [List.length_nil]
      omega

/-- A reader with one range, whatever its limits and delay, the wake-ups and the batches that go
back.  Every fetch returns and no position or sum leaves 64 bits; no kept batch holds more records
than the limit; what is kept are the first numbers of the range in order; no more pieces are built
than the range has.  Once the end mark is kept, the range is counted out, and a few undisturbed
fetches are always enough to keep it. -/
theorem range_counted_out (store : FileStore) (maxRecords delayMs : Nat) {split : RangeSplit}
    (hstart : split.start < Word.size) (hstop : split.stop < Word.size) (moves : List Move) :
    ∃ last, Course.follow (step store) moves (ofRange maxRecords delayMs split) = some last ∧
      (∃ reader, last.reader = .ranges reader ∧ reader.InBounds) ∧
      (∀ batch ∈ last.kept, batch.recordCount ≤ max maxRecords 1) ∧
      last.kept.flatMap (fun batch => entriesOf batch.groups) <+:
        split.numbers.map (split.id, ·) ∧
      (Course.gather (step store) (newlyBuilt store) moves
        (ofRange maxRecords delayMs split)).length ≤
          max 1 ((split.stop - split.start) ⌈/⌉ max maxRecords 1) ∧
      ((∃ batch ∈ last.kept, batch.finished.contains split.id = true) →
        CountedOut (max maxRecords 1) split
          (Course.gather (step store) (newlyBuilt store) moves
            (ofRange maxRecords delayMs split)) last.kept) ∧
      ∃ fetches ≤ max 1 ((split.stop - split.start) ⌈/⌉ max maxRecords 1) + 1,
        ∃ final, Course.follow (step store) (List.replicate fetches (.fetch [] true)) last =
            some final ∧
          ∃ batch ∈ final.kept, batch.finished.contains split.id = true := by
  have hlimit : 0 < max maxRecords 1 := Nat.lt_of_lt_of_le Nat.one_pos (Nat.le_max_right _ _)
  obtain ⟨last, count, replay, flag, hlast, hcounted, hbuilt⟩ :=
    counted_follow store (counted_ofRange maxRecords delayMs split) hlimit hstop moves
  have hlength := congrArg List.length hbuilt
  rw [List.length_append, RangeSplit.length_pieces, RangeSplit.length_pieces, Nat.zero_add]
    at hlength
  refine ⟨last, hlast, ?_, fun batch hbatch => recordCount_kept_le hcounted hbatch,
    entries_kept_prefix hcounted hlimit hstop, hlength ▸ hcounted.count_le, ?_, ?_⟩
  · exact ⟨_, hcounted.reader, RangeReader.inBounds_standing hlimit hstart hstop⟩
  · intro hmark
    have hall := (mark_kept_iff hcounted).1 hmark
    refine countedOut_of_all hall ?_ hlimit hstop
    have htold := congrArg List.length hcounted.told
    rw [List.length_append, hall, RangeSplit.length_pieces, RangeSplit.length_pieces] at htold
    have hcount := hcounted.count_le
    omega
  · have hnearer {session : Session} (h : ∃ count replay flag,
          session.Counted (max maxRecords 1) delayMs split count replay flag) :
        (∃ batch ∈ session.kept, batch.finished.contains split.id = true) ∨
          ∃ next, step store (.fetch [] true) session = some next ∧
            (∃ count replay flag,
              next.Counted (max maxRecords 1) delayMs split count replay flag) ∧
            toGo (max maxRecords 1) split next < toGo (max maxRecords 1) split session := by
      obtain ⟨count, replay, flag, h⟩ := h
      refine (gets_on store h hlimit hstop).imp_right ?_
      rintro ⟨next, hmove, ⟨later, after, hnext⟩, hless⟩
      exact ⟨next, hmove, ⟨later, [], after, hnext⟩, hless⟩
    obtain ⟨fetches, hfew, final, hfinal, hgoal⟩ :=
      Course.exists_goal _ _ _ hnearer ⟨count, replay, flag, hcounted⟩
    refine ⟨fetches, hfew.trans ?_, final, hfinal, hgoal⟩
    rw [toGo_eq hcounted]
    exact Nat.add_le_add (Nat.sub_le _ _) (Bool.toNat_le _)

/-- The four numbers before the largest that fits. -/
def topRange : RangeSplit := ⟨"a", 18446744073709551611, 18446744073709551615⟩

/-- The range is read by two numbers, with a batch that goes back, a wake-up before a fetch and one
during the delay of another. -/
def topCourse : List Move :=
  [.fetch [] false, .wake, .fetch [] true, .fetch [] true, .fetch [true] true, .fetch [] true,
    .fetch [] true]

/-- The end mark is kept on the course, so the range is counted out, in two pieces. -/
theorem top_counted_out :
    ∃ last, Course.follow (step .empty) topCourse (ofRange 2 7 topRange) = some last ∧
      CountedOut 2 topRange (Course.gather (step .empty) (newlyBuilt .empty) topCourse
        (ofRange 2 7 topRange)) last.kept := by
  obtain ⟨last, hlast, -, -, -, -, hcounted, -⟩ :=
    @range_counted_out .empty 2 7 topRange (by decide) (by decide) topCourse
  have hends : ((Course.follow (step .empty) topCourse (ofRange 2 7 topRange)).any
      (·.kept.any (·.finished.contains "a"))) = true := by
    decide +kernel
  rw [hlast, Option.any_some] at hends
  exact ⟨last, hlast, hcounted (List.any_eq_true.1 hends)⟩

end Session

end SplitFeed
