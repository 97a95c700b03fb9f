/-
# Lines do not depend on the buffer

Whoever reads through a buffer is shown some front of the bytes that remain and says how many of
them are used up.  How much is shown at a time is up to the buffer, which only has to show
something as long as anything remains.  Reading a line goes from one such front to the next until
there is a newline in one; what comes of it is told by the remaining bytes alone.

A source of lines reads in this way.
-/
import SplitFeed.Proofs.Reading.Lines
import Mathlib.Data.List.TakeWhile

namespace SplitFeed

namespace LineSource

/-! ### Lines with their newlines -/

/-- Some bytes are cut into lines, in order: each of them ends with its only newline, but the last
one may have none if it is not empty. -/
inductive Cut : List UInt8 → List (List UInt8) → Prop
  | done : Cut [] []
  | ended {line rest : List UInt8} {lines : List (List UInt8)} :
      newline ∉ line → Cut rest lines → Cut (line ++ newline :: rest) ((line ++ [newline]) :: lines)
  | unended {line : List UInt8} : newline ∉ line → line ≠ [] → Cut line [line]

theorem Cut.flatten {bytes : List UInt8} {lines : List (List UInt8)} (h : Cut bytes lines) :
    lines.flatten = bytes := by
  induction h with
  | done => rfl
  | ended hline hrest ih => simp [ih]
  | unended hline hne => simp

/-- All bytes can be cut into lines. -/
theorem exists_cut (bytes : List UInt8) : ∃ lines, Cut bytes lines := by
  induction hlength : bytes.length using Nat.strongRecOn generalizing bytes with
  | ind length ih =>
      by_cases hmem : newline ∈ bytes
      · obtain ⟨line, rest, rfl, hline⟩ := List.eq_append_cons_of_mem hmem
        have hshorter : rest.length < length := by
          simp only [← hlength, List.length_append, List.length_cons]
          omega
        obtain ⟨lines, hlines⟩ := ih rest.length hshorter rest rfl
        exact ⟨_, .ended hline hlines⟩
      · by_cases hnil : bytes = []
        · exact ⟨[], hnil ▸ .done⟩
        · exact ⟨[bytes], .unended hmem hnil⟩

theorem ne_newline_of_mem {front : List UInt8} (h : newline ∉ front) :
    ∀ byte ∈ front, byte ≠ newline :=
  fun _ hbyte => ne_of_mem_of_not_mem hbyte h

/-- Bytes without a newline are their own first line. -/
theorem firstLine_of_not_mem {bytes : List UInt8} (h : newline ∉ bytes) :
    firstLine bytes = bytes := by
  simpa [firstLine] using firstLine_append (ne_newline_of_mem h) []

/-- The first of the lines is the first line, and the others are cut from what is behind it. -/
theorem Cut.behind {bytes later : List UInt8} {lines : List (List UInt8)} (h : Cut bytes lines)
    (hlater : bytes = firstLine bytes ++ later) :
    firstLine bytes = lines.headD [] ∧ Cut later lines.tail := by
  cases h with
  | done =>
      obtain rfl : later = [] := by simpa [firstLine] using hlater
      exact ⟨rfl, .done⟩
  | @ended line rest lines hline hrest =>
      have hfirst := firstLine_append_newline (ne_newline_of_mem hline) rest
      obtain rfl : rest = later := by simpa [hfirst] using hlater
      exact ⟨hfirst, hrest⟩
  | unended hline hne =>
      have hfirst := firstLine_of_not_mem hline
      obtain rfl : later = [] := by simpa [hfirst] using hlater
      exact ⟨hfirst, .done⟩

/-! ### Looking for a newline -/

theorem idxOf?_newline {front : List UInt8} (h : newline ∉ front) (rest : List UInt8) :
    (front ++ newline :: rest).idxOf? newline = some front.length := by
  have hfront : front.findIdx? (· == newline) = none :=
    List.findIdx?_eq_none_iff.2 fun byte hbyte => beq_false_of_ne (ne_newline_of_mem h byte hbyte)
  simp [List.idxOf?, List.findIdx?_append, hfront, List.findIdx?_cons]

/-- The place of the first newline is the number of bytes before it, none of which is one. -/
theorem exists_front_of_idxOf? {bytes : List UInt8} {place : Nat}
    (h : bytes.idxOf? newline = some place) :
    ∃ front rest, newline ∉ front ∧ bytes = front ++ newline :: rest ∧ place = front.length := by
  have hmem : newline ∈ bytes := Decidable.byContradiction fun hnot => by
    rw [List.idxOf?_eq_none_iff.2 hnot] at h
    cases h
  obtain ⟨front, rest, rfl, hfront⟩ := List.eq_append_cons_of_mem hmem
  rw [idxOf?_newline hfront] at h
  exact ⟨front, rest, hfront, rfl, (Option.some.inj h).symm⟩

/-- What is taken of some bytes to use up their first newline. -/
theorem take_through_newline {bytes front rest : List UInt8}
    (h : bytes = front ++ newline :: rest) :
    bytes.take (front.length + 1) = front ++ [newline] := by
  rw [h, List.take_length_add_append]
  rfl

end LineSource

/-- Bytes behind a buffer, in states of a type.  Filling shows a front of the bytes that remain,
which is empty only when none remain; what is used up of that front is gone. -/
structure Buffered (σ : Type) where
  remaining : σ → List UInt8
  fill : σ → List UInt8 × σ
  consume : Nat → σ → σ
  ready_prefix : ∀ state, (fill state).1 <+: remaining state
  remaining_eq_nil : ∀ state, (fill state).1 = [] → remaining state = []
  remaining_fill : ∀ state, remaining (fill state).2 = remaining state
  remaining_consume : ∀ state, ∀ count ≤ (fill state).1.length,
    remaining (consume count (fill state).2) = (remaining state).drop count

namespace Buffered

/-- What a call leaves: the line so far with what was read, the number of bytes read, and the state
of the buffer. -/
structure Call (σ : Type) where
  line : List UInt8
  count : Nat
  state : σ

variable {σ : Type} (source : Buffered σ)

theorem length_consume_lt {state : σ} (h : (source.fill state).1 ≠ []) :
    (source.remaining (source.consume (source.fill state).1.length (source.fill state).2)).length <
      (source.remaining state).length := by
  have hready := List.length_pos_iff.2 h
  have hle := (source.ready_prefix state).length_le
  rw [source.remaining_consume state _ (Nat.le_refl _), List.length_drop]
  omega

/-- Reads a line, with the newline that ends it, behind the line and the count so far.  This ends
because fewer bytes remain behind every front without a newline. -/
def readLine (line : List UInt8) (count : Nat) (state : σ) : Call σ :=
  let ready := (source.fill state).1
  let filled := (source.fill state).2
  if _h : ready = [] then ⟨line, count, filled⟩
  else
    match ready.idxOf? LineSource.newline with
    | some place =>
      ⟨line ++ ready.take (place + 1), count + (place + 1), source.consume (place + 1) filled⟩
    | none =>
      readLine (line ++ ready) (count + ready.length) (source.consume ready.length filled)
termination_by (source.remaining state).length
decreasing_by exact source.length_consume_lt _h

/-- The state after some calls, each of which is handed a line so far. -/
def after (handed : List (List UInt8)) (state : σ) : σ :=
  handed.foldl (fun state line => (source.readLine line 0 state).state) state

/-! ### One call -/

/-- A call takes the first line off the bytes that remain, however they are shown. -/
theorem readLine_eq (line : List UInt8) (count : Nat) (state : σ) :
    let call := source.readLine line count state
    let read := LineSource.firstLine (source.remaining state)
    call.line = line ++ read ∧ call.count = count + read.length ∧
      source.remaining state = read ++ source.remaining call.state := by
  fun_induction readLine source line count state with
  | case1 line count state ready filled hnil =>
      have hend := source.remaining_eq_nil state hnil
      simp [hend, filled, source.remaining_fill, LineSource.firstLine]
  | case2 line count state ready filled hne place hplace =>
      obtain ⟨front, back, hfront, hready, rfl⟩ := LineSource.exists_front_of_idxOf? hplace
      obtain ⟨behind, hbehind⟩ := source.ready_prefix state
      have hremaining : source.remaining state =
          front ++ LineSource.newline :: (back ++ behind) := by
        rw [← hbehind, show (source.fill state).1 = _ from hready, List.append_assoc]
        rfl
      have hread : LineSource.firstLine (source.remaining state) =
          front ++ [LineSource.newline] := by
        rw [hremaining]
        exact LineSource.firstLine_append_newline (LineSource.ne_newline_of_mem hfront) _
      have hused : front.length + 1 ≤ ready.length := by simp [hready]
      refine ⟨by rw [hread, LineSource.take_through_newline hready], by simp [hread], ?_⟩
      rw [source.remaining_consume state _ hused, hread, hremaining]
      simp
  | case3 line count state ready filled hne hnone ih =>
      -- The first line goes on behind what is shown, and so does the call.
      obtain ⟨behind, hbehind⟩ := source.ready_prefix state
      have hlater : source.remaining (source.consume ready.length filled) = behind := by
        rw [source.remaining_consume state _ (Nat.le_refl _), ← hbehind, List.drop_left]
      have hread : LineSource.firstLine (source.remaining state) =
          ready ++ LineSource.firstLine behind := by
        rw [← hbehind]
        exact LineSource.firstLine_append
          (LineSource.ne_newline_of_mem (List.idxOf?_eq_none_iff.1 hnone)) _
      obtain ⟨hline, hcount, hrest⟩ := ih
      rw [hlater] at hline hcount hrest
      refine ⟨by rw [hline, hread, List.append_assoc], ?_, ?_⟩
      · rw [hcount, hread, List.length_append, Nat.add_assoc]
      · rw [hread, List.append_assoc, ← hrest, hbehind]

/-- A call reads a piece: it adds the piece to the line that it is handed and answers the length of
the piece, which is gone from the bytes that remain.  It answers zero only if none remain. -/
structure Reads (line : List UInt8) (state : σ) (piece : List UInt8) : Prop where
  adds : (source.readLine line 0 state).line = line ++ piece
  counts : (source.readLine line 0 state).count = piece.length
  uses : source.remaining state = piece ++ source.remaining (source.readLine line 0 state).state
  ends : (source.readLine line 0 state).count = 0 ↔ source.remaining state = []

theorem reads_firstLine (line : List UInt8) (state : σ) :
    source.Reads line state (LineSource.firstLine (source.remaining state)) := by
  obtain ⟨hline, hcount, hused⟩ := source.readLine_eq line 0 state
  rw [Nat.zero_add] at hcount
  refine ⟨hline, hcount, hused, ?_⟩
  rw [hcount, List.length_eq_zero_iff]
  refine ⟨fun hempty => ?_, fun hnil => by simp [hnil, LineSource.firstLine]⟩
  exact Decidable.byContradiction fun hne => LineSource.firstLine_ne_nil hne hempty

/-! ### One call after the other -/

/-- Each call takes one line off. -/
theorem cut_after {lines : List (List UInt8)} (handed : List (List UInt8)) {state : σ}
    (h : LineSource.Cut (source.remaining state) lines) :
    LineSource.Cut (source.remaining (source.after handed state)) (lines.drop handed.length) := by
  induction handed generalizing state lines with
  | nil => exact h
  | cons line handed ih =>
      rw [List.length_cons, Nat.add_comm, ← List.drop_drop, List.drop_one]
      have hbehind := h.behind (source.reads_firstLine line state).uses
      exact ih hbehind.2

/-- The call after some others reads the line whose turn it is. -/
theorem reads_after {lines : List (List UInt8)} {state : σ}
    (h : LineSource.Cut (source.remaining state) lines) (handed : List (List UInt8))
    (line : List UInt8) :
    source.Reads line (source.after handed state) (lines.getD handed.length []) := by
  have hreads := source.reads_firstLine line (source.after handed state)
  have hpiece := ((source.cut_after handed h).behind hreads.uses).1
  rwa [hpiece, List.headD_eq_head?_getD, List.head?_drop, ← List.getD_eq_getElem?_getD] at hreads

end Buffered

namespace LineSource

/-! ### Sources of lines -/

section

variable {store : FileStore} {source filled : LineSource}

/-- What reading makes of a buffer that could be filled. -/
theorem readLine_of_fill (hfill : source.fill store = (.ok (), filled)) :
    source.readLine store =
      match filled.buffer with
      | [] => (.ok [], filled)
      | first :: others =>
        let line := (first :: others).takeWhile (· != newline)
        match (first :: others).drop line.length with
        | mark :: rest => (.ok (line ++ [mark]), { filled with buffer := rest })
        | [] =>
          match readLine store { filled with buffer := [] } with
          | (.ok more, source) => (.ok (line ++ more), source)
          | (.error error, source) => (.error error, source) := by
  obtain ⟨buffer, feed⟩ := filled
  rw [readLine]
  split
  · next hfailed => simp [hfailed] at hfill
  · next after hfilled =>
      obtain rfl : ⟨buffer, feed⟩ = after := by simpa [hfilled] using hfill.symm
      split
      · next hnil =>
          subst hnil
          rfl
      · next first others hcons =>
          subst hcons
          rfl

theorem readLine_of_end (hfill : source.fill store = (.ok (), filled))
    (hbuffer : filled.buffer = []) : source.readLine store = (.ok [], filled) := by
  rw [readLine_of_fill hfill, hbuffer]

theorem readLine_of_newline {front rest : List UInt8}
    (hfill : source.fill store = (.ok (), filled)) (hfront : newline ∉ front)
    (hbuffer : filled.buffer = front ++ newline :: rest) :
    source.readLine store = (.ok (front ++ [newline]), { filled with buffer := rest }) := by
  have hline : (front ++ newline :: rest).takeWhile (· != newline) = front := by
    rw [List.takeWhile_append_of_pos (by simpa using ne_newline_of_mem hfront)]
    simp
  have hne : filled.buffer ≠ [] := by simp [hbuffer]
  obtain ⟨first, others, hcons⟩ := List.exists_cons_of_ne_nil hne
  rw [readLine_of_fill hfill, hcons]
  simp [← hcons, hbuffer, hline]

theorem readLine_of_more {more : List UInt8} {next : LineSource}
    (hfill : source.fill store = (.ok (), filled)) (hne : filled.buffer ≠ [])
    (hnone : newline ∉ filled.buffer)
    (hmore : readLine store { filled with buffer := [] } = (.ok more, next)) :
    source.readLine store = (.ok (filled.buffer ++ more), next) := by
  have hline : filled.buffer.takeWhile (· != newline) = filled.buffer :=
    List.takeWhile_eq_self_iff.2 (by simpa using ne_newline_of_mem hnone)
  obtain ⟨first, others, hcons⟩ := List.exists_cons_of_ne_nil hne
  rw [readLine_of_fill hfill, hcons]
  simp [← hcons, hline, hmore]

end

/-- Sources that can be read to their end. -/
abbrev Readable (store : FileStore) : Type := { source : LineSource // source.feed.Whole store }

namespace Readable

variable {store : FileStore}

/-- A source with something in its buffer, unless it has come to its end. -/
def filled (source : Readable store) : Readable store where
  val := (source.1.fill store).2
  property := by
    obtain ⟨filled, hfill, hwhole, -⟩ := fill_whole source.2
    rwa [hfill]

theorem fill_eq (source : Readable store) : source.1.fill store = (.ok (), source.filled.1) := by
  obtain ⟨filled, hfill, -, -⟩ := fill_whole source.2
  have hok : (source.1.fill store).1 = .ok () := by rw [hfill]
  exact Prod.ext hok rfl

theorem bytes_filled (source : Readable store) :
    source.filled.1.bytes store = source.1.bytes store :=
  bytes_fill source.fill_eq

theorem bytes_eq_nil {source : Readable store} (h : source.filled.1.buffer = []) :
    source.1.bytes store = [] := by
  obtain ⟨filled, hfill, -, hend⟩ := fill_whole source.2
  rw [source.fill_eq] at hfill
  obtain rfl : source.filled.1 = filled := (Prod.mk.inj hfill).2
  exact hend h

end Readable

/-- A source as the bytes behind its buffer. -/
def buffered (store : FileStore) : Buffered (Readable store) where
  remaining source := source.1.bytes store
  fill source := (source.filled.1.buffer, source.filled)
  consume count source := ⟨{ source.1 with buffer := source.1.buffer.drop count }, source.2⟩
  ready_prefix source := source.bytes_filled ▸ List.prefix_append _ _
  remaining_eq_nil source := Readable.bytes_eq_nil
  remaining_fill source := source.bytes_filled
  remaining_consume source count hcount := by
    rw [← source.bytes_filled]
    exact (List.drop_append_of_le_length hcount).symm

/-- Reading a line of a source is reading a line through its buffer. -/
theorem readLine_buffered {store : FileStore} (line : List UInt8) (count : Nat)
    (source : Readable store) :
    let call := (buffered store).readLine line count source
    ∃ read, source.1.readLine store = (.ok read, call.state.1) ∧ call.line = line ++ read ∧
      call.count = count + read.length := by
  fun_induction Buffered.readLine (buffered store) line count source with
  | case1 line count source ready filled hnil =>
      exact ⟨[], readLine_of_end source.fill_eq hnil, by simp, rfl⟩
  | case2 line count source ready filled hne place hplace =>
      obtain ⟨front, rest, hfront, hready, rfl⟩ := exists_front_of_idxOf? hplace
      have hrest : filled.1.buffer.drop (front.length + 1) = rest := by
        rw [show filled.1.buffer = _ from hready, List.drop_length_add_append]
        rfl
      refine ⟨front ++ [newline], ?_, by rw [take_through_newline hready], by simp⟩
      rw [readLine_of_newline source.fill_eq hfront hready]
      show _ = (_, { filled.1 with buffer := filled.1.buffer.drop (front.length + 1) })
      rw [hrest]
      rfl
  | case3 line count source ready filled hne hnone ih =>
      obtain ⟨more, hmore, hline, hcount⟩ := ih
      have hrest : filled.1.buffer.drop ready.length = [] := List.drop_length
      refine ⟨ready ++ more, ?_, by rw [hline, List.append_assoc], ?_⟩
      · refine readLine_of_more source.fill_eq hne (List.idxOf?_eq_none_iff.1 hnone) ?_
        rw [← hmore]
        show readLine store { filled.1 with buffer := [] } =
          readLine store { filled.1 with buffer := filled.1.buffer.drop ready.length }
        rw [hrest]
      · rw [hcount, List.length_append, Nat.add_assoc]

/-- What is read through a buffer does not depend on it: one call after the other, whatever line
each of them is handed, adds to that line the next of the lines that the remaining bytes are cut
into, and there is nothing to add only at their end.  A source of lines reads in this way. -/
theorem lines_read_through_any_buffer :
    (∀ {σ : Type} (source : Buffered σ) (state : σ), ∃ lines,
      Cut (source.remaining state) lines ∧ lines.flatten = source.remaining state ∧
        ∀ handed line,
          source.Reads line (source.after handed state) (lines.getD handed.length [])) ∧
    ∀ (store : FileStore) (source : Readable store) (line : List UInt8),
      let call := (buffered store).readLine line 0 source
      ∃ read, source.1.readLine store = (.ok read, call.state.1) ∧ call.line = line ++ read ∧
        call.count = read.length := by
  constructor
  · intro σ source state
    obtain ⟨lines, hlines⟩ := exists_cut (source.remaining state)
    exact ⟨lines, hlines, hlines.flatten, source.reads_after hlines⟩
  · intro store source line
    obtain ⟨read, hread, hline, hcount⟩ := readLine_buffered line 0 source
    exact ⟨read, hread, hline, by rw [hcount, Nat.zero_add]⟩

/-- A source of which each line is torn between chunks, with one newline at the front of a chunk. -/
def torn : Readable FileStore.empty :=
  ⟨{ feed := .packed 0 [[97], [98, 10, 99], [10], [100]] .finished }, by simp, .finished, rfl⟩

example : (List.range 4).map (fun calls =>
      let source := buffered FileStore.empty
      (source.readLine [] 0 (source.after (List.replicate calls []) torn)).line) =
    [[97, 98, 10], [99, 10], [100], []] := by
  decide +kernel

end LineSource

end SplitFeed
