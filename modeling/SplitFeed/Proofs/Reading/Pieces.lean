/-
# The lines of a text

What the lines of a text are, said without reading: the pieces between its newlines, the last of
them only if there is something in it.  A line gives a record of its number and its text, unless
that is empty.

The records that reading line by line brings are those of the lines.  Reading keeps the newline of
a line until its bytes are characters; as no character spans a newline, that changes no text.
-/
import Mathlib.Data.List.DropRight
import SplitFeed.Proofs.Reading.Lines

namespace SplitFeed

/-! ### Newlines among characters -/

namespace Text

/-- The byte of a newline does not follow a first byte, so it stays behind what does. -/
theorem following_append_newline {count low high code : Nat} (hlow : LineSource.newline.toNat < low)
    (input : List UInt8) :
    following count low high code (input ++ [LineSource.newline]) =
      ((following count low high code input).1,
        (following count low high code input).2 ++ [LineSource.newline]) := by
  induction input generalizing count low high code with
  | nil =>
      cases count with
      | zero => simp [following]
      | succ count => simp [following, Nat.not_le_of_lt hlow]
  | cons byte rest ih =>
      cases count with
      | zero => simp [following]
      | succ count =>
          rw [List.cons_append]
          by_cases hfits : low ≤ byte.toNat ∧ byte.toNat ≤ high
          · simp only [following, if_pos hfits]
            exact ih (by decide)
          · simp only [following, if_neg hfits, List.cons_append]

/-- What a first byte allows next lies above all single bytes, and no character that it begins is
as low as a newline. -/
theorem LeadByte.spec_of_ofByte? {byte : Nat} {lead : LeadByte} (h : ofByte? byte = some lead) :
    0x80 ≤ lead.low ∧ 0 < lead.following ∧ 10 < lead.bits * 64 + (lead.low - 0x80) := by
  unfold ofByte? at h
  split_ifs at h
  all_goals
    obtain rfl := Option.some.inj h
    dsimp only
    omega

/-- A newline behind some bytes becomes one behind their characters. -/
theorem decodeLossy_append_newline (input : List UInt8) :
    decodeLossy (input ++ [LineSource.newline]) = decodeLossy input ++ ['\n'] := by
  fun_induction decodeLossy input with
  | case1 => simp [decodeLossy, LineSource.newline]
  | case2 byte rest hsingle ih =>
      rw [List.cons_append, decodeLossy, if_pos hsingle, ih, List.cons_append]
  | case3 byte rest hlong hlead ih =>
      rw [List.cons_append, decodeLossy, if_neg hlong, hlead]
      simp only [ih, List.cons_append]
  | case4 byte rest hlong lead hlead read code hcode ih =>
      have hlow := (LeadByte.spec_of_ofByte? hlead).1
      rw [List.cons_append, decodeLossy, if_neg hlong, hlead]
      simp only
      rw [following_append_newline (Nat.lt_of_lt_of_le (by decide) hlow)]
      simp only [read] at hcode ih
      simp only [hcode, ih, List.cons_append, read]
  | case5 byte rest hlong lead hlead read hcode ih =>
      have hlow := (LeadByte.spec_of_ofByte? hlead).1
      rw [List.cons_append, decodeLossy, if_neg hlong, hlead]
      simp only
      rw [following_append_newline (Nat.lt_of_lt_of_le (by decide) hlow)]
      simp only [read] at hcode ih
      simp only [hcode, ih, List.cons_append, read]

/-- What is left behind a character is the end of what there was. -/
theorem following_suffix (count low high code : Nat) (input : List UInt8) :
    (following count low high code input).2 <:+ input := by
  induction input generalizing count low high code with
  | nil => simp [following]
  | cons byte rest ih =>
      unfold following
      split
      · exact List.suffix_refl _
      · split
        · exact (ih _ _ _ _).trans (List.suffix_cons _ _)
        · exact List.suffix_refl _

/-- A code point is at least what its first byte and the lowest that may follow make. -/
theorem le_following {count low high code point : Nat} {input : List UInt8}
    (h : (following (count + 1) low high code input).1 = some point) :
    code * 64 + (low - 0x80) ≤ point := by
  induction input generalizing count low high code with
  | nil => simp [following] at h
  | cons byte rest ih =>
      simp only [following] at h
      split at h
      · next hfits =>
        cases count with
        | zero =>
            obtain rfl : code * 64 + (byte.toNat - 0x80) = point := by
              cases rest <;> simpa [following] using h
            omega
        | succ count =>
            have hnext := ih h
            omega
      · cases h

/-- No character of several bytes is a newline. -/
theorem following_ne_newline {byte point : Nat} {lead : LeadByte} {input : List UInt8}
    (hlead : LeadByte.ofByte? byte = some lead)
    (hpoint : (following lead.following lead.low lead.high lead.bits input).1 = some point) :
    point ≠ 10 := by
  obtain ⟨-, hcount, hbits⟩ := LeadByte.spec_of_ofByte? hlead
  obtain ⟨count, hcount⟩ := Nat.exists_eq_succ_of_ne_zero (Nat.ne_of_gt hcount)
  rw [hcount] at hpoint
  have hle := le_following hpoint
  omega

theorem ofNat_ne_newline {point : Nat} (h : point ≠ 10) : Char.ofNat point ≠ '\n' := by
  intro heq
  by_cases hvalid : point.isValidChar
  · have hcode : Char.ofNat point = Char.ofNatAux point hvalid := dif_pos hvalid
    exact h (congrArg Char.toNat (hcode.symm.trans heq))
  · have hnone : Char.ofNat point = Char.ofNat 0 := dif_neg hvalid
    exact absurd (hnone.symm.trans heq) (by decide)

/-- Without the byte of a newline there is no such character. -/
theorem newline_not_mem_decodeLossy {input : List UInt8} (h : LineSource.newline ∉ input) :
    '\n' ∉ decodeLossy input := by
  fun_induction decodeLossy input with
  | case1 => exact List.not_mem_nil
  | case2 byte rest hsingle ih =>
      rw [List.mem_cons, not_or] at h ⊢
      refine ⟨(ofNat_ne_newline fun hbyte => h.1 ?_).symm, ih h.2⟩
      exact (UInt8.toNat_inj.1 hbyte).symm
  | case3 byte rest hlong hlead ih =>
      rw [List.mem_cons, not_or] at h ⊢
      exact ⟨by decide, ih h.2⟩
  | case4 byte rest hlong lead hlead read code hcode ih =>
      rw [List.mem_cons, not_or] at h ⊢
      refine ⟨(ofNat_ne_newline (following_ne_newline hlead hcode)).symm, ih fun hmem => ?_⟩
      exact h.2 ((following_suffix _ _ _ _ rest).subset hmem)
  | case5 byte rest hlong lead hlead read hcode ih =>
      rw [List.mem_cons, not_or] at h ⊢
      refine ⟨by decide, ih fun hmem => ?_⟩
      exact h.2 ((following_suffix _ _ _ _ rest).subset hmem)

end Text

/-! ### Lines and their records -/

namespace Pieces

/-- The lines of a text: the pieces between its newlines, the last one only if it is not empty. -/
def lines (text : List UInt8) : List (List UInt8) :=
  let pieces := text.splitOn LineSource.newline
  if pieces.getLast? = some [] then pieces.dropLast else pieces

/-- The record of a numbered line: its text without the carriage returns at its end, unless
nothing is left. -/
def record? (number : Nat) (line : List UInt8) : Option Record :=
  let text := (Text.decodeLossy line).rdropWhile (· == '\r')
  if text = [] then none else some ⟨number, String.ofList text⟩

/-- The records of a text: those of its lines, which are numbered from `first`. -/
def records (first : Nat) (text : List UInt8) : List Record :=
  ((lines text).zipIdx first).filterMap fun piece => record? piece.2 piece.1

variable {line rest text : List UInt8}

@[simp]
theorem lines_nil : lines [] = [] := rfl

/-- A newline ends the first line. -/
theorem lines_append_newline (hline : LineSource.newline ∉ line) :
    lines (line ++ LineSource.newline :: rest) = line :: lines rest := by
  have hpieces : (line ++ LineSource.newline :: rest).splitOn LineSource.newline =
      line :: rest.splitOn LineSource.newline := by
    rw [List.splitOn_append_cons_self, List.splitOn_eq_singleton hline, List.singleton_append]
  have hrest : rest.splitOn LineSource.newline ≠ [] := List.splitOn_ne_nil _ _
  simp only [lines, hpieces, List.getLast?_cons_of_ne_nil hrest]
  split
  · rw [List.dropLast_cons_of_ne_nil hrest]
  · rfl

/-- Without a newline there is one line, if there is anything. -/
theorem lines_unended (hline : LineSource.newline ∉ line) (hne : line ≠ []) :
    lines line = [line] := by
  simp [lines, List.splitOn_eq_singleton hline, hne]

/-- What is read of a line, with its newline or without, has the text of the line. -/
theorem lineText_piece (hline : LineSource.newline ∉ line) {mark : List UInt8}
    (hmark : mark = [] ∨ mark = [LineSource.newline]) :
    FileReader.lineText (line ++ mark) =
      String.ofList ((Text.decodeLossy line).rdropWhile (· == '\r')) := by
  have hplain : (Text.decodeLossy line).reverse.dropWhile (· == '\n') =
      (Text.decodeLossy line).reverse := by
    rw [List.dropWhile_eq_self_iff]
    intro hlength
    have hmem := List.mem_reverse.1 (List.getElem_mem hlength)
    intro hnewline
    exact Text.newline_not_mem_decodeLossy hline (eq_of_beq hnewline ▸ hmem)
  rcases hmark with rfl | rfl
  · simp only [FileReader.lineText, List.append_nil, hplain, List.rdropWhile]
  · simp [FileReader.lineText, Text.decodeLossy_append_newline, hplain, List.rdropWhile]

@[simp]
theorem records_nil (first : Nat) : records first [] = [] := rfl

theorem records_of_lines {first : Nat} (h : lines text = line :: lines rest) :
    records first text = (record? first line).toList ++ records (first + 1) rest := by
  cases hrecord : record? first line <;> simp [records, h, hrecord]

/-- What reading makes of a line, with its newline or without, is the record of the line. -/
theorem recordsOf_piece {number : Nat} {mark : List UInt8}
    (hline : LineSource.newline ∉ line) (hmark : mark = [] ∨ mark = [LineSource.newline])
    (later : List Record) :
    (if (FileReader.lineText (line ++ mark)).isEmpty then later
      else ⟨number, FileReader.lineText (line ++ mark)⟩ :: later) =
      (record? number line).toList ++ later := by
  rw [lineText_piece hline hmark]
  by_cases hblank : (Text.decodeLossy line).rdropWhile (· == '\r') = []
  · simp [record?, hblank]
  · simp [record?, hblank]

/-- The first line that is read of a text is its first piece, with its newline if there is one. -/
theorem exists_piece (hne : text ≠ []) :
    ∃ line mark, LineSource.newline ∉ line ∧ (mark = [] ∨ mark = [LineSource.newline]) ∧
      LineSource.firstLine text = line ++ mark ∧
      lines text = line :: lines (text.drop (LineSource.firstLine text).length) := by
  let line := text.takeWhile (· != LineSource.newline)
  have hline : LineSource.newline ∉ line :=
    fun hmem => LineSource.ne_newline_of_mem_takeWhile hmem rfl
  rcases hdrop : text.drop line.length with _ | ⟨mark, rest⟩
  · have htext : text = line := LineSource.not_cut hdrop
    have hread : LineSource.firstLine text = line ++ [] := by
      simp only [LineSource.firstLine, hdrop, List.take_nil, line]
    refine ⟨line, [], hline, .inl rfl, hread, ?_⟩
    rw [hread, List.append_nil, hdrop, lines_nil, ← lines_unended hline (htext ▸ hne), ← htext]
  · obtain ⟨rfl, htext⟩ := LineSource.cut_at_newline hdrop
    have hread : LineSource.firstLine text = line ++ [LineSource.newline] := by
      simp only [LineSource.firstLine, hdrop, List.take_succ_cons, List.take_zero, line]
    have hrest : text.drop (line ++ [LineSource.newline]).length = rest := by
      rw [List.length_append, ← List.drop_drop, hdrop]
      rfl
    refine ⟨line, [LineSource.newline], hline, .inr rfl, hread, ?_⟩
    rw [hread, hrest, ← lines_append_newline hline]
    exact congrArg lines htext

/-- Less is left of a text behind its first line. -/
theorem length_behind_firstLine (hne : text ≠ []) :
    (text.drop (LineSource.firstLine text).length).length < text.length := by
  have hline := List.length_pos_iff.2 (LineSource.firstLine_ne_nil hne)
  have htext := List.length_pos_iff.2 hne
  rw [List.length_drop]
  omega

/-- Reading line by line brings the records of the lines. -/
theorem recordsOf_eq (number : Nat) (text : List UInt8) :
    LineSource.recordsOf number text = records (number + 1) text := by
  induction hlength : text.length using Nat.strongRecOn generalizing number text with
  | ind length ih =>
      by_cases hnil : text = []
      · rw [hnil, LineSource.recordsOf, dif_pos rfl, records_nil]
      · obtain ⟨line, mark, hline, hmark, hread, hlines⟩ := exists_piece hnil
        have hshorter := hlength ▸ length_behind_firstLine hnil
        rw [records_of_lines hlines, ← ih _ hshorter (number + 1) _ rfl,
          ← recordsOf_piece hline hmark, ← hread, LineSource.recordsOf, dif_neg hnil]

end Pieces

end SplitFeed
