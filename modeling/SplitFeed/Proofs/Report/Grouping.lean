/-
# Digits in groups of three

Counts are written for people, with a comma between thousands.  Where a comma goes depends on how
many digits are still to come, while the text grows from the other end; so what is said of a text
is said of the digits behind a place in it, and by induction from there.

Nothing is lost by the commas: a number can be read back from its text.
-/
import SplitFeed.Report.Figures
import Mathlib.Data.List.Infix

namespace SplitFeed.Report

/-- Some characters are the decimal digits of a number.  A zero comes first only if it is alone. -/
structure IsDecimal (n : Nat) (digits : List Char) : Prop where
  ne_nil : digits ≠ []
  isDigit : ∀ c ∈ digits, c.isDigit
  value : Nat.ofDigitChars 10 digits 0 = n
  unpadded : digits.head? = some '0' → digits = ['0']

/-- A text shows a number in groups of three digits: without its commas it is the number, it begins
and ends with a digit, behind every comma there is a multiple of three digits, and nowhere do more
than three digits follow each other. -/
structure IsGrouped (n : Nat) (text : List Char) : Prop where
  decimal : IsDecimal n (text.filter (· != ','))
  starts : ∃ first ∈ text.head?, first.isDigit
  ends : ∃ last ∈ text.getLast?, last.isDigit
  commas : ∀ before after, text = before ++ ',' :: after → 3 ∣ after.countP Char.isDigit
  runs : ∀ run, run <:+: text → (∀ c ∈ run, c.isDigit) → run.length ≤ 3

/-! ### The digits of a number -/

/-- No zero is put in front of a number. -/
theorem eq_zero_of_head?_toDigits {n : Nat} (h : (Nat.toDigits 10 n).head? = some '0') : n = 0 := by
  induction n using Nat.strongRecOn with
  | ind n ih =>
      rw [Nat.toDigits_eq_if (by decide)] at h
      split at h
      · next hsmall =>
          have hzero : ∀ digit < 10, Nat.digitChar digit = '0' → digit = 0 := by decide
          exact hzero n hsmall (Option.some.inj h)
      · next hlarge =>
          rw [List.head?_append_of_ne_nil _ Nat.toDigits_ne_nil] at h
          have hfront := ih (n / 10) (by omega) h
          omega

theorem isDecimal_toDigits (n : Nat) : IsDecimal n (Nat.toDigits 10 n) where
  ne_nil := Nat.toDigits_ne_nil
  isDigit _ := Nat.isDigit_of_mem_toDigits (by decide) (by decide)
  value := Nat.ofDigitChars_ten_toDigits
  unpadded h := by
    rw [eq_zero_of_head?_toDigits h]
    rfl

/-! ### What inserting commas does to digits -/

theorem ne_comma_of_isDigit {c : Char} (h : c.isDigit) : c ≠ ',' := by
  rintro rfl
  exact absurd h (by decide)

section

variable {digits tail run before after : List Char}

theorem insertCommas_cons_of_three {digit next : Char} {rest : List Char}
    (h : (next :: rest).length % 3 = 0) :
    insertCommas (digit :: next :: rest) = digit :: ',' :: insertCommas (next :: rest) := by
  rw [insertCommas, if_pos h]

theorem insertCommas_cons_of_other {digit next : Char} {rest : List Char}
    (h : ¬ (next :: rest).length % 3 = 0) :
    insertCommas (digit :: next :: rest) = digit :: insertCommas (next :: rest) := by
  rw [insertCommas, if_neg h]

theorem head?_insertCommas (digits : List Char) : (insertCommas digits).head? = digits.head? := by
  fun_cases insertCommas digits <;> rfl

theorem insertCommas_ne_nil (h : digits ≠ []) : insertCommas digits ≠ [] := by
  rw [← List.isSome_head?, head?_insertCommas]
  exact List.isSome_head?.2 h

theorem getLast?_insertCommas (digits : List Char) :
    (insertCommas digits).getLast? = digits.getLast? := by
  fun_induction insertCommas digits with
  | case1 => rfl
  | case2 digit => rfl
  | case3 digit next rest hthree ih =>
      have hne : insertCommas (next :: rest) ≠ [] := insertCommas_ne_nil (List.cons_ne_nil _ _)
      rw [List.getLast?_cons_of_ne_nil (List.cons_ne_nil _ _), List.getLast?_cons_of_ne_nil hne, ih,
        List.getLast?_cons_of_ne_nil (List.cons_ne_nil _ _)]
  | case4 digit next rest hother ih =>
      have hne : insertCommas (next :: rest) ≠ [] := insertCommas_ne_nil (List.cons_ne_nil _ _)
      rw [List.getLast?_cons_of_ne_nil hne, ih, List.getLast?_cons_of_ne_nil (List.cons_ne_nil _ _)]

/-- What is kept of the text is the digits again, if that is the digits and no comma. -/
theorem filter_insertCommas {keeps : Char → Bool} (hcomma : ¬ keeps ',')
    (hdigits : ∀ c ∈ digits, keeps c) : (insertCommas digits).filter keeps = digits := by
  fun_induction insertCommas digits with
  | case1 => rfl
  | case2 digit => exact List.filter_eq_self.2 hdigits
  | case3 digit next rest hthree ih =>
      obtain ⟨hdigit, hrest⟩ := List.forall_mem_cons.1 hdigits
      rw [List.filter_cons_of_pos hdigit, List.filter_cons_of_neg hcomma, ih hrest]
  | case4 digit next rest hother ih =>
      obtain ⟨hdigit, hrest⟩ := List.forall_mem_cons.1 hdigits
      rw [List.filter_cons_of_pos hdigit, ih hrest]

/-- Without the commas there are the digits again. -/
theorem erase_insertCommas (hdigits : ∀ c ∈ digits, c.isDigit) :
    (insertCommas digits).filter (· != ',') = digits :=
  filter_insertCommas (by decide) fun c hc => by simpa using ne_comma_of_isDigit (hdigits c hc)

/-- Digits with their commas have as many digits as there were. -/
theorem countP_insertCommas (hdigits : ∀ c ∈ digits, c.isDigit) :
    (insertCommas digits).countP Char.isDigit = digits.length := by
  rw [List.countP_eq_length_filter, filter_insertCommas (by decide) hdigits]

/-- What stands behind a place in the text is a rest of the digits with its commas, or a comma in
front of it if that rest has a multiple of three digits. -/
theorem suffix_insertCommas (h : tail <:+ insertCommas digits) :
    ∃ rest, rest <:+ digits ∧
      (tail = insertCommas rest ∨ tail = ',' :: insertCommas rest ∧ 3 ∣ rest.length) := by
  fun_induction insertCommas digits with
  | case1 => exact ⟨[], List.suffix_refl _, .inl (List.suffix_nil.1 h)⟩
  | case2 digit =>
      rcases List.suffix_cons_iff.1 h with rfl | hnil
      · exact ⟨[digit], List.suffix_refl _, .inl rfl⟩
      · exact ⟨[], List.nil_suffix, .inl (List.suffix_nil.1 hnil)⟩
  | case3 digit next rest hthree ih =>
      rcases List.suffix_cons_iff.1 h with rfl | hcomma
      · exact ⟨_, List.suffix_refl _, .inl (insertCommas_cons_of_three hthree).symm⟩
      rcases List.suffix_cons_iff.1 hcomma with rfl | hlater
      · exact ⟨next :: rest, List.suffix_cons _ _, .inr ⟨rfl, Nat.dvd_of_mod_eq_zero hthree⟩⟩
      · obtain ⟨later, hsuffix, htail⟩ := ih hlater
        exact ⟨later, hsuffix.trans (List.suffix_cons _ _), htail⟩
  | case4 digit next rest hother ih =>
      rcases List.suffix_cons_iff.1 h with rfl | hlater
      · exact ⟨_, List.suffix_refl _, .inl (insertCommas_cons_of_other hother).symm⟩
      · obtain ⟨later, hsuffix, htail⟩ := ih hlater
        exact ⟨later, hsuffix.trans (List.suffix_cons _ _), htail⟩

/-- Behind a comma there is a multiple of three digits. -/
theorem three_dvd_of_comma (hdigits : ∀ c ∈ digits, c.isDigit)
    (h : insertCommas digits = before ++ ',' :: after) : 3 ∣ after.countP Char.isDigit := by
  obtain ⟨rest, hrest, hbegins | ⟨hcomma, hthree⟩⟩ := suffix_insertCommas ⟨before, h.symm⟩
  · have hhead : rest.head? = some ',' := by rw [← head?_insertCommas, ← hbegins, List.head?_cons]
    have hmem : ',' ∈ digits := hrest.subset (List.mem_of_head? hhead)
    exact absurd (hdigits _ hmem) (by decide)
  · obtain ⟨-, rfl⟩ := List.cons.inj hcomma
    rwa [countP_insertCommas fun c hc => hdigits c (hrest.subset hc)]

/-- The first group has one digit more than what lies beyond a multiple of three behind it. -/
theorem length_le_of_prefix (hrun : ∀ c ∈ run, c.isDigit) (h : run <+: insertCommas digits) :
    run.length ≤ (digits.length - 1) % 3 + 1 := by
  fun_induction insertCommas digits generalizing run with
  | case1 => simp [List.prefix_nil.1 h]
  | case2 digit => simpa using h.length_le
  | case3 digit next rest hthree ih =>
      -- The comma behind the first digit ends the run.
      match run with
      | [] | [_] => simp
      | _ :: c :: run =>
          have hcomma : c = ',' := (List.cons_prefix_cons.1 (List.cons_prefix_cons.1 h).2).1
          exact absurd hcomma (ne_comma_of_isDigit (hrun c (by simp)))
  | case4 digit next rest hother ih =>
      match run with
      | [] => simp
      | c :: run =>
          have hlater := ih (List.forall_mem_cons.1 hrun).2 (List.cons_prefix_cons.1 h).2
          simp only [List.length_cons] at hother hlater ⊢
          omega

/-- No more than three digits follow each other. -/
theorem length_le_of_infix (hrun : ∀ c ∈ run, c.isDigit) (h : run <:+: insertCommas digits) :
    run.length ≤ 3 := by
  obtain ⟨tail, hbegins, hbehind⟩ := List.infix_iff_prefix_suffix.1 h
  obtain ⟨rest, -, rfl | ⟨rfl, -⟩⟩ := suffix_insertCommas hbehind
  · have hlength := length_le_of_prefix hrun hbegins
    omega
  · match run with
    | [] => simp
    | c :: run =>
        have hcomma : c = ',' := (List.cons_prefix_cons.1 hbegins).1
        exact absurd hcomma (ne_comma_of_isDigit (hrun c List.mem_cons_self))

end

/-- Every count is written in groups of three digits, so different counts are
written differently. -/
theorem formatNumber_grouped :
    (∀ n, IsGrouped n (formatNumber n).toList) ∧ Function.Injective formatNumber := by
  have hgrouped (n : Nat) : IsGrouped n (formatNumber n).toList := by
    have hdecimal := isDecimal_toDigits n
    have hdigits := hdecimal.isDigit
    rw [formatNumber, String.toList_ofList]
    refine ⟨?_, ?_, ?_, fun before after => three_dvd_of_comma hdigits,
      fun run hrun hrundigits => length_le_of_infix hrundigits hrun⟩
    · rwa [erase_insertCommas hdigits]
    · refine ⟨_, ?_, hdigits _ (List.head_mem hdecimal.ne_nil)⟩
      rw [head?_insertCommas, List.head?_eq_some_head hdecimal.ne_nil, Option.mem_some]
    · refine ⟨_, ?_, hdigits _ (List.getLast_mem hdecimal.ne_nil)⟩
      rw [getLast?_insertCommas, List.getLast?_eq_some_getLast hdecimal.ne_nil, Option.mem_some]
  refine ⟨hgrouped, fun m n hsame => ?_⟩
  calc
    m = Nat.ofDigitChars 10 ((formatNumber m).toList.filter (· != ',')) 0 :=
      (hgrouped m).decimal.value.symm
    _ = Nat.ofDigitChars 10 ((formatNumber n).toList.filter (· != ',')) 0 := by rw [hsame]
    _ = n := (hgrouped n).decimal.value

example : formatNumber 1234567 = "1,234,567" := by decide +kernel

end SplitFeed.Report
