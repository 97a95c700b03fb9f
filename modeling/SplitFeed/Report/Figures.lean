/-
# Figures for people

Counts with a comma between thousands, and spans of time as a clock shows them.
-/

namespace SplitFeed.Report

/-- Writes a comma before every digit that has a multiple of three digits from it to the end,
unless it is the first. -/
def insertCommas : List Char → List Char
  | [] => []
  | [digit] => [digit]
  | digit :: next :: rest =>
    if (next :: rest).length % 3 = 0 then digit :: ',' :: insertCommas (next :: rest)
    else digit :: insertCommas (next :: rest)

/-- A count with a comma between thousands. -/
def formatNumber (n : Nat) : String :=
  String.ofList (insertCommas (Nat.toDigits 10 n))

/-- At least two digits. -/
def twoDigits (n : Nat) : String :=
  if n < 10 then "0" ++ toString n else toString n

/-- Whole seconds as minutes and seconds, with hours in front from the first full hour on. -/
def formatSeconds (total : Nat) : String :=
  let hours := total / 3600
  let minutes := twoDigits (total % 3600 / 60)
  let seconds := twoDigits (total % 60)
  if 0 < hours then twoDigits hours ++ ":" ++ minutes ++ ":" ++ seconds
  else minutes ++ ":" ++ seconds

end SplitFeed.Report
