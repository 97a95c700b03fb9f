/-
# UTF-8

Bytes as text.  Bytes that are not UTF-8 do not stop the decoder: each longest run that could
have begun a character, or else the single byte, becomes one replacement character.
-/

namespace SplitFeed.Text

/-- The bytes of a text. -/
def bytes (text : String) : List UInt8 :=
  text.toUTF8.toList

/-- The character put in place of bytes that are not UTF-8. -/
def replacement : Char := '\ufffd'

/-- What the first byte of a character of several bytes says: how many bytes follow, the range
of the first of them, and the bits it contributes itself. -/
structure LeadByte where
  following : Nat
  low : Nat
  high : Nat
  bits : Nat

/-- Reads a first byte.  The ranges leave out overlong forms, surrogates and what lies beyond
the last code point. -/
def LeadByte.ofByte? (byte : Nat) : Option LeadByte :=
  if 0xc2 ≤ byte ∧ byte ≤ 0xdf then some ⟨1, 0x80, 0xbf, byte - 0xc0⟩
  else if byte = 0xe0 then some ⟨2, 0xa0, 0xbf, 0⟩
  else if byte = 0xed then some ⟨2, 0x80, 0x9f, 13⟩
  else if 0xe1 ≤ byte ∧ byte ≤ 0xef then some ⟨2, 0x80, 0xbf, byte - 0xe0⟩
  else if byte = 0xf0 then some ⟨3, 0x90, 0xbf, 0⟩
  else if 0xf1 ≤ byte ∧ byte ≤ 0xf3 then some ⟨3, 0x80, 0xbf, byte - 0xf0⟩
  else if byte = 0xf4 then some ⟨3, 0x80, 0x8f, 4⟩
  else none

/-- Reads the bytes that follow a first byte, as far as they fit.  Answers the code point if all
of them were there, and the bytes behind those that fit. -/
def following (count low high code : Nat) : List UInt8 → Option Nat × List UInt8
  | [] => (if count = 0 then some code else none, [])
  | byte :: rest =>
    match count with
    | 0 => (some code, byte :: rest)
    | count + 1 =>
      if low ≤ byte.toNat ∧ byte.toNat ≤ high then
        following count 0x80 0xbf (code * 64 + (byte.toNat - 0x80)) rest
      else (none, byte :: rest)

theorem length_following_le (count low high code : Nat) (input : List UInt8) :
    (following count low high code input).2.length ≤ input.length := by
  induction input generalizing count low high code with
  | nil => simp [following]
  | cons byte rest ih =>
    unfold following
    split
    · simp
    · split
      · exact Nat.le_succ_of_le (ih _ _ _ _)
      · simp

/-- The characters of a byte sequence, with replacements where it is not UTF-8. -/
def decodeLossy : List UInt8 → List Char
  | [] => []
  | byte :: rest =>
    if byte.toNat < 0x80 then Char.ofNat byte.toNat :: decodeLossy rest
    else
      match LeadByte.ofByte? byte.toNat with
      | none => replacement :: decodeLossy rest
      | some lead =>
        let read := following lead.following lead.low lead.high lead.bits rest
        match read.1 with
        | some code => Char.ofNat code :: decodeLossy read.2
        | none => replacement :: decodeLossy read.2
termination_by input => input.length
decreasing_by
  · simp
  · simp
  · exact Nat.lt_succ_of_le (length_following_le _ _ _ _ rest)
  · exact Nat.lt_succ_of_le (length_following_le _ _ _ _ rest)

end SplitFeed.Text
