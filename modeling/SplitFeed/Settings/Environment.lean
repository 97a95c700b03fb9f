/-
# Settings from the environment

Variables whose names begin with a certain mark make a layer of settings.  The rest of the name
is a path of keys, and the text is a value in a small notation of its own: numbers, truth
values, lists in brackets, tables in braces, and anything else as text.
-/
import SplitFeed.Decimal.Nearest
import SplitFeed.Settings.Value
import SplitFeed.Text.Blank
import SplitFeed.Text.Cut
import SplitFeed.Text.Escaped
import SplitFeed.Word

namespace SplitFeed.Environment

/-! ### Reading the notation -/

/-- Why a text cannot be read. -/
inductive Misfit where
  /-- The text is not in the notation. -/
  | foreign
  /-- A text between quotes was cut where it cannot be. -/
  | badCut (cause : Text.BadCut)
deriving DecidableEq, Inhabited

/-- Reads something off the front of a text. -/
abbrev Notation := StateT (List Char) (Except Misfit)

/-- Reads what a scanner reads. -/
def scanned {α : Type} (scan : Scan α) : Notation α := fun input =>
  match scan input with
  | some result => .ok result
  | none => .error .foreign

/-- White space around values and keys. -/
def spaces : Notation Unit := do
  let _ ← scanned (Scan.span fun c =>
    c == ' ' || c == '\t' || c == '\n' || c == '\x0c' || c == '\r')

/-! ### Text between quotes -/

/-- The characters up to a quote that has no backslash in front, or up to the end. -/
def upToQuote : List Char → List Char
  | [] => []
  | ['\\'] => ['\\']
  | '\\' :: c :: rest => '\\' :: c :: upToQuote rest
  | c :: rest => if c = '"' then [] else c :: upToQuote rest

/-- The text that characters between quotes stand for.  With an escape among them, the first one
is taken for standing at a byte where it stands at a character: of the text in front of it, as
many bytes are kept as it has characters. -/
def resolved (chars : List Char) : Except Misfit String := do
  let front := chars.takeWhile fun c => Text.isPlain c && c != '\\'
  match chars.drop front.length with
  | [] => return String.ofList front
  | rest =>
    if rest.head? ≠ some '\\' then throw .foreign
    let kept ← (Text.firstBytes front.length 0 front).mapError .badCut
    match Scan.many (Text.unescaped <|> Text.escape) rest with
    | some (more, []) => return String.ofList (kept ++ more)
    | _ => throw .foreign

/-- Text between double quotes.  It has to end before its escapes are looked at. -/
def quotedText : Notation String := do
  scanned (Scan.char '"')
  let chars := upToQuote (← get)
  modify (·.drop chars.length)
  scanned (Scan.char '"')
  return ← resolved chars

/-! ### Values -/

/-- Items up to a closing character, with commas between them; the last one may have a comma,
too. -/
def itemsUpTo {α : Type} (close : Char) (item : Notation α) : Nat → Notation (List α)
  | 0 => throw .foreign
  | fuel + 1 => do
    if ← scanned (Scan.next? close) then return []
    let first ← item
    if ← scanned (Scan.next? ',') then
      return first :: (← itemsUpTo close item fuel)
    scanned (Scan.char close)
    return [first]

/-- Items between two characters.  Each item but the last one takes at least its comma, so the
length of the text bounds their number. -/
def delimited {α : Type} (opening closing : Char) (item : Notation α) : Notation (List α) := do
  scanned (Scan.char opening)
  fun input => itemsUpTo closing item (input.length + 1) input

/-- A key of a table: between quotes, or in letters, digits, dashes and underscores. -/
def key : Notation String := do
  spaces
  let name ← if (← get).head? = some '"' then quotedText
    else String.ofList <$> scanned (Scan.run fun c => c.isAlphanum || c == '-' || c == '_')
  spaces
  return name

/-- A key and its value. -/
def entry (value : Notation Value) : Notation (String × Value) := do
  let name ← key
  scanned (Scan.char '=')
  return (name, ← value)

/-- A single character between single quotes. -/
def letter : Scan Char := do
  Scan.char '\''
  let c ← Scan.one fun _ => true
  Scan.char '\''
  return c

/-- Whether there are only digits, and at least one. -/
def isNatural (chars : List Char) : Bool :=
  !chars.isEmpty && chars.all Decimal.isDigit

/-- A number below `2 ^ 64`, which may have a plus. -/
def unsigned? (chars : List Char) : Option Nat :=
  let digits := match chars with
    | '+' :: digits => digits
    | digits => digits
  let n := Decimal.natural digits
  if isNatural digits && n ≤ Word.greatest then some n else none

/-- A number with a minus, not below `-2 ^ 63`. -/
def negative? : List Char → Option Int
  | '-' :: digits =>
    let n := Decimal.natural digits
    if isNatural digits && n ≤ Word.half then some (-(n : Int)) else none
  | _ => none

/-- What characters without a mark of their own stand for: a number if they are one, or else
text.  Only what has a point can be a fraction. -/
def plain (chars : List Char) : Scalar :=
  let numeral := if chars.contains '.' then Scan.whole Decimal.Numeral.free (String.ofList chars)
    else none
  match numeral, unsigned? chars, negative? chars with
  | some numeral, _, _ => .float numeral.nearest
  | none, some n, _ => .unsigned n
  | none, none, some i => .signed i
  | none, none, none => .text (String.ofList chars)

/-- Characters that end a value without a mark of its own. -/
def separators : List Char := [',', '[', ']', '\x7b', '\x7d']

/-- A value that has no mark of its own. -/
def bare : Scan Scalar :=
  (do Scan.word "true"; return .truth true)
    <|> (do Scan.word "false"; return .truth false)
    <|> do
      let chars ← Scan.span fun c => !separators.contains c
      return plain (Text.trimmed chars)

/-- A value without parts. -/
def scalar (content : Scalar) : Value :=
  .scalar .environment content

/-- A table from pairs; of pairs with one key the last one counts. -/
def table (pairs : List (String × Value)) : Value :=
  .table .environment (pairs.foldl (fun entries pair => Entries.put pair.1 pair.2 entries) [])

/-- A value, with brackets and braces nested less than a number of times.  Its first character
decides what it is. -/
def value : Nat → Notation Value
  | 0 => throw .foreign
  | depth + 1 => do
    spaces
    let result ← match (← get).head? with
      | some '\x7b' => table <$> delimited '\x7b' '\x7d' (entry (value depth))
      | some '[' => Value.list .environment <$> delimited '[' ']' (value depth)
      | some '"' => scalar <$> Scalar.text <$> quotedText
      | some '\'' => scalar <$> Scalar.letter <$> scanned letter
      | _ => scalar <$> scanned bare
    spaces
    return result

/-- The value that the text of a variable stands for.  What is not in the notation is text as a
whole. -/
def read (text : String) : Except Text.BadCut Value :=
  match value (text.length + 1) text.toList with
  | .ok (value, []) => .ok value
  | .error (.badCut cause) => .error cause
  | _ => .ok (scalar (.text text))

/-! ### Names -/

/-- Splits characters at double underscores and at dots. -/
def pathOf : List Char → List (List Char)
  | [] => [[]]
  | '_' :: '_' :: rest => [] :: pathOf rest
  | '.' :: rest => [] :: pathOf rest
  | c :: rest =>
    match pathOf rest with
    | [] => [[c]]
    | part :: parts => (c :: part) :: parts

/-- The path of keys that a name stands for, in lower case, if it begins with the mark in either
case.  Each key must have at least one character. -/
def path? (name : String) : Option (List String) :=
  let chars := Text.trimmed name.toList
  let front := String.ofList (chars.take mark.length)
  if front.toUpper = mark then
    let path := pathOf (Text.trimmed (chars.drop mark.length))
    if path.any List.isEmpty then none
    else some (path.map fun key => (String.ofList key).toLower)
  else none

/-- The layer of settings that variables make, each on top of those before it. -/
def layer (environment : List (String × String)) : Except Text.BadCut Value :=
  environment.foldlM
    (fun layer (name, text) =>
      match path? name with
      | some path => do return layer.overlay (.under .environment path (← read text))
      | none => return layer)
    (.table .environment [])

end SplitFeed.Environment
