/-
# TOML documents

A document is a list of lines: statements, each a key and its value, under headers that say
which table they belong to.  Reading it answers the tree it defines, unless it is malformed or
defines something twice.
-/
import SplitFeed.Toml.Lexeme

namespace SplitFeed.Toml

/-- Items between brackets, over any number of lines; a comma may follow the last one. -/
def array (value : Scan Node) : Scan Node := do
  let item : Scan Node := do
    spacing
    let node ← value
    spacing
    return node
  let items : Scan (List Node) := do
    let items ← Scan.separated item (Scan.char ',')
    let _ ← Scan.next? ','
    return items
  Scan.char '['
  let nodes ← items <|> pure []
  spacing
  Scan.char ']'
  return .array nodes

/-- A key and its value. -/
def pair (value : Scan Node) : Scan (List String × Node) := do
  let keys ← key
  Scan.char '='
  blanks
  return (keys, ← value)

/-- A table between braces, on one line. -/
def inlineTable (value : Scan Node) : Scan Node := do
  let entry : Scan (List String × Node) := do
    let entry ← pair value
    blanks
    return entry
  Scan.char '\x7b'
  let body ← Scan.separated entry (Scan.char ',') <|> pure []
  blanks
  Scan.char '\x7d'
  StateT.lift (Node.inline body)

/-- A value, with brackets and braces nested at most a number of times. -/
def value : Nat → Scan Node
  | 0 => scalar
  | depth + 1 => scalar <|> array (value depth) <|> inlineTable (value depth)

/-- A line without a statement. -/
def emptyLine : Scan Unit := do
  blanks
  let _ ← Scan.maybe comment
  newline

/-- A line with a statement. -/
def statement : Scan (List String × Node) := do
  let entry ← pair (value (deepest - 1))
  lineEnd
  return entry

/-- The lines under a header. -/
def body : Scan Node.Body := do
  let lines ← Scan.many ((do emptyLine; return none) <|> (some <$> statement))
  return lines.filterMap id

/-- The header of a table, in brackets; those of a repeated table are doubled. -/
def header : Scan (List String × Bool) := do
  blanks
  let header ← (do
      Scan.word "[["
      let keys ← key
      Scan.word "]]"
      return (keys, true))
    <|> (do
      Scan.char '['
      let keys ← key
      Scan.char ']'
      return (keys, false))
  lineEnd
  return header

/-- A header and the lines under it. -/
def chapter : Scan Section := do
  let (header, isRow) ← header
  return { header, isRow, body := ← body }

/-- A whole document, which a byte order mark may precede. -/
def document : Scan (Node.Body × List Section) := do
  let _ ← Scan.next? '\ufeff'
  let first ← body
  let sections ← Scan.many chapter
  blanks
  let _ ← Scan.maybe comment
  finish
  return (first, sections)

/-- The tree that a document defines. -/
def read (text : String) : Option Node := do
  let (first, sections) ← Scan.whole document text
  Node.ofSections first sections

end SplitFeed.Toml
