/-
# A language of statements

A small language that shows how a grammar drives a builder.  Each line is a statement of
tokens separated by blanks: strings in quotes, names in front of `=`, real numbers behind
`~`, integers and identifiers.  A line that starts with `#line ` is a directive.  A program
is the branch of its statements.
-/
import SyntaxTree.Builder

namespace SyntaxTree
namespace Statements

/-! ## 1. Lines and tokens -/

/-- The lines of a source, each with its line feed. -/
def lines : List UInt8 → List (List UInt8)
  | [] => []
  | b :: rest =>
    if b = 0x0A then [b] :: lines rest
    else
      match lines rest with
      | [] => [[b]]
      | first :: others => (b :: first) :: others

/-- Cuts a line into tokens: runs without blanks, and single blanks. -/
def tokens : List UInt8 → List (List UInt8)
  | [] => []
  | b :: rest =>
    if Ascii.isBlank b then [b] :: tokens rest
    else
      match rest, tokens rest with
      | next :: _, first :: others =>
        if Ascii.isBlank next then [b] :: first :: others else (b :: first) :: others
      | _, _ => [[b]]

/-- The directive on a line, if it is one. -/
def directive? (line : List UInt8) : Option String :=
  let text := dropBlanksEnd (Lossy.chars line)
  let mark := "#line ".toList
  if mark.isPrefixOf text then some (String.ofList (text.drop mark.length)) else none

/-! ## 2. Items -/

/-- What a token other than a blank means. -/
inductive Item where
  | string (body : List UInt8)
  | name (name : List UInt8)
  | count
  | real (text : List UInt8)
  | integer (text : List UInt8)
  | identifier (text : List UInt8)
  deriving DecidableEq, Repr

/-- Sorts a token by its first and last bytes. -/
def Item.ofToken (token : List UInt8) : Item :=
  let first := token.head?
  let last := token.getLast?
  let quote := some (Ascii.byte '"')
  if 2 ≤ token.length ∧ first = quote ∧ last = quote then .string (token.drop 1).dropLast
  else if last = some (Ascii.byte '=') then .name token.dropLast
  else if token = [Ascii.byte '@'] then .count
  else if first = some (Ascii.byte '~') then .real (token.drop 1)
  else if first.any Ascii.isDigit || first == some (Ascii.byte '-') then .integer token
  else .identifier token

/-- The value of an item, and the builder after it. -/
def Item.build (builder : Builder) : Item → Outcome Error (Value × Builder)
  | string body => do let value ← builder.string body; return (value, builder)
  | name bytes => do
    let value ← builder.leaf (.ofName (Lossy.text bytes))
    return (value, builder)
  | count =>
    let builder := builder.advance []
    .ok (builder.lastToken, builder)
  | real text => do let value ← builder.real text; return (value, builder)
  | integer text => do let value ← builder.integer text; return (value, builder)
  | identifier text => do let value ← builder.identifier text; return (value, builder)

/-! ## 3. Programs -/

/-- The values of the tokens of a line. -/
def items (builder : Builder) : List (List UInt8) → Outcome Error (List Value × Builder)
  | [] => .ok ([], builder)
  | token :: rest => do
    let builder := builder.advance token
    if token.all Ascii.isBlank then items builder rest
    else
      let (value, builder) ← (Item.ofToken token).build builder
      let (values, builder) ← items builder rest
      return (value :: values, builder)

/-- The statement on a line, if it has items. -/
def statement (builder : Builder) (line : List UInt8) : Outcome Error (List Value × Builder) := do
  let (values, builder) ← items builder (tokens line)
  if values.isEmpty then return ([], builder)
  else
    let branch ← builder.branch (.ofName "stmt") values
    let list ← builder.list [branch]
    return ([list], builder)

/-- The statements of several lines. -/
def statements (builder : Builder) : List (List UInt8) → Outcome Error (List Value × Builder)
  | [] => .ok ([], builder)
  | line :: rest =>
    match directive? line with
    | some directive => do
      let builder ← builder.reposition directive
      statements (builder.advance line) rest
    | none => do
      let (first, builder) ← statement builder line
      let (others, builder) ← statements builder rest
      return (first ++ others, builder)

/-- The tree of a source. -/
def parse (source : List UInt8) (builder : Builder) : Outcome Error (Value × Builder) := do
  let (values, builder) ← statements builder (lines source)
  let program ← builder.branch (.ofName "program") values
  return (program, builder)

end Statements
end SyntaxTree
