/-
# Line directives

A preprocessor says where the next line comes from: a line number, then possibly a file name
in double quotes, then possibly more numbers, which are flags without a meaning here.  All
are separated by blanks, and blanks may stand at both ends.

Numbers may be written in the decimal digits of any script, but a line number is only read
from ASCII digits and must fit in 32 bits.  In the file name a backslash keeps the character
after it, whatever it is except a line feed, from ending the name.
-/
import SyntaxTree.Decimal.Whole
import SyntaxTree.Literal.Escape
import SyntaxTree.Text.Blank
import SyntaxTree.Text.DecimalDigit
import SyntaxTree.Text.Lossy

namespace SyntaxTree

/-- A line number, and the text between the quotes if there are any. -/
structure LineDirective where
  line : UInt32
  quoted : Option (List Char)
  deriving DecidableEq, Repr

namespace LineDirective

/-! ## 1. Parts -/

/-- Reads up to the closing quote: the text before it, and what follows it. -/
def scanQuoted : List Char → Option (List Char × List Char)
  | [] => none
  | '"' :: rest => some ([], rest)
  | ['\\'] => none
  | '\\' :: c :: rest =>
    if c = '\n' then none
    else (scanQuoted rest).map fun (body, rest) => ('\\' :: c :: body, rest)
  | c :: rest => (scanQuoted rest).map fun (body, rest) => (c :: body, rest)

/-- What the reader of trailing numbers has just seen. -/
inductive Tail where
  /-- The end of the line number or of the file name. -/
  | closed
  /-- A blank. -/
  | blank
  /-- A digit of a trailing number. -/
  | number
  deriving DecidableEq, Repr

/-- Whether a text is a run of numbers, each after at least one blank, and then blanks. -/
def isTail : Tail → List Char → Bool
  | _, [] => true
  | seen, c :: rest =>
    if isBlank c then isTail .blank rest
    else if isDecimalDigit c && seen != .closed then isTail .number rest
    else false

/-- The line number that digits spell. -/
def lineNumber? (digits : List Char) : Option UInt32 :=
  if digits.all Decimal.isDigit && Decimal.value digits < UInt32.size then
    some (UInt32.ofNat (Decimal.value digits))
  else none

/-! ## 2. Whole directives -/

/-- The quoted text behind the line number, if there is one, and what follows.  Nothing is
returned if a quote is not closed. -/
def splitQuoted (cs : List Char) : Option (Option (List Char) × List Char) :=
  match cs with
  | [] => some (none, [])
  | first :: _ =>
    match isBlank first, dropBlanks cs with
    | true, '"' :: rest => (scanQuoted rest).map fun (body, rest) => (some body, rest)
    | _, _ => some (none, cs)

/-- Reads a directive. -/
def parse? (text : List Char) : Option LineDirective :=
  let rest := dropBlanks text
  let digits := rest.takeWhile isDecimalDigit
  if digits.isEmpty then none
  else
    match splitQuoted (rest.dropWhile isDecimalDigit) with
    | none => none
    | some (quoted, rest) =>
      if isTail .closed rest then
        (lineNumber? digits).map fun line => ⟨line, quoted⟩
      else none

/-- The file name that a quoted text stands for: only an escaped quote loses its
backslash. -/
def fileName (quoted : List Char) : Except LiteralError String :=
  (Literal.decodeEscapes .raw (Utf8.ofChars quoted)).map Lossy.text

end LineDirective
end SyntaxTree
