/-
# Faults in JSON text

What can be wrong with a JSON text that is read as a value of a known shape.  A text may end
too early, break the grammar, or be well formed and not of the shape.  Each fault is found at
a line and a column, both counted in the bytes read so far.
-/
import SyntaxTree.Json.Basic
import SyntaxTree.Text.Quoted

namespace SyntaxTree
namespace Json

/-! ## 1. Reasons -/

/-- The three classes of faults. -/
inductive Category where
  | eof
  | grammar
  | data
  deriving DecidableEq, Repr

/-- A well-formed value that is not of the expected shape. -/
inductive Unexpected where
  | null
  | boolean (value : Bool)
  | integer (value : Int)
  | float (value : Binary64)
  | text (value : String)
  | sequence
  | map
  deriving DecidableEq, Repr

/-- Why a text could not be read. -/
inductive Reason where
  | eofInList
  | eofInObject
  | eofInString
  | eofInValue
  | expectedColon
  | expectedListEnd
  | expectedObjectEnd
  | expectedWord
  | expectedValue
  | invalidEscape
  | invalidNumber
  | numberOutOfRange
  | controlInString
  | keyNotString
  | loneSurrogate
  | truncatedSurrogate
  | trailingComma
  | trailingCharacters
  | invalidType (found : Unexpected) (expected : String)
  | invalidValue (found : Unexpected) (expected : String)
  | invalidLength (length : Nat) (expected : String)
  | duplicateField (name : String)
  | missingField (name : String)
  | unknownVariant (name : String) (expected : List String)
  deriving DecidableEq, Repr

/-- The class of a reason. -/
def Reason.category : Reason → Category
  | eofInList => .eof
  | eofInObject => .eof
  | eofInString => .eof
  | eofInValue => .eof
  | invalidType _ _ => .data
  | invalidValue _ _ => .data
  | invalidLength _ _ => .data
  | duplicateField _ => .data
  | missingField _ => .data
  | unknownVariant _ _ => .data
  | _ => .grammar

/-! ## 2. Words -/

/-- A name in back quotes. -/
def inBackquotes (name : String) : String := "`" ++ name ++ "`"

/-- The words for an unexpected value. -/
def Unexpected.words : Unexpected → String
  | null => "null"
  | boolean value => "boolean " ++ inBackquotes (if value then "true" else "false")
  | integer value =>
    let digits := Decimal.text value.natAbs
    "integer " ++ inBackquotes (if value < 0 then "-" ++ digits else digits)
  | float value => "floating point " ++ inBackquotes (floats.text value)
  | text value => "string " ++ Quoted.ofString value
  | sequence => "sequence"
  | map => "map"

/-- The words for a choice of names. -/
def choice : List String → String
  | [] => "there are no variants"
  | [name] => "expected " ++ inBackquotes name
  | [first, second] => "expected " ++ inBackquotes first ++ " or " ++ inBackquotes second
  | names => "expected one of " ++ ", ".intercalate (names.map inBackquotes)

/-- The words for a reason. -/
def Reason.message : Reason → String
  | eofInList => "EOF while parsing a list"
  | eofInObject => "EOF while parsing an object"
  | eofInString => "EOF while parsing a string"
  | eofInValue => "EOF while parsing a value"
  | expectedColon => "expected `:`"
  | expectedListEnd => "expected `,` or `]`"
  | expectedObjectEnd => "expected `,` or `\x7d`"
  | expectedWord => "expected ident"
  | expectedValue => "expected value"
  | invalidEscape => "invalid escape"
  | invalidNumber => "invalid number"
  | numberOutOfRange => "number out of range"
  | controlInString => "control character (\\u0000-\\u001F) found while parsing a string"
  | keyNotString => "key must be a string"
  | loneSurrogate => "lone leading surrogate in hex escape"
  | truncatedSurrogate => "unexpected end of hex escape"
  | trailingComma => "trailing comma"
  | trailingCharacters => "trailing characters"
  | invalidType found expected => "invalid type: " ++ found.words ++ ", expected " ++ expected
  | invalidValue found expected => "invalid value: " ++ found.words ++ ", expected " ++ expected
  | invalidLength length expected =>
    "invalid length " ++ Decimal.text length ++ ", expected " ++ expected
  | duplicateField name => "duplicate field " ++ inBackquotes name
  | missingField name => "missing field " ++ inBackquotes name
  | unknownVariant name expected =>
    "unknown variant " ++ inBackquotes name ++ ", " ++ choice expected

/-! ## 3. Faults -/

/-- A reason, and how many bytes of the text lead up to it. -/
structure Fault where
  reason : Reason
  index : Nat
  deriving DecidableEq, Repr

/-- The line and column behind the first `index` bytes of a text. -/
def lineAndColumn (text : List UInt8) (index : Nat) : Nat × Nat :=
  let before := text.take index
  let column := (before.reverse.takeWhile (· != 0x0A)).length
  (before.count 0x0A + 1, column)

/-- The words for a fault in a text. -/
def Fault.message (fault : Fault) (text : List UInt8) : String :=
  let (line, column) := lineAndColumn text fault.index
  fault.reason.message ++ " at line " ++ Decimal.text line ++ " column " ++ Decimal.text column

end Json
end SyntaxTree
