/-
# Reading JSON text

A reader takes bytes off the front of a text and gives a value or a fault.  The value is read
as what it is expected to be: a whole number, a string, a choice of names.  A value of another
shape is read far enough to name it in the fault.

Values that nobody asked for are skipped without building them.  Skipping keeps a stack of
open brackets; each of its rounds takes at least one byte, so the length of the text is fuel
enough.
-/
import SyntaxTree.Bytes.Ascii
import SyntaxTree.Json.Fault
import SyntaxTree.Text.Lossy

namespace SyntaxTree
namespace Json

/-! ## 1. Input -/

/-- The bytes that are left, and how many have been read. -/
structure Input where
  rest : List UInt8
  index : Nat

/-- The input behind the next `count` bytes. -/
def Input.skip (input : Input) (count : Nat) : Input :=
  ⟨input.rest.drop count, input.index + count⟩

/-- Takes bytes off the input and gives a value or a fault. -/
abbrev Reader (α : Type) := StateT Input (Except Fault) α

namespace Reader

variable {α : Type}

/-- A fault behind the bytes read so far. -/
def failHere (reason : Reason) : Reader α := fun input => .error ⟨reason, input.index⟩

/-- A fault behind the next byte, if there is one. -/
def failNext (reason : Reason) : Reader α := fun input =>
  .error ⟨reason, if input.rest.isEmpty then input.index else input.index + 1⟩

/-- The next byte, which is not taken. -/
def peek : Reader (Option UInt8) := fun input => .ok (input.rest.head?, input)

/-- Takes the next byte. -/
def advance : Reader Unit := fun input => .ok ((), input.skip 1)

/-- Takes bytes as long as they satisfy a test. -/
def takeWhile (test : UInt8 → Bool) : Reader (List UInt8) := fun input =>
  let taken := input.rest.takeWhile test
  .ok (taken, input.skip taken.length)

/-- Whether a byte may stand between tokens. -/
def isBlank (b : UInt8) : Bool := b == 0x20 || b == 0x0A || b == 0x09 || b == 0x0D

/-- The first byte that is not a blank, which is not taken. -/
def peekToken : Reader (Option UInt8) := do
  let _ ← takeWhile isBlank
  peek

/-- Takes the next byte if it is the given character. -/
def accept (c : Char) : Reader Bool := do
  if (← peek) = some (Ascii.byte c) then
    advance
    return true
  else return false

/-! ## 2. Words and numbers -/

/-- Takes the given bytes, the rest of a word. -/
def word : List UInt8 → Reader Unit
  | [] => return ()
  | expected :: rest => do
    match ← peek with
    | none => failHere .eofInValue
    | some b =>
      advance
      if b = expected then word rest else failHere .expectedWord

/-- Takes a word that starts with the next byte. -/
def keyword (spelling : String) : Reader Unit := do
  advance
  word (Utf8.ofString spelling).tail

/-- A number as it is spelled. -/
structure Spelling where
  negative : Bool
  whole : List UInt8
  /-- The digits after the point, if there is one. -/
  fraction : Option (List UInt8)
  /-- The exponent, if there is one. -/
  exponent : Option Int

/-- The number that ASCII digits spell. -/
def digitsValue (digits : List UInt8) : Nat :=
  Decimal.value (digits.map fun b => Char.ofNat b.toNat)

/-- The digits in front of the point. -/
def wholeDigits (atEnd : Reason) : Reader (List UInt8) := do
  match ← peek with
  | none => failHere atEnd
  | some b =>
    if b = Ascii.byte '0' then
      advance
      if (← peek).any Ascii.isDigit then failNext .invalidNumber else return [b]
    else if Ascii.isDigit b then takeWhile Ascii.isDigit
    else
      advance
      failHere .invalidNumber

/-- The point and the digits behind it, if there is one. -/
def fractionDigits (atEnd : Reason) : Reader (Option (List UInt8)) := do
  if ← accept '.' then
    let digits ← takeWhile Ascii.isDigit
    if digits.isEmpty then
      match ← peek with
      | none => failNext atEnd
      | some _ => failNext .invalidNumber
    else return some digits
  else return none

/-- The exponent, if there is one. -/
def exponentValue (atEnd : Reason) : Reader (Option Int) := do
  if (← accept 'e') || (← accept 'E') then
    let negative ← accept '-'
    let _ ← if negative then pure false else accept '+'
    match ← peek with
    | none => failHere atEnd
    | some b =>
      if Ascii.isDigit b then
        let size : Int := digitsValue (← takeWhile Ascii.isDigit)
        return some (if negative then -size else size)
      else
        advance
        failHere .invalidNumber
  else return none

/-- A number.  A text that ends inside it is a fault of the given reason. -/
def spelling (atEnd : Reason) : Reader Spelling := do
  let negative ← accept '-'
  let whole ← wholeDigits atEnd
  let fraction ← fractionDigits atEnd
  let exponent ← exponentValue atEnd
  return ⟨negative, whole, fraction, exponent⟩

/-- The double that a number spells. -/
def Spelling.toBinary64 (s : Spelling) : Binary64 :=
  let places := s.fraction.getD []
  .ofDecimal s.negative (digitsValue (s.whole ++ places)) (s.exponent.getD 0 - places.length)

/-- A number without point and exponent, if it fits in 64 bits and is not a negative
zero. -/
def Spelling.toInt? (s : Spelling) : Option Int :=
  let size := digitsValue s.whole
  if s.fraction.isSome || s.exponent.isSome then none
  else if s.negative then
    if 0 < size ∧ 2 * size ≤ UInt64.size then some (-(size : Int)) else none
  else if size < UInt64.size then some size
  else none

/-- A number as a value: a whole number where it is one, else a double. -/
def number : Reader Unexpected := do
  let spelled ← spelling .eofInValue
  match spelled.toInt? with
  | some value => return .integer value
  | none =>
    let value := spelled.toBinary64
    if value.isInfinite then failHere .numberOutOfRange else return .float value

/-! ## 3. Strings -/

/-- The byte that a letter behind a backslash stands for. -/
def escapedByte? (b : UInt8) : Option UInt8 :=
  if b = Ascii.byte '"' ∨ b = Ascii.byte '\\' ∨ b = Ascii.byte '/' then some b
  else if b = Ascii.byte 'b' then some 0x08
  else if b = Ascii.byte 'f' then some 0x0C
  else if b = Ascii.byte 'n' then some 0x0A
  else if b = Ascii.byte 'r' then some 0x0D
  else if b = Ascii.byte 't' then some 0x09
  else none

/-- The unit that four hexadecimal digits spell. -/
def unit? (digits : List UInt8) : Option Nat :=
  digits.foldl
    (fun total c => total.bind fun n => (Hex.value? c).map fun digit => n * 16 + digit)
    (some 0)

/-- Takes four hexadecimal digits. -/
def hexUnit : Reader Nat := fun input =>
  if input.rest.length < 4 then .error ⟨.eofInString, input.index + input.rest.length⟩
  else
    match unit? (input.rest.take 4) with
    | some unit => .ok (unit, input.skip 4)
    | none => .error ⟨.invalidEscape, input.index + 4⟩

/-- Takes one expected byte of the second half of a surrogate pair. -/
def surrogateMark (c : Char) : Reader Unit := do
  match ← peek with
  | none => failHere .eofInString
  | some b =>
    advance
    if b = Ascii.byte c then return () else failHere .truncatedSurrogate

/-- The code point of an escape: one unit, or two units that are a surrogate pair. -/
def codePoint : Reader Nat := do
  let first ← hexUnit
  if 0xDC00 ≤ first ∧ first ≤ 0xDFFF then failHere .loneSurrogate
  else if 0xD800 ≤ first ∧ first ≤ 0xDBFF then
    surrogateMark '\\'
    surrogateMark 'u'
    let second ← hexUnit
    if 0xDC00 ≤ second ∧ second ≤ 0xDFFF then
      return 0x10000 + (first - 0xD800) * 0x400 + (second - 0xDC00)
    else failHere .loneSurrogate
  else return first

/-- The bytes that an escape behind its backslash stands for.  In a string that is only
skipped, surrogates need no partner. -/
def escape (skipping : Bool) : Reader (List UInt8) := do
  match ← peek with
  | none => failHere .eofInString
  | some b =>
    advance
    match escapedByte? b with
    | some byte => return [byte]
    | none =>
      if b = Ascii.byte 'u' then
        if skipping then
          let _ ← hexUnit
          return []
        else return (Utf8.encode (← codePoint)).getD []
      else failHere .invalidEscape

/-- The pieces of a string up to its closing quote, last one first.  Each round takes at
least one byte. -/
def stringPieces (skipping : Bool) : Nat → List (List UInt8) → Reader (List (List UInt8))
  | 0, _ => failHere .eofInString
  | fuel + 1, pieces => do
    let plain ← takeWhile fun b => b != Ascii.byte '"' && b != Ascii.byte '\\' && 0x20 ≤ b
    match ← peek with
    | none => failHere .eofInString
    | some b =>
      advance
      if b = Ascii.byte '"' then return plain :: pieces
      else if b = Ascii.byte '\\' then
        let bytes ← escape skipping
        stringPieces skipping fuel (bytes :: plain :: pieces)
      else failHere .controlInString

/-- The bytes of a string behind its opening quote. -/
def stringBytes (skipping : Bool) : Reader (List UInt8) := do
  let pieces ← stringPieces skipping ((← get).rest.length + 1) []
  return pieces.reverse.flatten

/-- A string that starts with the next byte. -/
def quotedText : Reader String := do
  advance
  return Lossy.text (← stringBytes false)

/-! ## 4. Expected shapes -/

/-- A fault for a value of another shape than the expected one. -/
def unexpected (expected : String) : Reader α := do
  let invalid (found : Unexpected) : Reader α := failHere (.invalidType found expected)
  match ← peek with
  | none => failNext .expectedValue
  | some b =>
    if b = Ascii.byte 'n' then
      keyword "null"
      invalid .null
    else if b = Ascii.byte 't' then
      keyword "true"
      invalid (.boolean true)
    else if b = Ascii.byte 'f' then
      keyword "false"
      invalid (.boolean false)
    else if b = Ascii.byte '-' ∨ Ascii.isDigit b then invalid (← number)
    else if b = Ascii.byte '"' then invalid (.text (← quotedText))
    else if b = Ascii.byte '[' then invalid .sequence
    else if b = Ascii.byte '\x7b' then invalid .map
    else failNext .expectedValue

/-- The first byte of a value, which is not taken. -/
def valueStart : Reader UInt8 := do
  match ← peekToken with
  | none => failNext .eofInValue
  | some b => return b

/-- A whole number below a limit. -/
def whole (limit : Nat) (label : String) : Reader Nat := do
  let b ← valueStart
  if b = Ascii.byte '-' ∨ Ascii.isDigit b then
    match ← number with
    | .integer value =>
      if 0 ≤ value ∧ value < limit then return value.toNat
      else failHere (.invalidValue (.integer value) label)
    | found => failHere (.invalidType found label)
  else unexpected label

/-- A string. -/
def text (label : String) : Reader String := do
  let b ← valueStart
  if b = Ascii.byte '"' then quotedText else unexpected label

/-- The colon between a key and its value. -/
def colon : Reader Unit := do
  match ← peekToken with
  | none => failNext .eofInObject
  | some b => if b = Ascii.byte ':' then advance else failNext .expectedColon

/-! ## 5. Skipping -/

/-- A kind of bracket. -/
inductive Bracket where
  | square
  | curly
  deriving DecidableEq, Repr

/-- The byte that closes a bracket. -/
def Bracket.closing : Bracket → UInt8
  | square => Ascii.byte ']'
  | curly => Ascii.byte '\x7d'

/-- The fault of a text that ends inside a bracket. -/
def Bracket.atEnd : Bracket → Reason
  | square => .eofInList
  | curly => .eofInObject

/-- The fault of a bracket that neither goes on nor ends. -/
def Bracket.unclosed : Bracket → Reason
  | square => .expectedListEnd
  | curly => .expectedObjectEnd

/-- Skips the key of an object and its colon. -/
def skipKey : Reader Unit := do
  match ← peekToken with
  | none => failNext .eofInObject
  | some b =>
    if b = Ascii.byte '"' then
      advance
      let _ ← stringBytes true
      colon
    else failNext .keyNotString

/-- Skips a value that is no bracket; says which bracket was opened otherwise. -/
def skipScalar : Reader (Option Bracket) := do
  let b ← valueStart
  if b = Ascii.byte 'n' then
    keyword "null"
    return none
  else if b = Ascii.byte 't' then
    keyword "true"
    return none
  else if b = Ascii.byte 'f' then
    keyword "false"
    return none
  else if b = Ascii.byte '-' ∨ Ascii.isDigit b then
    let _ ← spelling .invalidNumber
    return none
  else if b = Ascii.byte '"' then
    advance
    let _ ← stringBytes true
    return none
  else if b = Ascii.byte '[' then
    advance
    return some .square
  else if b = Ascii.byte '\x7b' then
    advance
    return some .curly
  else failNext .expectedValue

/-- What comes next while skipping. -/
inductive Awaited where
  /-- A value. -/
  | value
  /-- The first element of a bracket, or its end. -/
  | first
  /-- A comma, or the end of a bracket. -/
  | next
  deriving DecidableEq, Repr

/-- Skips up to the end of the outermost open bracket. -/
def skipOpen : Nat → Awaited → List Bracket → Reader Unit
  | 0, _, _ => failHere .eofInValue
  | fuel + 1, .value, brackets => do
    match ← skipScalar with
    | some bracket => skipOpen fuel .first (bracket :: brackets)
    | none => skipOpen fuel .next brackets
  | _ + 1, _, [] => return ()
  | fuel + 1, awaited, bracket :: outer => do
    match ← peekToken with
    | none => failNext bracket.atEnd
    | some b =>
      if b = bracket.closing then
        advance
        skipOpen fuel .next outer
      else if awaited = .next ∧ b ≠ Ascii.byte ',' then failNext bracket.unclosed
      else
        if awaited = .next then advance
        if bracket = .curly then skipKey
        skipOpen fuel .value (bracket :: outer)

/-- Skips a value. -/
def skipValue : Reader Unit := do
  skipOpen (2 * (← get).rest.length + 2) .value []

/-! ## 6. Whole texts -/

/-- Nothing but blanks is left. -/
def finish : Reader Unit := do
  match ← peekToken with
  | none => return ()
  | some _ => failNext .trailingCharacters

/-- Reads a whole text. -/
def run (reader : Reader α) (text : List UInt8) : Except Fault α :=
  let whole : Reader α := do
    let value ← reader
    finish
    return value
  match whole ⟨text, 0⟩ with
  | .ok (value, _) => .ok value
  | .error fault => .error fault

end Reader
end Json
end SyntaxTree
