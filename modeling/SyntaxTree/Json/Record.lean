/-
# Records and choices

A record is read from an object, whose keys may come in any order, or from an array in the
order of the fields.  Keys that are no field are skipped, and no field may come twice.  Fields
may be optional or not, all of them together.

A choice is read from the string of its name, or from an object with that name as its only
key and null as the value.
-/
import SyntaxTree.Json.Reader

namespace SyntaxTree
namespace Json

/-! ## 1. Fields -/

/-- What a field holds. -/
inductive Shape where
  /-- A whole number below a limit, with the words for it. -/
  | whole (limit : Nat) (label : String)
  | text
  deriving DecidableEq, Repr

/-- The value of a field. -/
inductive FieldValue where
  | whole (value : Nat)
  | text (value : String)
  deriving DecidableEq, Repr

/-- The number in a field. -/
def FieldValue.toNat : FieldValue → Nat
  | whole value => value
  | text _ => 0

/-- The string in a field. -/
def FieldValue.toText : FieldValue → String
  | whole _ => ""
  | text value => value

/-- The fields of a record. -/
structure RecordShape where
  /-- The words for the record. -/
  label : String
  fields : List (String × Shape)
  /-- Whether every field must be there. -/
  complete : Bool

/-- The values of the fields that were there, by name. -/
abbrev Record := List (String × FieldValue)

namespace Reader

/-- A value of a shape. -/
def ofShape : Shape → Reader FieldValue
  | .whole limit label => do return .whole (← whole limit label)
  | .text => do return .text (← text "a string")

/-! ## 2. Arrays -/

/-- Whether an array goes on, behind its opening bracket or behind an element. -/
def hasElement (isFirst : Bool) : Reader Bool := do
  match ← peekToken with
  | none => failNext .eofInList
  | some b =>
    if b = Ascii.byte ']' then return false
    else if isFirst then return true
    else if b = Ascii.byte ',' then
      advance
      match ← peekToken with
      | none => failNext .eofInValue
      | some b => if b = Ascii.byte ']' then failNext .trailingComma else return true
    else failNext .expectedListEnd

/-- The end of an array. -/
def endArray : Reader Unit := do
  match ← peekToken with
  | none => failNext .eofInList
  | some b =>
    if b = Ascii.byte ']' then advance
    else if b = Ascii.byte ',' then
      advance
      if (← peekToken) = some (Ascii.byte ']') then failNext .trailingComma
      else failNext .trailingCharacters
    else failNext .trailingCharacters

/-- The elements of an array, one for each field as far as they go. -/
def elements (record : RecordShape) : List (String × Shape) → Nat → Reader Record
  | [], _ => return []
  | (name, shape) :: rest, index => do
    if ← hasElement (index == 0) then
      let value ← ofShape shape
      return (name, value) :: (← elements record rest (index + 1))
    else if record.complete then
      let words := record.label ++ " with " ++ Decimal.text record.fields.length ++ " elements"
      endArray
      failHere (.invalidLength index words)
    else return []

/-! ## 3. Objects -/

/-- Whether an object goes on, behind its opening bracket or behind a field. -/
def hasKey (isFirst : Bool) : Reader Bool := do
  match ← peekToken with
  | none => failNext .eofInObject
  | some b =>
    if b = Ascii.byte '\x7d' then return false
    else if isFirst then
      if b = Ascii.byte '"' then return true else failNext .keyNotString
    else if b = Ascii.byte ',' then
      advance
      match ← peekToken with
      | none => failNext .eofInValue
      | some b =>
        if b = Ascii.byte '"' then return true
        else if b = Ascii.byte '\x7d' then failNext .trailingComma
        else failNext .keyNotString
    else failNext .expectedObjectEnd

/-- The fields of an object up to its closing bracket, which is not taken.  Each round takes
at least one byte. -/
def members (record : RecordShape) : Nat → Bool → Record → Reader Record
  | 0, _, _ => failHere .eofInObject
  | fuel + 1, isFirst, found => do
    if ← hasKey isFirst then
      let key ← quotedText
      match record.fields.lookup key with
      | none =>
        colon
        skipValue
        members record fuel false found
      | some shape =>
        if (found.lookup key).isSome then failHere (.duplicateField key)
        else
          colon
          let value ← ofShape shape
          members record fuel false ((key, value) :: found)
    else return found

/-- The first field that is missing from a complete record. -/
def missing? (record : RecordShape) (found : Record) : Option String :=
  if record.complete then
    (record.fields.find? fun field => (found.lookup field.1).isNone).map Prod.fst
  else none

/-- A record. -/
def ofRecord (record : RecordShape) : Reader Record := do
  let b ← valueStart
  if b = Ascii.byte '[' then
    advance
    let found ← elements record record.fields 0
    endArray
    return found
  else if b = Ascii.byte '\x7b' then
    advance
    let found ← members record ((← get).rest.length + 1) true []
    advance
    match missing? record found with
    | some name => failHere (.missingField name)
    | none => return found
  else unexpected record.label

/-! ## 4. Choices -/

/-- One of several names. -/
def variantName (names : List String) : Reader String := do
  let name ← text "variant identifier"
  if names.contains name then return name else failHere (.unknownVariant name names)

/-- A choice. -/
def variant (names : List String) : Reader String := do
  let b ← valueStart
  if b = Ascii.byte '"' then variantName names
  else if b = Ascii.byte '\x7b' then
    advance
    let name ← variantName names
    colon
    let b ← valueStart
    if b = Ascii.byte 'n' then keyword "null" else unexpected "unit"
    match ← peekToken with
    | none => failHere .eofInObject
    | some b =>
      if b = Ascii.byte '\x7d' then
        advance
        return name
      else failHere .expectedValue
  else failNext .expectedValue

end Reader
end Json
end SyntaxTree
