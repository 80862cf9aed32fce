/-
# JSON text

A JSON value and its two spellings: `compact` on one line without blanks, and `pretty` with
one element on each line, two spaces deeper than its container.
-/
import SyntaxTree.Bytes.Hex
import SyntaxTree.Decimal.Layout

namespace SyntaxTree

/-- A JSON value.  Numbers are kept as they are spelled. -/
inductive Json where
  | null
  | number (spelling : String)
  | string (value : String)
  | array (items : List Json)
  | object (fields : List (String × Json))

namespace Json

/-- A whole number. -/
def nat (n : Nat) : Json := number (Decimal.text n)

/-- Doubles are positional from 0.00001 up to 10^16, exponents have a sign, a tie goes to
the even digit, and what is no number is null. -/
def floats : FloatLayout where
  positionalFrom := -5
  positionalBelow := 16
  plusSign := true
  tie := .toEven
  nan := "null"
  infinity := "null"
  negativeInfinity := "null"

/-! ## 1. Strings -/

/-- One character of a string.  Only quotes, backslashes and controls are escaped. -/
def escaped (c : Char) : List Char :=
  match c with
  | '"' => ['\\', '"']
  | '\\' => ['\\', '\\']
  | '\n' => ['\\', 'n']
  | '\r' => ['\\', 'r']
  | '\t' => ['\\', 't']
  | '\x08' => ['\\', 'b']
  | '\x0c' => ['\\', 'f']
  | _ =>
    if c.toNat < 0x20 then
      ['\\', 'u', '0', '0', Hex.digit (c.toNat / 16), Hex.digit (c.toNat % 16)]
    else [c]

/-- A string in quotes. -/
def quote (s : String) : String :=
  String.ofList ('"' :: s.toList.flatMap escaped ++ ['"'])

/-! ## 2. On one line -/

mutual

/-- The value without blanks. -/
def compact : Json → String
  | null => "null"
  | number spelling => spelling
  | string value => quote value
  | array items => "[" ++ compactItems items ++ "]"
  | object fields => "\x7b" ++ compactFields fields ++ "\x7d"

/-- Items with commas between them. -/
def compactItems : List Json → String
  | [] => ""
  | [item] => compact item
  | item :: rest => compact item ++ "," ++ compactItems rest

/-- Fields with commas between them. -/
def compactFields : List (String × Json) → String
  | [] => ""
  | [(key, value)] => quote key ++ ":" ++ compact value
  | (key, value) :: rest => quote key ++ ":" ++ compact value ++ "," ++ compactFields rest

end

/-! ## 3. On many lines -/

/-- The blanks in front of a line. -/
def indent (level : Nat) : String := String.ofList (List.replicate (2 * level) ' ')

mutual

/-- The value with its elements on lines of their own, for a value at a level. -/
def prettyAt (level : Nat) : Json → String
  | null => "null"
  | number spelling => spelling
  | string value => quote value
  | array [] => "[]"
  | array items => "[\n" ++ prettyItems (level + 1) items ++ "\n" ++ indent level ++ "]"
  | object [] => "\x7b\x7d"
  | object fields =>
    "\x7b\n" ++ prettyFields (level + 1) fields ++ "\n" ++ indent level ++ "\x7d"

/-- Items on lines of their own. -/
def prettyItems (level : Nat) : List Json → String
  | [] => ""
  | [item] => indent level ++ prettyAt level item
  | item :: rest => indent level ++ prettyAt level item ++ ",\n" ++ prettyItems level rest

/-- Fields on lines of their own. -/
def prettyFields (level : Nat) : List (String × Json) → String
  | [] => ""
  | [(key, value)] => indent level ++ quote key ++ ": " ++ prettyAt level value
  | (key, value) :: rest =>
    indent level ++ quote key ++ ": " ++ prettyAt level value ++ ",\n"
      ++ prettyFields level rest

end

/-- The value on many lines. -/
def pretty (json : Json) : String := prettyAt 0 json

end Json
end SyntaxTree
