/-
# The cursor

The cursor says how much of the input has been read: bytes, lines, and characters on the
current line.  It moves one byte at a time, so its way through a text does not depend on how
the text is cut into tokens.

A line feed starts a new line and a carriage return goes back to the start of the line.  A
tab moves to the next tab stop.  Printable ASCII and every byte that starts a character of
several bytes move one column, and all other bytes move none.  Lines and columns stay at the
largest number once they reach it.
-/
import SyntaxTree.Position
import SyntaxTree.Text.Utf8

namespace SyntaxTree

/-! ## 1. Counting with a limit -/

/-- Adds to a number, staying at the largest one past the end. -/
def addCapped (n : UInt32) (amount : Nat) : UInt32 :=
  UInt32.ofNat (min (n.toNat + amount) 0xFFFFFFFF)

/-! ## 2. Moving -/

/-- How far the input has been read. -/
structure Cursor where
  /-- Bytes read. -/
  offset : Nat
  /-- The current line, from one. -/
  line : UInt32
  /-- Characters read on the current line. -/
  column : UInt32
  /-- The index of the current file. -/
  file : UInt32
  deriving DecidableEq, Repr

namespace Cursor

/-- The start of an unknown file. -/
def start : Cursor := ⟨0, 1, 0, Position.unknownNumber⟩

/-- The position of the character under the cursor. -/
def position (cursor : Cursor) : Position :=
  ⟨cursor.file, cursor.line, addCapped cursor.column 1⟩

/-- The column after one byte. -/
def columnAfter (tabWidth : Nat) (column : UInt32) (byte : UInt8) : UInt32 :=
  if byte = 0x0A ∨ byte = 0x0D then 0
  else if byte = 0x09 then addCapped column (tabWidth - column.toNat % tabWidth)
  else if (Utf8.ByteClass.ofByte byte).advancesColumn then addCapped column 1
  else column

/-- The cursor after one byte. -/
def step (tabWidth : Nat) (cursor : Cursor) (byte : UInt8) : Cursor where
  offset := cursor.offset + 1
  line := if byte = 0x0A then addCapped cursor.line 1 else cursor.line
  column := columnAfter tabWidth cursor.column byte
  file := cursor.file

/-- The cursor after a text. -/
def advance (tabWidth : Nat) (cursor : Cursor) (text : List UInt8) : Cursor :=
  text.foldl (step tabWidth) cursor

/-! ## 3. Texts -/

theorem advance_cons (tabWidth : Nat) (cursor : Cursor) (byte : UInt8) (rest : List UInt8) :
    cursor.advance tabWidth (byte :: rest) = (cursor.step tabWidth byte).advance tabWidth rest :=
  rfl

/-- A text may be read in two parts. -/
theorem advance_append (tabWidth : Nat) (cursor : Cursor) (text more : List UInt8) :
    cursor.advance tabWidth (text ++ more)
      = (cursor.advance tabWidth text).advance tabWidth more :=
  List.foldl_append

/-- A text is read within one file. -/
theorem file_advance (tabWidth : Nat) : ∀ (text : List UInt8) (cursor : Cursor),
    (cursor.advance tabWidth text).file = cursor.file
  | [], _ => rfl
  | byte :: rest, cursor => file_advance tabWidth rest (cursor.step tabWidth byte)

end Cursor
end SyntaxTree
