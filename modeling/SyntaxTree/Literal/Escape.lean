/-
# Escapes in text literals

A backslash and the byte after it may stand for something else, depending on how raw the
literal is.  Hexadecimal escapes name a code point, which is written in UTF-8.  What is no
escape is kept as it stands, backslash included, and so is a backslash at the very end.

`unescapeInPlace` works inside one buffer with a reading and a writing index.  No escape is
longer decoded than written, so the writing index never passes the reading one.  `unescape`
says the same from the unchanged text, left to right.
-/
import SyntaxTree.Bytes.Ascii
import SyntaxTree.Bytes.Hex
import SyntaxTree.Literal.Error
import SyntaxTree.Text.Utf8

namespace SyntaxTree

/-! ## 1. What a backslash means -/

/-- Which escapes a text literal honours. -/
inductive Rawness where
  /-- All of them. -/
  | cooked
  /-- Only an escaped quote. -/
  | raw
  /-- Only an escaped slash. -/
  | regex
  deriving DecidableEq, Repr

namespace Literal

/-- The meaning of the byte behind a backslash. -/
inductive Escape where
  /-- It stands for one byte. -/
  | byte (b : UInt8)
  /-- It is followed by that many digits of a code point. -/
  | hex (digits : Nat)
  /-- It is no escape. -/
  | verbatim
  deriving DecidableEq, Repr

/-- The meaning of a byte behind a backslash in a literal. -/
def Escape.ofByte (rawness : Rawness) (c : UInt8) : Escape :=
  if c = Ascii.byte '"' ∧ rawness ≠ .regex then .byte c
  else if c = Ascii.byte '/' ∧ rawness ≠ .raw then .byte c
  else if rawness ≠ .cooked then .verbatim
  else if c = Ascii.byte 'n' then .byte 0x0A
  else if c = Ascii.byte 'r' then .byte 0x0D
  else if c = Ascii.byte 't' then .byte 0x09
  else if c = Ascii.byte '\\' then .byte c
  else if c = Ascii.byte 'x' then .hex 2
  else if c = Ascii.byte 'u' then .hex 4
  else if c = Ascii.byte 'U' then .hex 8
  else .verbatim

/-- The number that hexadecimal digits spell, or the first byte that is none. -/
def hexNumber (digits : List UInt8) : Except LiteralError Nat :=
  digits.foldlM
    (fun total c =>
      match Hex.value? c with
      | some digit => .ok (total * 16 + digit)
      | none => .error (.badHexDigit c))
    0

/-- The bytes of the code point that hexadecimal digits spell. -/
def hexBytes (digits : List UInt8) : Except LiteralError (List UInt8) :=
  match hexNumber digits with
  | .error cause => .error cause
  | .ok codePoint =>
    match Utf8.encode codePoint with
    | some bytes => .ok bytes
    | none => .error (.badCodePoint codePoint)

/-! ## 2. In place -/

/-- One step of reading: the bytes read beyond the first, and what they stand for. -/
structure Piece where
  extra : Nat
  output : List UInt8

/-- The piece of a buffer that starts with the byte `c` at `read`. -/
def pieceAt (rawness : Rawness) (buffer : Array UInt8) (read : Nat) (c : UInt8) :
    Except LiteralError Piece :=
  if c ≠ Ascii.byte '\\' then .ok ⟨0, [c]⟩
  else
    match buffer[read + 1]? with
    | none => .ok ⟨0, [c]⟩
    | some next =>
      match Escape.ofByte rawness next with
      | .byte b => .ok ⟨1, [b]⟩
      | .verbatim => .ok ⟨1, [c, next]⟩
      | .hex count =>
        if buffer.size < read + 2 + count then .error (.truncatedEscape count)
        else
          match hexBytes (buffer.extract (read + 2) (read + 2 + count)).toList with
          | .ok bytes => .ok ⟨1 + count, bytes⟩
          | .error cause => .error cause

/-- Writes bytes into a buffer from an index on. -/
def writeAt (buffer : Array UInt8) : Nat → List UInt8 → Array UInt8
  | _, [] => buffer
  | index, b :: rest => writeAt (buffer.setIfInBounds index b) (index + 1) rest

@[simp] theorem size_writeAt (buffer : Array UInt8) (index : Nat) (bytes : List UInt8) :
    (writeAt buffer index bytes).size = buffer.size := by
  induction bytes generalizing buffer index with
  | nil => rfl
  | cons b rest ih => simp [writeAt, ih]

/-- Decodes the rest of a buffer from `read` on, writing from `write` on. -/
def unescapeFrom (rawness : Rawness) (buffer : Array UInt8) (read write : Nat) :
    Except LiteralError (Array UInt8 × Nat) :=
  if h : read < buffer.size then
    match pieceAt rawness buffer read buffer[read] with
    | .error cause => .error cause
    | .ok piece =>
      unescapeFrom rawness (writeAt buffer write piece.output) (read + 1 + piece.extra)
        (write + piece.output.length)
  else .ok (buffer, write)
termination_by buffer.size - read
decreasing_by
  rw [size_writeAt]
  omega

/-- Decodes the escapes of a buffer in place.  The result is the buffer and the number of
bytes at its start that are the decoded text. -/
def unescapeInPlace (rawness : Rawness) (buffer : Array UInt8) :
    Except LiteralError (Array UInt8 × Nat) :=
  unescapeFrom rawness buffer 0 0

/-- The text of a literal with its escapes decoded. -/
def decodeEscapes (rawness : Rawness) (text : List UInt8) : Except LiteralError (List UInt8) :=
  match unescapeInPlace rawness text.toArray with
  | .ok (buffer, length) => .ok (buffer.toList.take length)
  | .error cause => .error cause

/-! ## 3. Left to right -/

/-- The text of a literal with its escapes decoded, from left to right. -/
def unescape (rawness : Rawness) : List UInt8 → Except LiteralError (List UInt8)
  | [] => .ok []
  | c :: rest =>
    if c ≠ Ascii.byte '\\' then (unescape rawness rest).map (c :: ·)
    else
      match rest with
      | [] => .ok [c]
      | next :: tail =>
        match Escape.ofByte rawness next with
        | .byte b => (unescape rawness tail).map (b :: ·)
        | .verbatim => (unescape rawness tail).map (c :: next :: ·)
        | .hex count =>
          if tail.length < count then .error (.truncatedEscape count)
          else
            match hexBytes (tail.take count) with
            | .error cause => .error cause
            | .ok bytes => (unescape rawness (tail.drop count)).map (bytes ++ ·)
termination_by text => text.length
decreasing_by all_goals (simp only [List.length_cons, List.length_drop]; omega)

end Literal
end SyntaxTree
