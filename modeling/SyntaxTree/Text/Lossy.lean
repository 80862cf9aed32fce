/-
# Reading bytes as text

`Lossy.chars` reads any byte string as characters.  Well-formed UTF-8 reads as itself; each
maximal piece of an ill-formed sequence becomes one replacement character.  Surrogates,
overlong forms and values past U+10FFFF are ill-formed.

The reader is a machine with two kinds of state: between characters, and inside a sequence,
where it knows the range the next byte must lie in.  A byte outside that range ends the
sequence with a replacement character and is read again as the start of something new.
-/
import SyntaxTree.Text.Utf8

namespace SyntaxTree
namespace Lossy

/-! ## 1. The machine -/

/-- The character that stands for an ill-formed piece. -/
def replacement : Char := Char.ofNat 0xFFFD

/-- An unfinished sequence: the bits so far, how many bytes are still to come, and the
range of the next one. -/
structure Pending where
  bits : Nat
  missing : Nat
  low : UInt8
  high : UInt8
  deriving DecidableEq, Repr

/-- Between characters, or inside a sequence. -/
inductive State where
  | ready
  | inside (pending : Pending)
  deriving DecidableEq, Repr

/-- Reads a byte between characters: the characters it completes and the next state. -/
def start (byte : UInt8) : List Char × State :=
  if byte < 0x80 then ([Char.ofNat byte.toNat], .ready)
  else if byte < 0xC2 then ([replacement], .ready)
  else if byte < 0xE0 then ([], .inside ⟨byte.toNat - 0xC0, 1, 0x80, 0xBF⟩)
  else if byte = 0xE0 then ([], .inside ⟨0, 2, 0xA0, 0xBF⟩)
  else if byte = 0xED then ([], .inside ⟨0xD, 2, 0x80, 0x9F⟩)
  else if byte < 0xF0 then ([], .inside ⟨byte.toNat - 0xE0, 2, 0x80, 0xBF⟩)
  else if byte = 0xF0 then ([], .inside ⟨0, 3, 0x90, 0xBF⟩)
  else if byte < 0xF4 then ([], .inside ⟨byte.toNat - 0xF0, 3, 0x80, 0xBF⟩)
  else if byte = 0xF4 then ([], .inside ⟨4, 3, 0x80, 0x8F⟩)
  else ([replacement], .ready)

/-- Reads one byte in any state. -/
def step : State → UInt8 → List Char × State
  | .ready, byte => start byte
  | .inside p, byte =>
    if p.low ≤ byte ∧ byte ≤ p.high then
      let bits := p.bits * 64 + byte.toNat % 64
      if p.missing ≤ 1 then ([Char.ofNat bits], .ready)
      else ([], .inside ⟨bits, p.missing - 1, 0x80, 0xBF⟩)
    else (replacement :: (start byte).1, (start byte).2)

/-- Reads the rest of the bytes from a state.  A sequence cut off by the end is one
replacement character. -/
def run : State → List UInt8 → List Char
  | .ready, [] => []
  | .inside _, [] => [replacement]
  | state, byte :: rest => (step state byte).1 ++ run (step state byte).2 rest

/-! ## 2. Reading -/

/-- The characters of a byte string, ill-formed pieces replaced. -/
def chars (bytes : List UInt8) : List Char := run .ready bytes

/-- The text of a byte string, ill-formed pieces replaced. -/
def text (bytes : List UInt8) : String := String.ofList (chars bytes)

/-- The text of a byte string that is well-formed UTF-8.  Replacing an ill-formed piece
always changes the bytes, so writing the text back tells whether anything was replaced. -/
def text? (bytes : List UInt8) : Option String :=
  if Utf8.ofChars (chars bytes) = bytes then some (text bytes) else none

end Lossy
end SyntaxTree
