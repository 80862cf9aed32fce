/-
# Every spelling of a text is read as the text

A string literal may write a character as itself, as its short escape or by the digits of its
code point, and each character of a text may be written in another of these ways (`Spells`,
`SpelledAs`).  However a text is spelled, the literal decodes to its bytes, and the node of the
literal is read back as the text (`decode_spelled_string`).

A character is spelled by a piece, and decoding reads the piece whole, whatever follows
(`unescape_spells`); a text is then an induction over its characters.  Two facts carry the step.
The bytes of a character other than the backslash hold no backslash
(`ne_byte_of_mem_ofChar`), so a plain character is copied.  The digits of a code point are
read as the code point (`hexBytes_hexDigits`), in upper case, in lower case or in both.

A literal is a piece of a buffer, and no buffer has `2 ^ 63` bytes or more.  Decoding makes a
text no longer, so its node has a size that its header can say.
-/
import Mathlib.Data.List.Forall2
import SyntaxTree.Proofs.EscapeInPlace
import SyntaxTree.Proofs.RoundTrip

namespace SyntaxTree

/-! ## 1. The bytes of characters -/

namespace Utf8

/-- ASCII characters are bytes. -/
theorem ofChars_ascii {cs : List Char} (h : ∀ c ∈ cs, c.toNat < 0x80) :
    ofChars cs = cs.map Ascii.byte := by
  induction cs with
  | nil => rfl
  | cons c rest ih =>
    rw [List.forall_mem_cons] at h
    rw [ofChars, List.flatMap_cons, ofChar_one h.1, List.map_cons]
    exact congrArg _ (ih h.2)

theorem encode_toNat (c : Char) : encode c.toNat = some (ofChar c) := by
  cases h : encode c.toNat with
  | some bytes =>
    rw [ofChar, h]
    rfl
  | none =>
    have hvalid := Lossy.toNat_char_valid c
    rw [encode, Option.map_eq_none_iff, encodedLength] at h
    grind

/-- All bytes of a longer sequence have their highest bit set. -/
theorem le_toNat_of_mem_ofChar {c : Char} (h : 0x80 ≤ c.toNat) :
    ∀ b ∈ ofChar c, 0x80 ≤ b.toNat := by
  have hbyte {n : Nat} (hlow : 0x80 ≤ n) (hhigh : n < 256) : 0x80 ≤ (UInt8.ofNat n).toNat := by
    rw [UInt8.toNat_ofNat']
    omega
  have hvalid := Lossy.toNat_char_valid c
  by_cases h2 : c.toNat < 0x800
  · rw [ofChar_two h h2]
    simp only [List.forall_mem_cons, List.not_mem_nil, false_implies, implies_true, and_true]
    exact ⟨hbyte (by omega) (by omega), hbyte (by omega) (by omega)⟩
  by_cases h3 : c.toNat < 0x10000
  · rw [ofChar_three (by omega) h3]
    simp only [List.forall_mem_cons, List.not_mem_nil, false_implies, implies_true, and_true]
    exact ⟨hbyte (by omega) (by omega), hbyte (by omega) (by omega), hbyte (by omega) (by omega)⟩
  · rw [ofChar_four (by omega) (by omega)]
    simp only [List.forall_mem_cons, List.not_mem_nil, false_implies, implies_true, and_true]
    exact ⟨hbyte (by omega) (by omega), hbyte (by omega) (by omega), hbyte (by omega) (by omega),
      hbyte (by omega) (by omega)⟩

/-- **No byte of a character is an ASCII character**, unless the character is the one. -/
theorem ne_byte_of_mem_ofChar {c ascii : Char} (hascii : ascii.toNat < 0x80) (h : c ≠ ascii) :
    ∀ b ∈ ofChar c, b ≠ Ascii.byte ascii := by
  rintro b hb rfl
  have hcode : (Ascii.byte ascii).toNat = ascii.toNat := by
    rw [Ascii.byte, UInt8.toNat_ofNat']
    omega
  by_cases h1 : c.toNat < 0x80
  · rw [ofChar_one h1, List.mem_singleton] at hb
    have hsame : c.toNat = ascii.toNat := by
      rw [hb, UInt8.toNat_ofNat'] at hcode
      omega
    exact h (by rw [← Char.ofNat_toNat c, hsame, Char.ofNat_toNat])
  · have hhigh := le_toNat_of_mem_ofChar (Nat.le_of_not_lt h1) _ hb
    rw [hcode] at hhigh
    omega

end Utf8

namespace Literal

/-! ## 2. Spellings -/

/-- The characters with a short escape, each with the letter that stands for it. -/
def shortEscapes : List (Char × Char) :=
  [('\n', 'n'), ('\r', 'r'), ('\t', 't'), ('\\', '\\'), ('"', '"'), ('/', '/')]

/-- The letters that digits of a code point follow, each with their number. -/
def hexEscapes : List (Char × Nat) := [('x', 2), ('u', 4), ('U', 8)]

/-- The digit of a value below sixteen in either case. -/
def hexDigit (upper : Bool) (n : Nat) : Char :=
  if upper then (Hex.digit n).toUpper else Hex.digit n

/-- The low digits of `n`, most significant first, one for each case given. -/
def hexDigits : List Bool → Nat → List Char
  | [], _ => []
  | upper :: uppers, n => hexDigit upper (n / 16 ^ uppers.length % 16) :: hexDigits uppers n

/-- The ways to write a character in a string literal. -/
inductive Spells : Char → List Char → Prop where
  | itself {c : Char} (h : c ≠ '\\') : Spells c [c]
  | short {c letter : Char} (h : (c, letter) ∈ shortEscapes) : Spells c ['\\', letter]
  | hex {c letter : Char} {uppers : List Bool} (hescape : (letter, uppers.length) ∈ hexEscapes)
      (hfits : c.toNat < 16 ^ uppers.length) :
      Spells c ('\\' :: letter :: hexDigits uppers c.toNat)

/-- `spelling` writes the characters of `s` in order, each in some way. -/
def SpelledAs (s spelling : String) : Prop :=
  ∃ pieces : List (List Char),
    List.Forall₂ Spells s.toList pieces ∧ spelling.toList = pieces.flatten

/-! ## 3. Digits -/

theorem value?_hexDigit (upper : Bool) {n : Nat} (h : n < 16) :
    Hex.value? (Ascii.byte (hexDigit upper n)) = some n := by
  have hall : ∀ upper : Bool, ∀ n : Fin 16,
      Hex.value? (Ascii.byte (hexDigit upper n.val)) = some n.val := by decide
  exact hall upper ⟨n, h⟩

theorem hexDigit_ascii (upper : Bool) {n : Nat} (h : n < 16) :
    (hexDigit upper n).toNat < 0x80 := by
  have hall : ∀ upper : Bool, ∀ n : Fin 16, (hexDigit upper n.val).toNat < 0x80 := by decide
  exact hall upper ⟨n, h⟩

@[simp] theorem length_hexDigits (uppers : List Bool) (n : Nat) :
    (hexDigits uppers n).length = uppers.length := by
  induction uppers with
  | nil => rfl
  | cons upper uppers ih => rw [hexDigits, List.length_cons, ih, List.length_cons]

theorem hexDigits_ascii (uppers : List Bool) (n : Nat) :
    ∀ c ∈ hexDigits uppers n, c.toNat < 0x80 := by
  induction uppers with
  | nil => exact List.forall_mem_nil _
  | cons upper uppers ih =>
    rw [hexDigits, List.forall_mem_cons]
    exact ⟨hexDigit_ascii upper (Nat.mod_lt _ (by decide)), ih⟩

/-- Reading digits of `n` puts their value behind the number read before. -/
theorem hexFrom_hexDigits (uppers : List Bool) (n total : Nat) :
    hexFrom total ((hexDigits uppers n).map Ascii.byte)
      = .ok (total * 16 ^ uppers.length + n % 16 ^ uppers.length) := by
  induction uppers generalizing total with
  | nil =>
    rw [List.length_nil, Nat.pow_zero, Nat.mul_one, Nat.mod_one]
    rfl
  | cons upper uppers ih =>
    rw [hexDigits, List.map_cons,
      hexFrom_cons total (value?_hexDigit upper (Nat.mod_lt _ (by decide))), ih,
      List.length_cons, Nat.mod_pow_succ, Nat.pow_succ]
    congr 1
    rw [Nat.add_mul, Nat.mul_assoc, Nat.mul_comm 16, Nat.mul_comm (_ % 16), Nat.add_assoc,
      Nat.add_comm (n % _)]

/-- **The digits of a code point spell the bytes of its character.** -/
theorem hexBytes_hexDigits {c : Char} {uppers : List Bool} (h : c.toNat < 16 ^ uppers.length) :
    hexBytes ((hexDigits uppers c.toNat).map Ascii.byte) = .ok (Utf8.ofChar c) := by
  have hnumber : hexNumber ((hexDigits uppers c.toNat).map Ascii.byte) = .ok c.toNat := by
    refine (hexFrom_hexDigits uppers c.toNat 0).trans ?_
    rw [Nat.zero_mul, Nat.zero_add, Nat.mod_eq_of_lt h]
  rw [hexBytes, hnumber]
  simp only [Utf8.encode_toNat]

/-! ## 4. Decoding a spelling -/

/-- Bytes without a backslash are copied. -/
theorem unescape_append {bytes : List UInt8} (h : ∀ b ∈ bytes, b ≠ Ascii.byte '\\')
    (rawness : Rawness) (rest : List UInt8) :
    unescape rawness (bytes ++ rest) = (unescape rawness rest).map (bytes ++ ·) := by
  induction bytes with
  | nil =>
    rw [List.nil_append]
    cases unescape rawness rest <;> rfl
  | cons b bytes ih =>
    rw [List.forall_mem_cons] at h
    rw [List.cons_append, unescape_of_headPiece (headPiece_of_ne h.1 rawness _), List.drop_zero,
      ih h.2]
    cases unescape rawness rest <;> rfl

/-- What short escapes stand for. -/
theorem ofByte_short {c letter : Char} (h : (c, letter) ∈ shortEscapes) :
    Escape.ofByte .cooked (Ascii.byte letter) = .byte (Ascii.byte c)
      ∧ c.toNat < 0x80 ∧ letter.toNat < 0x80 := by
  have hall : ∀ escape ∈ shortEscapes,
      Escape.ofByte .cooked (Ascii.byte escape.2) = .byte (Ascii.byte escape.1)
        ∧ escape.1.toNat < 0x80 ∧ escape.2.toNat < 0x80 := by decide
  exact hall _ h

/-- What the letters of code points ask for. -/
theorem ofByte_hex {letter : Char} {count : Nat} (h : (letter, count) ∈ hexEscapes) :
    Escape.ofByte .cooked (Ascii.byte letter) = .hex count ∧ letter.toNat < 0x80 := by
  have hall : ∀ escape ∈ hexEscapes,
      Escape.ofByte .cooked (Ascii.byte escape.1) = .hex escape.2 ∧ escape.1.toNat < 0x80 := by
    decide
  exact hall _ h

/-- **Decoding reads the spelling of a character as the character**, whatever follows. -/
theorem unescape_spells {c : Char} {piece : List Char} (h : Spells c piece) (rest : List UInt8) :
    unescape .cooked (Utf8.ofChars piece ++ rest)
      = (unescape .cooked rest).map (Utf8.ofChar c ++ ·) := by
  cases h with
  | itself hc =>
    rw [Utf8.ofChars, List.flatMap_singleton]
    exact unescape_append (Utf8.ne_byte_of_mem_ofChar (by decide) hc) .cooked rest
  | @short letter hshort =>
    obtain ⟨hescape, hc, hletter⟩ := ofByte_short hshort
    have hbytes : Utf8.ofChars ['\\', letter] = [Ascii.byte '\\', Ascii.byte letter] :=
      Utf8.ofChars_ascii (List.forall_mem_cons.2 ⟨by decide, List.forall_mem_singleton.2 hletter⟩)
    rw [hbytes, Utf8.ofChar_one hc]
    exact unescape_of_headPiece (headPiece_byte hescape rest)
  | @hex letter uppers hhex hfits =>
    obtain ⟨hescape, hletter⟩ := ofByte_hex hhex
    have hdigits : uppers.length = ((hexDigits uppers c.toNat).map Ascii.byte).length := by
      rw [List.length_map, length_hexDigits]
    have hbytes : Utf8.ofChars ('\\' :: letter :: hexDigits uppers c.toNat)
        = Ascii.byte '\\' :: Ascii.byte letter :: (hexDigits uppers c.toNat).map Ascii.byte :=
      Utf8.ofChars_ascii (List.forall_mem_cons.2 ⟨by decide,
        List.forall_mem_cons.2 ⟨hletter, hexDigits_ascii uppers c.toNat⟩⟩)
    rw [hdigits] at hescape
    have hpiece := headPiece_hex hescape (hexBytes_hexDigits hfits) rest
    rw [hbytes, List.cons_append, List.cons_append, unescape_of_headPiece hpiece, Nat.add_comm 1,
      List.drop_succ_cons, List.drop_left]

theorem unescape_pieces {cs : List Char} {pieces : List (List Char)}
    (h : List.Forall₂ Spells cs pieces) :
    unescape .cooked (Utf8.ofChars pieces.flatten) = .ok (Utf8.ofChars cs) := by
  induction h with
  | nil => exact unescape.eq_1 .cooked
  | cons hspells _ ih =>
    rw [List.flatten_cons, Utf8.ofChars_append, unescape_spells hspells, ih]
    rfl

/-- **Decoding reads every spelling of a text as the text.** -/
theorem decodeEscapes_spelled {s spelling : String} (h : SpelledAs s spelling) :
    decodeEscapes .cooked (Utf8.ofString spelling) = .ok (Utf8.ofString s) := by
  obtain ⟨pieces, hpieces, hspelling⟩ := h
  rw [decodeEscapes_eq_unescape, Utf8.ofString, hspelling]
  exact unescape_pieces hpieces

end Literal

/-! ## 5. From a literal to a tree -/

/-- A text node is at most seven bytes longer than its header and its text. -/
theorem Outline.size_text_lt (stamp : Stamp) (bytes : List UInt8) :
    (Outline.literal stamp (.text bytes)).size < Header.width + bytes.length + 8 := by
  have h := alignUp_lt_add bytes.length
  rw [Outline.size, Content.payload]
  omega

/-- **A string literal is read back as the text it spells.**  Whatever the builder has done
before and however the text is spelled, the literal makes a node, and reading the bytes of the
node gives the text, uses all of them and gives no notice. -/
theorem decode_spelled_string (builder : Builder) {s spelling : String}
    (hspelled : Literal.SpelledAs s spelling)
    (hlast : s.toList.getLast? ≠ some (Char.ofNat 0))
    (hlength : (Utf8.ofString spelling).length < 2 ^ 63) :
    ∃ node : Node, (builder.string (Utf8.ofString spelling)).result = .ok (.node node)
      ∧ Tree.decode node.bytes = .ok (.scalar node.header (.text s), node.size) := by
  have hdecoded := Literal.decodeEscapes_spelled hspelled
  let outline : Outline :=
    .literal (builder.stamp (.ofName "#str") builder.tracker.previousPosition)
      (.text (Utf8.ofString s))
  have hvalue : (builder.string (Utf8.ofString spelling)).value? = some (.node outline.node) := by
    rw [Builder.string, Builder.value?_escapedText, UsualLiteral.unescaped?, hdecoded]
    rfl
  have hfits : outline.node.Fits := by
    have hsize : outline.size < Header.width + (Utf8.ofString s).length + 8 :=
      Outline.size_text_lt _ _
    have hshorter : (Utf8.ofString s).length ≤ (Utf8.ofString spelling).length := by
      rw [Literal.decodeEscapes_eq_unescape] at hdecoded
      exact Literal.length_le_of_unescape hdecoded
    have hwidth : Header.width = 32 := rfl
    have hmax : UInt64.size = 2 ^ 64 := rfl
    rw [Node.Fits, Outline.size_node]
    omega
  have htree : outline.tree = .scalar outline.node.header (.text s) := by
    rw [Outline.header_node, ← Content.scalar_text_ofString hlast]
    rfl
  exact ⟨outline.node, Outcome.value?_eq_some.1 hvalue, htree ▸ Outline.decode_bytes hfits⟩

/-- A text of characters of one to four bytes. -/
def mixedText : String := "A\nêé//😀"

/-- The text with each way to write a character, and digits in both cases. -/
def mixedSpelling : String := "\\x41\\n\\u00eAé/\\/\\U0001f600"

theorem spelledAs_mixed : Literal.SpelledAs mixedText mixedSpelling :=
  ⟨_, .cons (@Literal.Spells.hex 'A' 'x' [false, false] (by decide) (by decide))
    (.cons (@Literal.Spells.short '\n' 'n' (by decide))
    (.cons (@Literal.Spells.hex 'ê' 'u' [false, false, false, true] (by decide) (by decide))
    (.cons (@Literal.Spells.itself 'é' (by decide))
    (.cons (@Literal.Spells.itself '/' (by decide))
    (.cons (@Literal.Spells.short '/' '/' (by decide))
    (.cons (@Literal.Spells.hex '😀' 'U' (List.replicate 8 false) (by decide) (by decide))
      .nil)))))), by decide⟩

theorem decode_spelled_mixedText :
    Literal.SpelledAs mixedText mixedSpelling
      ∧ mixedText.toList.getLast? ≠ some (Char.ofNat 0)
      ∧ (Utf8.ofString mixedSpelling).length < 2 ^ 63
      ∧ ∃ node : Node,
          ((Builder.ofSettings .standard).string (Utf8.ofString mixedSpelling)).result
              = .ok (.node node)
            ∧ Tree.decode node.bytes = .ok (.scalar node.header (.text mixedText), node.size) := by
  have hlast : mixedText.toList.getLast? ≠ some (Char.ofNat 0) := by decide
  have hlength : (Utf8.ofString mixedSpelling).length < 2 ^ 63 := by decide
  exact ⟨spelledAs_mixed, hlast, hlength,
    decode_spelled_string (.ofSettings .standard) spelledAs_mixed hlast hlength⟩

end SyntaxTree
