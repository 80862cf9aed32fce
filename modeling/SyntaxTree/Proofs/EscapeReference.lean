/-
# Decoding in place, against rules for decoding

`Literal.unescapeInPlace` reads and writes one buffer.  This file holds it against rules that know
neither buffers nor indices, and against what a loop over a buffer must never do
(`unescapeInPlace_refines`).

* `Decodes` has one rule for each thing a text can start with: a plain byte, a backslash at the
  very end, a letter that stands for one byte, one that digits follow, and one that means nothing;
  and one rule for each of the three faults.  The rules read the text from the left and only once.
  They allow exactly one answer for each text, that of the decoder on lists (`decodes_iff`), and
  without letters that digits follow there is no fault (`exists_of_decodes`).
* `Turn` is one turn of the loop and `Reaches` is any number of them.  No turn writes a byte that
  is yet to be read or lies outside the buffer, and what is yet to be read is as it was in the
  text (`Intact.overwrites`, `Reaches.intact`).
-/
import Mathlib.Logic.Relation
import SyntaxTree.Proofs.PositionalValue
import SyntaxTree.Proofs.Spelling

namespace SyntaxTree
namespace Literal

/-! ## 1. Rules for decoding -/

/-- The letters that stand for one byte behind a backslash, each behind the character of it. -/
def shortEscapesOf : Rawness → List (Char × Char)
  | .cooked => shortEscapes
  | .raw => [('"', '"')]
  | .regex => [('/', '/')]

/-- The letters that digits of a code point follow, each with their number. -/
def hexEscapesOf : Rawness → List (Char × Nat)
  | .cooked => hexEscapes
  | .raw => []
  | .regex => []

/-- The bytes that mean something behind a backslash. -/
def escapeBytes (rawness : Rawness) : List UInt8 :=
  (shortEscapesOf rawness).map (fun escape => Ascii.byte escape.2)
    ++ (hexEscapesOf rawness).map (fun escape => Ascii.byte escape.1)

/-- Bytes that are hexadecimal digits, with their values. -/
def HexValues (digits : List UInt8) (values : List Nat) : Prop :=
  List.Forall₂ (fun c value => Hex.value? c = some value) digits values

/-- What a text decodes to.  A result is passed on from the rest of the text, and a fault ends the
text it is found in. -/
inductive Decodes (rawness : Rawness) : List UInt8 → Except LiteralError (List UInt8) → Prop where
  | nil : Decodes rawness [] (.ok [])
  | plain {c : UInt8} {rest : List UInt8} {result : Except LiteralError (List UInt8)}
      (h : c ≠ Ascii.byte '\\') (hrest : Decodes rawness rest result) :
      Decodes rawness (c :: rest) (result.map (c :: ·))
  | lone : Decodes rawness [Ascii.byte '\\'] (.ok [Ascii.byte '\\'])
  | short {c letter : Char} {rest : List UInt8} {result : Except LiteralError (List UInt8)}
      (h : (c, letter) ∈ shortEscapesOf rawness) (hrest : Decodes rawness rest result) :
      Decodes rawness (Ascii.byte '\\' :: Ascii.byte letter :: rest)
        (result.map (Ascii.byte c :: ·))
  | unknown {next : UInt8} {rest : List UInt8} {result : Except LiteralError (List UInt8)}
      (h : next ∉ escapeBytes rawness) (hrest : Decodes rawness rest result) :
      Decodes rawness (Ascii.byte '\\' :: next :: rest)
        (result.map (Ascii.byte '\\' :: next :: ·))
  | hex {letter : Char} {digits rest bytes : List UInt8} {values : List Nat}
      {result : Except LiteralError (List UInt8)}
      (h : (letter, digits.length) ∈ hexEscapesOf rawness) (hvalues : HexValues digits values)
      (hbytes : Utf8.encode (denoted 16 values) = some bytes)
      (hrest : Decodes rawness rest result) :
      Decodes rawness (Ascii.byte '\\' :: Ascii.byte letter :: (digits ++ rest))
        (result.map (bytes ++ ·))
  | truncated {letter : Char} {count : Nat} {rest : List UInt8}
      (h : (letter, count) ∈ hexEscapesOf rawness) (hshort : rest.length < count) :
      Decodes rawness (Ascii.byte '\\' :: Ascii.byte letter :: rest)
        (.error (.truncatedEscape count))
  | badDigit {letter : Char} {count : Nat} {digits rest : List UInt8} {values : List Nat}
      {found : UInt8} (h : (letter, count) ∈ hexEscapesOf rawness)
      (hvalues : HexValues digits values) (hfound : Hex.value? found = none)
      (hfirst : digits.length < count) (hlong : count ≤ (digits ++ found :: rest).length) :
      Decodes rawness (Ascii.byte '\\' :: Ascii.byte letter :: (digits ++ found :: rest))
        (.error (.badHexDigit found))
  | tooLarge {letter : Char} {digits rest : List UInt8} {values : List Nat}
      (h : (letter, digits.length) ∈ hexEscapesOf rawness) (hvalues : HexValues digits values)
      (hlarge : 0x7FFFFFFF < denoted 16 values) :
      Decodes rawness (Ascii.byte '\\' :: Ascii.byte letter :: (digits ++ rest))
        (.error (.badCodePoint (denoted 16 values)))

/-! ## 2. Letters and digits -/

theorem ofByte_of_short {rawness : Rawness} {c letter : Char}
    (h : (c, letter) ∈ shortEscapesOf rawness) :
    Escape.ofByte rawness (Ascii.byte letter) = .byte (Ascii.byte c) := by
  have hall : ∀ rawness : Rawness, ∀ escape ∈ shortEscapesOf rawness,
      Escape.ofByte rawness (Ascii.byte escape.2) = .byte (Ascii.byte escape.1) := by
    intro rawness
    cases rawness <;> decide
  exact hall rawness _ h

theorem ofByte_of_hex {rawness : Rawness} {letter : Char} {count : Nat}
    (h : (letter, count) ∈ hexEscapesOf rawness) :
    Escape.ofByte rawness (Ascii.byte letter) = .hex count := by
  cases rawness with
  | cooked => exact (ofByte_hex h).1
  | raw => cases h
  | regex => cases h

theorem ofByte_of_not_mem {rawness : Rawness} {next : UInt8} (h : next ∉ escapeBytes rawness) :
    Escape.ofByte rawness next = .verbatim := by
  unfold Escape.ofByte
  cases rawness <;>
    simp_all [escapeBytes, shortEscapesOf, shortEscapes, hexEscapesOf, hexEscapes]

/-- **What a byte behind a backslash can be.** -/
theorem escape_cases (rawness : Rawness) (next : UInt8) :
    (∃ c letter : Char, (c, letter) ∈ shortEscapesOf rawness ∧ next = Ascii.byte letter)
      ∨ (∃ (letter : Char) (count : Nat), (letter, count) ∈ hexEscapesOf rawness
          ∧ next = Ascii.byte letter)
      ∨ next ∉ escapeBytes rawness := by
  by_cases hmem : next ∈ escapeBytes rawness
  · rcases List.mem_append.1 hmem with hshort | hhex
    · obtain ⟨⟨c, letter⟩, hescape, rfl⟩ := List.mem_map.1 hshort
      exact .inl ⟨c, letter, hescape, rfl⟩
    · obtain ⟨⟨letter, count⟩, hescape, rfl⟩ := List.mem_map.1 hhex
      exact .inr (.inl ⟨letter, count, hescape, rfl⟩)
  · exact .inr (.inr hmem)

/-- Digits are read as what they denote, behind what was read before. -/
theorem hexFrom_append {digits : List UInt8} {values : List Nat} (h : HexValues digits values)
    (total : Nat) (rest : List UInt8) :
    hexFrom total (digits ++ rest) = hexFrom (placed 16 total values) rest := by
  induction h generalizing total with
  | nil => rw [placed_nil, List.nil_append]
  | cons hvalue _ ih => rw [List.cons_append, hexFrom_cons total hvalue, ih, placed_cons]

theorem hexNumber_of_values {digits : List UInt8} {values : List Nat}
    (h : HexValues digits values) : hexNumber digits = .ok (denoted 16 values) := by
  have hread := hexFrom_append h 0 []
  rw [List.append_nil, placed_zero] at hread
  exact hread

theorem hexNumber_of_badDigit {digits : List UInt8} {values : List Nat} {found : UInt8}
    (h : HexValues digits values) (hfound : Hex.value? found = none) (rest : List UInt8) :
    hexNumber (digits ++ found :: rest) = .error (.badHexDigit found) := by
  refine (hexFrom_append h 0 (found :: rest)).trans ?_
  simp only [hexFrom, List.foldlM_cons, hfound]
  rfl

/-- Bytes are hexadecimal digits, or there is a first one that is none. -/
theorem hexValues_or_bad (bytes : List UInt8) :
    (∃ values : List Nat, HexValues bytes values)
      ∨ ∃ (digits : List UInt8) (values : List Nat) (found : UInt8) (rest : List UInt8),
          HexValues digits values ∧ Hex.value? found = none ∧ bytes = digits ++ found :: rest := by
  induction bytes with
  | nil => exact .inl ⟨[], .nil⟩
  | cons c bytes ih =>
    cases hvalue : Hex.value? c with
    | none => exact .inr ⟨[], [], c, bytes, .nil, hvalue, rfl⟩
    | some value =>
      obtain ⟨values, hvalues⟩ | ⟨digits, values, found, rest, hvalues, hfound, rfl⟩ := ih
      · exact .inl ⟨value :: values, .cons hvalue hvalues⟩
      · exact .inr ⟨c :: digits, value :: values, found, rest, .cons hvalue hvalues, hfound, rfl⟩

/-- Only code points of more than 31 bits have no encoding. -/
theorem encode_eq_none_iff {codePoint : Nat} :
    Utf8.encode codePoint = none ↔ 0x7FFFFFFF < codePoint := by
  rw [Utf8.encode, Option.map_eq_none_iff, Utf8.encodedLength]
  grind

/-! ## 3. The rules and the decoder on lists -/

theorem unescape_of_error {rawness : Rawness} {c : UInt8} {rest : List UInt8}
    {cause : LiteralError} (h : headPiece rawness c rest = .error cause) :
    unescape rawness (c :: rest) = .error cause := by
  rw [unescape_cons, h]
  rfl

theorem headPiece_verbatim {rawness : Rawness} {next : UInt8} (h : next ∉ escapeBytes rawness)
    (tail : List UInt8) :
    headPiece rawness (Ascii.byte '\\') (next :: tail) = .ok ⟨1, [Ascii.byte '\\', next]⟩ := by
  simp [headPiece, ofByte_of_not_mem h]

theorem headPiece_truncated {rawness : Rawness} {letter : Char} {count : Nat}
    {tail : List UInt8} (h : (letter, count) ∈ hexEscapesOf rawness)
    (hshort : tail.length < count) :
    headPiece rawness (Ascii.byte '\\') (Ascii.byte letter :: tail)
      = .error (.truncatedEscape count) := by
  simp [headPiece, ofByte_of_hex h, hshort]

/-- A fault in the digits is the fault of the piece. -/
theorem headPiece_fault {rawness : Rawness} {letter : Char} {count : Nat} {tail : List UInt8}
    {cause : LiteralError} (h : (letter, count) ∈ hexEscapesOf rawness)
    (hlong : count ≤ tail.length) (hfault : hexBytes (tail.take count) = .error cause) :
    headPiece rawness (Ascii.byte '\\') (Ascii.byte letter :: tail) = .error cause := by
  simp [headPiece, ofByte_of_hex h, Nat.not_lt.2 hlong, hfault]

/-- **The rules allow only what the decoder on lists gives.** -/
theorem unescape_of_decodes {rawness : Rawness} {text : List UInt8}
    {result : Except LiteralError (List UInt8)} (h : Decodes rawness text result) :
    unescape rawness text = result := by
  induction h with
  | nil => exact unescape.eq_1 rawness
  | plain hc _ ih =>
    rw [unescape_of_headPiece (headPiece_of_ne hc rawness _), List.drop_zero, ih]
    rfl
  | lone =>
    have hpiece : headPiece rawness (Ascii.byte '\\') [] = .ok ⟨0, [Ascii.byte '\\']⟩ := rfl
    rw [unescape_of_headPiece hpiece, List.drop_zero, unescape.eq_1]
    rfl
  | short hmem _ ih =>
    rw [unescape_of_headPiece (headPiece_byte (ofByte_of_short hmem) _), List.drop_succ_cons,
      List.drop_zero, ih]
    rfl
  | unknown hmem _ ih =>
    rw [unescape_of_headPiece (headPiece_verbatim hmem _), List.drop_succ_cons, List.drop_zero, ih]
    rfl
  | @hex letter digits rest bytes values result hmem hvalues hbytes _ ih =>
    have hread : hexBytes digits = .ok bytes := by
      rw [hexBytes, hexNumber_of_values hvalues]
      simp only [hbytes]
    rw [unescape_of_headPiece (headPiece_hex (ofByte_of_hex hmem) hread _), Nat.add_comm 1,
      List.drop_succ_cons, List.drop_left, ih]
  | truncated hmem hshort => exact unescape_of_error (headPiece_truncated hmem hshort)
  | @badDigit letter count digits rest values found hmem hvalues hfound hfirst hlong =>
    obtain ⟨more, hmore⟩ : ∃ more : List UInt8,
        (digits ++ found :: rest).take count = digits ++ found :: more := by
      obtain ⟨behind, rfl⟩ := Nat.exists_eq_add_of_lt hfirst
      refine ⟨rest.take behind, ?_⟩
      rw [Nat.add_assoc, List.take_length_add_append, List.take_succ_cons]
    refine unescape_of_error (headPiece_fault hmem hlong ?_)
    rw [hmore, hexBytes, hexNumber_of_badDigit hvalues hfound]
  | tooLarge hmem hvalues hlarge =>
    refine unescape_of_error (headPiece_fault hmem (by simp) ?_)
    rw [List.take_left, hexBytes, hexNumber_of_values hvalues]
    simp only [encode_eq_none_iff.2 hlarge]

/-- **The rules answer every text.** -/
theorem exists_decodes (rawness : Rawness) (text : List UInt8) :
    ∃ result : Except LiteralError (List UInt8), Decodes rawness text result := by
  match text with
  | [] => exact ⟨_, .nil⟩
  | c :: rest =>
    by_cases hc : c = Ascii.byte '\\'
    · subst hc
      match rest with
      | [] => exact ⟨_, .lone⟩
      | next :: tail =>
        obtain ⟨c, letter, hmem, rfl⟩ | ⟨letter, count, hmem, rfl⟩ | hmem :=
          escape_cases rawness next
        · obtain ⟨result, hrest⟩ := exists_decodes rawness tail
          exact ⟨_, .short hmem hrest⟩
        · by_cases hshort : tail.length < count
          · exact ⟨_, .truncated hmem hshort⟩
          · obtain ⟨digits, after, rfl, rfl⟩ : ∃ digits after : List UInt8,
                tail = digits ++ after ∧ digits.length = count :=
              ⟨tail.take count, tail.drop count, (List.take_append_drop count tail).symm,
                List.length_take_of_le (Nat.le_of_not_lt hshort)⟩
            obtain ⟨values, hvalues⟩ | ⟨good, values, found, more, hvalues, hfound, rfl⟩ :=
              hexValues_or_bad digits
            · cases hencode : Utf8.encode (denoted 16 values) with
              | none => exact ⟨_, .tooLarge hmem hvalues (encode_eq_none_iff.1 hencode)⟩
              | some bytes =>
                obtain ⟨result, hrest⟩ := exists_decodes rawness after
                exact ⟨_, .hex hmem hvalues hencode hrest⟩
            · refine ⟨.error (.badHexDigit found), ?_⟩
              rw [List.append_assoc, List.cons_append]
              exact .badDigit hmem hvalues hfound (by simp) (by simp)
        · obtain ⟨result, hrest⟩ := exists_decodes rawness tail
          exact ⟨_, .unknown hmem hrest⟩
    · obtain ⟨result, hrest⟩ := exists_decodes rawness rest
      exact ⟨_, .plain hc hrest⟩
termination_by text.length

/-- **The rules allow one answer, that of the decoder on lists.** -/
theorem decodes_iff {rawness : Rawness} {text : List UInt8}
    {result : Except LiteralError (List UInt8)} :
    Decodes rawness text result ↔ unescape rawness text = result := by
  refine ⟨unescape_of_decodes, ?_⟩
  rintro rfl
  obtain ⟨result, h⟩ := exists_decodes rawness text
  exact (unescape_of_decodes h).symm ▸ h

/-- **Where no letter asks for digits there is no fault.** -/
theorem exists_of_decodes {rawness : Rawness} {text : List UInt8}
    {result : Except LiteralError (List UInt8)} (hraw : rawness ≠ .cooked)
    (h : Decodes rawness text result) : ∃ out : List UInt8, result = .ok out := by
  have hnone : hexEscapesOf rawness = [] := by
    cases rawness with
    | cooked => exact absurd rfl hraw
    | raw => rfl
    | regex => rfl
  induction h with
  | nil => exact ⟨[], rfl⟩
  | plain _ _ ih | short _ _ ih | unknown _ _ ih =>
    obtain ⟨out, rfl⟩ := ih
    exact ⟨_, rfl⟩
  | lone => exact ⟨_, rfl⟩
  | hex hmem | truncated hmem | badDigit hmem | tooLarge hmem =>
    rw [hnone] at hmem
    cases hmem

/-! ## 4. Turns of the loop -/

/-- Where decoding in place stands: the buffer, and the indices to read from and to write to. -/
structure Moment where
  buffer : Array UInt8
  read : Nat
  write : Nat

/-- One turn of the loop: a piece is read, and its output is written. -/
inductive Turn (rawness : Rawness) : Moment → Moment → Prop where
  | piece {buffer : Array UInt8} {read : Nat} (write : Nat) {piece : Piece}
      (hread : read < buffer.size)
      (hpiece : pieceAt rawness buffer read buffer[read] = .ok piece) :
      Turn rawness ⟨buffer, read, write⟩
        ⟨writeAt buffer write piece.output, read + 1 + piece.extra, write + piece.output.length⟩

/-- Some number of turns after the start. -/
def Reaches (rawness : Rawness) (text : List UInt8) : Moment → Prop :=
  Relation.ReflTransGen (Turn rawness) ⟨text.toArray, 0, 0⟩

/-- Writing has not passed reading, reading has not passed the end, and what is yet to be read is
as it was. -/
structure Intact (text : List UInt8) (moment : Moment) : Prop where
  size_buffer : moment.buffer.size = text.length
  write_le_read : moment.write ≤ moment.read
  read_le_length : moment.read ≤ text.length
  ahead : moment.buffer.toList.drop moment.read = text.drop moment.read

/-- Going from one moment to another, only bytes that have been read are written, all of them lie
inside the buffer, and no other byte changes. -/
structure Overwrites (text : List UInt8) (moment next : Moment) : Prop where
  read_lt : moment.read < next.read
  write_le : moment.write ≤ next.write
  written : ∀ index : Nat, moment.write ≤ index → index < next.write →
    index < next.read ∧ index < text.length
  unchanged : ∀ index : Nat, index < moment.write ∨ next.write ≤ index →
    next.buffer[index]? = moment.buffer[index]?

theorem getElem?_writeAt {buffer : Array UInt8} {write index : Nat} {bytes : List UInt8}
    (h : index < write ∨ write + bytes.length ≤ index) :
    (writeAt buffer write bytes)[index]? = buffer[index]? := by
  induction bytes generalizing buffer write with
  | nil => rfl
  | cons b rest ih =>
    rw [List.length_cons] at h
    rw [writeAt, ih (by omega), Array.getElem?_setIfInBounds_ne (by omega)]

/-- How far a turn reads and writes. -/
theorem Turn.bounds {rawness : Rawness} {moment next : Moment} (h : Turn rawness moment next) :
    moment.read < next.read ∧ next.read ≤ moment.buffer.size ∧ moment.write ≤ next.write
      ∧ next.write + moment.read ≤ next.read + moment.write := by
  obtain ⟨write, hread, hpiece⟩ := h
  rw [pieceAt_eq_headPiece] at hpiece
  obtain ⟨houtput, hextra⟩ := bounds_of_headPiece hpiece
  rw [List.length_drop, Array.length_toList] at hextra
  simp only []
  omega

/-- **One turn leaves alone what is yet to be read.** -/
theorem Intact.turn {rawness : Rawness} {text : List UInt8} {moment next : Moment}
    (hintact : Intact text moment) (h : Turn rawness moment next) : Intact text next := by
  obtain ⟨-, hend, -, hlag⟩ := h.bounds
  obtain ⟨hsize, hwrite, -, hahead⟩ := hintact
  have hbehind : next.write ≤ next.read := by omega
  obtain ⟨write, hread, hpiece⟩ := h
  refine ⟨(size_writeAt _ _ _).trans hsize, hbehind, hsize ▸ hend, ?_⟩
  rw [drop_writeAt hbehind hend, Nat.add_assoc, ← List.drop_drop, hahead, List.drop_drop]

/-- **One turn writes only what has been read.** -/
theorem Intact.overwrites {rawness : Rawness} {text : List UInt8} {moment next : Moment}
    (hintact : Intact text moment) (h : Turn rawness moment next) :
    Overwrites text moment next := by
  obtain ⟨hforward, -, hwrites, -⟩ := h.bounds
  have hnext := hintact.turn h
  refine ⟨hforward, hwrites, ?_, ?_⟩
  · intro index _ hindex
    have hread := hnext.write_le_read
    have hlength := hnext.read_le_length
    omega
  · intro index hindex
    obtain ⟨write, hread, hpiece⟩ := h
    exact getElem?_writeAt hindex

/-- **At every moment of a run what is yet to be read is intact.** -/
theorem Reaches.intact {rawness : Rawness} {text : List UInt8} {moment : Moment}
    (h : Reaches rawness text moment) : Intact text moment := by
  induction h with
  | refl => exact ⟨List.size_toArray, Nat.le_refl 0, Nat.zero_le _, rfl⟩
  | tail _ hturn ih => exact ih.turn hturn

/-- A turn is what the loop does before it goes on. -/
theorem unescapeFrom_of_turn {rawness : Rawness} {moment next : Moment}
    (h : Turn rawness moment next) :
    unescapeFrom rawness moment.buffer moment.read moment.write
      = unescapeFrom rawness next.buffer next.read next.write := by
  obtain ⟨write, hread, hpiece⟩ := h
  rw [unescapeFrom, dif_pos hread, hpiece]

/-- Going on from any moment of a run gives the result of the run. -/
theorem unescapeFrom_of_reaches {rawness : Rawness} {text : List UInt8} {moment : Moment}
    (h : Reaches rawness text moment) :
    unescapeFrom rawness moment.buffer moment.read moment.write
      = unescapeInPlace rawness text.toArray := by
  induction h with
  | refl => rfl
  | tail _ hturn ih => rw [← unescapeFrom_of_turn hturn, ih]

/-- A run that succeeds ends at a moment with nothing left to read. -/
theorem exists_last {rawness : Rawness} {text : List UInt8} {moment : Moment}
    {buffer : Array UInt8} {length : Nat} (hreaches : Reaches rawness text moment)
    (h : unescapeFrom rawness moment.buffer moment.read moment.write = .ok (buffer, length)) :
    ∃ last : Moment, Reaches rawness text last ∧ last.buffer = buffer ∧ last.write = length
      ∧ last.read = text.length := by
  obtain ⟨start, read, write⟩ := moment
  simp only [] at h
  fun_induction unescapeFrom rawness start read write with
  | case1 start read write hread cause hpiece => cases h
  | case2 start read write hread piece hpiece ih =>
    exact ih (hreaches.tail (.piece write hread hpiece)) h
  | case3 start read write hread =>
    obtain ⟨hbuffer, hwrite⟩ := Prod.mk.inj (Except.ok.inj h)
    have hintact := hreaches.intact
    have hsize := hintact.size_buffer
    have hlength := hintact.read_le_length
    simp only [] at hsize hlength
    exact ⟨_, hreaches, hbuffer, hwrite, by simp only []; omega⟩

/-! ## 5. Decoding in place -/

/-- A decoded text lies inside the buffer. -/
theorem length_of_unescapeInPlace {rawness : Rawness} {text : List UInt8} {buffer : Array UInt8}
    {length : Nat} (h : unescapeInPlace rawness text.toArray = .ok (buffer, length)) :
    buffer.size = text.length ∧ length ≤ text.length := by
  obtain ⟨last, hlast, rfl, rfl, hread⟩ := exists_last .refl h
  have hintact := hlast.intact
  exact ⟨hintact.size_buffer, hread ▸ hintact.write_le_read⟩

/-- A decoded text is at the start of the buffer, as long as it is said to be. -/
theorem decodes_ok_iff {rawness : Rawness} {text out : List UInt8} :
    Decodes rawness text (.ok out)
      ↔ ∃ buffer : Array UInt8, unescapeInPlace rawness text.toArray = .ok (buffer, out.length)
        ∧ buffer.toList.take out.length = out := by
  rw [decodes_iff, ← map_decoded_unescapeInPlace]
  constructor
  · intro hout
    cases hrun : unescapeInPlace rawness text.toArray with
    | error cause =>
      rw [hrun] at hout
      cases hout
    | ok result =>
      obtain ⟨buffer, length⟩ := result
      obtain ⟨hsize, hlength⟩ := length_of_unescapeInPlace hrun
      rw [hrun] at hout
      obtain rfl := Except.ok.inj hout
      have hexact : (decoded (buffer, length)).length = length := by
        refine List.length_take_of_le ?_
        rw [Array.length_toList, hsize]
        exact hlength
      rw [hexact]
      exact ⟨buffer, rfl, rfl⟩
  · rintro ⟨buffer, hrun, hout⟩
    rw [hrun]
    exact congrArg Except.ok hout

theorem decodes_error_iff {rawness : Rawness} {text : List UInt8} {cause : LiteralError} :
    Decodes rawness text (.error cause)
      ↔ unescapeInPlace rawness text.toArray = .error cause := by
  rw [decodes_iff, ← map_decoded_unescapeInPlace]
  cases unescapeInPlace rawness text.toArray <;> simp [Except.map]

/-- **Decoding in place is decoding by the rules, and is safe.**  For every text and every kind of
literal:

* it ends in a text exactly if the rules give that text, which then stands at the start of the
  buffer and is as long as the number that is returned; and that is no more than the text it came
  from, whose length the buffer keeps;
* it ends in a fault exactly if the rules give that fault;
* at every moment of the run the bytes yet to be read are those of the text, and a turn from there
  writes only bytes that have been read and lie in the buffer;
* where only a quote or only a slash can be escaped, there is no fault. -/
theorem unescapeInPlace_refines (rawness : Rawness) (text : List UInt8) :
    (∀ out : List UInt8, Decodes rawness text (.ok out)
        ↔ ∃ buffer : Array UInt8, unescapeInPlace rawness text.toArray = .ok (buffer, out.length)
          ∧ buffer.toList.take out.length = out)
    ∧ (∀ (buffer : Array UInt8) (length : Nat),
        unescapeInPlace rawness text.toArray = .ok (buffer, length) →
          buffer.size = text.length ∧ length ≤ text.length)
    ∧ (∀ cause : LiteralError, Decodes rawness text (.error cause)
        ↔ unescapeInPlace rawness text.toArray = .error cause)
    ∧ (∀ moment : Moment, Reaches rawness text moment →
        unescapeFrom rawness moment.buffer moment.read moment.write
            = unescapeInPlace rawness text.toArray
          ∧ Intact text moment
          ∧ ∀ next : Moment, Turn rawness moment next → Overwrites text moment next)
    ∧ (rawness ≠ .cooked → ∃ (buffer : Array UInt8) (length : Nat),
        unescapeInPlace rawness text.toArray = .ok (buffer, length)) := by
  refine ⟨fun out => decodes_ok_iff, fun _ _ => length_of_unescapeInPlace,
    fun cause => decodes_error_iff, ?_, ?_⟩
  · intro moment hreaches
    have hintact := hreaches.intact
    exact ⟨unescapeFrom_of_reaches hreaches, hintact, fun next => hintact.overwrites⟩
  · intro hraw
    obtain ⟨result, hdecodes⟩ := exists_decodes rawness text
    obtain ⟨out, rfl⟩ := exists_of_decodes hraw hdecodes
    obtain ⟨buffer, hrun, -⟩ := decodes_ok_iff.1 hdecodes
    exact ⟨buffer, out.length, hrun⟩

/-- Two code points by their digits, of three bytes and of one. -/
def codePoints : List UInt8 := "\\u20ac\\x41".toList.map Ascii.byte

/-- The loop before the first of them. -/
def beforeFirst : Moment := ⟨codePoints.toArray, 0, 0⟩

/-- The loop after the first of them. -/
def afterFirst : Moment := ⟨writeAt codePoints.toArray 0 [0xE2, 0x82, 0xAC], 6, 3⟩

theorem decodes_codePoints : Decodes .cooked codePoints (.ok [0xE2, 0x82, 0xAC, 0x41]) :=
  @Decodes.hex .cooked 'u' [0x32, 0x30, 0x61, 0x63] _ [0xE2, 0x82, 0xAC] [2, 0, 10, 12] (.ok [0x41])
    (by decide) (.cons rfl (.cons rfl (.cons rfl (.cons rfl .nil)))) (by decide)
    (@Decodes.hex .cooked 'x' [0x34, 0x31] [] [0x41] [4, 1] (.ok [])
      (by decide) (.cons rfl (.cons rfl .nil)) (by decide) .nil)

theorem turn_first : Turn .cooked beforeFirst afterFirst :=
  @Turn.piece .cooked codePoints.toArray 0 0 ⟨5, [0xE2, 0x82, 0xAC]⟩ (by decide) rfl

theorem unescapeInPlace_refines_codePoints :
    (∃ buffer : Array UInt8, unescapeInPlace .cooked codePoints.toArray = .ok (buffer, 4)
        ∧ buffer.size = codePoints.length ∧ 4 ≤ codePoints.length
        ∧ buffer.toList.take 4 = [0xE2, 0x82, 0xAC, 0x41])
      ∧ Reaches .cooked codePoints beforeFirst ∧ Turn .cooked beforeFirst afterFirst
      ∧ Intact codePoints beforeFirst ∧ Overwrites codePoints beforeFirst afterFirst
      ∧ Rawness.raw ≠ .cooked
      ∧ ∃ (buffer : Array UInt8) (length : Nat),
          unescapeInPlace .raw codePoints.toArray = .ok (buffer, length) := by
  obtain ⟨hok, hlength, -, hmoments, -⟩ := unescapeInPlace_refines .cooked codePoints
  obtain ⟨-, -, -, -, hraw⟩ := unescapeInPlace_refines .raw codePoints
  obtain ⟨buffer, hrun, htake⟩ := (hok _).1 decodes_codePoints
  obtain ⟨hsize, hle⟩ := hlength _ _ hrun
  have hstart : Reaches .cooked codePoints beforeFirst := .refl
  obtain ⟨-, hintact, hturns⟩ := hmoments beforeFirst hstart
  exact ⟨⟨buffer, hrun, hsize, hle, htake⟩, hstart, turn_first, hintact,
    hturns afterFirst turn_first, by decide, hraw (by decide)⟩

end Literal
end SyntaxTree
