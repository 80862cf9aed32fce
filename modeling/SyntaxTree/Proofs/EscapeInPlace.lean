/-
# Decoding escapes in place

`Literal.unescapeInPlace` reads and writes one buffer.  What it writes can not disturb what it has
yet to read, because no escape is longer decoded than written, and so it is the decoder that reads
an unchanged text from left to right (`decodeEscapes_eq_unescape`).

Both decoders go by pieces, and a piece depends only on what is ahead (`headPiece`).  For the
decoder on lists this is its equation (`unescape_cons`).  For the one in place it is a lemma
(`pieceAt_eq_headPiece`), and the step is then about arrays alone: a piece of output is written
behind what was written before, and ends no later than the piece of input does
(`bounds_of_headPiece`).
-/
import Mathlib.Algebra.Group.Nat.Defs
import SyntaxTree.Literal.Escape

namespace SyntaxTree

/-! ## 1. Lengths of encodings -/

namespace Utf8

theorem length_continuations (count codePoint : Nat) :
    (continuations count codePoint).length = count := by
  induction count with
  | zero => rfl
  | succ count ih => rw [continuations, List.length_cons, ih]

/-- The encoding of a code point has the length that was computed for it. -/
theorem length_of_encode {codePoint : Nat} {bytes : List UInt8}
    (h : encode codePoint = some bytes) : encodedLength codePoint = some bytes.length := by
  obtain ⟨length, hlength, rfl⟩ := Option.map_eq_some_iff.1 h
  have hpos : 0 < length := by
    unfold encodedLength at hlength
    grind
  rw [hlength, sequence, List.length_cons, length_continuations]
  congr 1
  omega

end Utf8

namespace Literal

/-! ## 2. Hexadecimal digits -/

/-- Reads more digits of a number. -/
def hexFrom (total : Nat) (digits : List UInt8) : Except LiteralError Nat :=
  digits.foldlM
    (fun total c =>
      match Hex.value? c with
      | some digit => .ok (total * 16 + digit)
      | none => .error (.badHexDigit c))
    total

theorem hexFrom_cons (total : Nat) {c : UInt8} {digit : Nat} (h : Hex.value? c = some digit)
    (rest : List UInt8) : hexFrom total (c :: rest) = hexFrom (total * 16 + digit) rest := by
  simp only [hexFrom, List.foldlM_cons, h]
  rfl

theorem lt_of_value? {c : UInt8} {digit : Nat} (h : Hex.value? c = some digit) : digit < 16 := by
  simp only [Hex.value?, UInt8.le_iff_toNat_le, UInt8.reduceToNat] at h
  grind

/-- A number is below the bound that its digits give. -/
theorem lt_of_hexFrom {digits : List UInt8} {total number : Nat}
    (h : hexFrom total digits = .ok number) : number < (total + 1) * 16 ^ digits.length := by
  induction digits generalizing total with
  | nil =>
    obtain rfl := Except.ok.inj h
    simp
  | cons c rest ih =>
    cases hvalue : Hex.value? c with
    | none =>
      simp only [hexFrom, List.foldlM_cons, hvalue] at h
      exact absurd h (by rintro ⟨⟩)
    | some digit =>
      have hdigit := lt_of_value? hvalue
      rw [hexFrom_cons total hvalue] at h
      calc number < (total * 16 + digit + 1) * 16 ^ rest.length := ih h
        _ ≤ (total + 1) * 16 * 16 ^ rest.length := Nat.mul_le_mul_right _ (by omega)
        _ = (total + 1) * 16 ^ (c :: rest).length := by
          rw [List.length_cons, Nat.pow_succ, Nat.mul_assoc, Nat.mul_comm 16]

theorem lt_of_hexNumber {digits : List UInt8} {number : Nat} (h : hexNumber digits = .ok number) :
    number < 16 ^ digits.length := by
  have hbound := lt_of_hexFrom h
  omega

/-- Hexadecimal escapes have two digits, four or eight. -/
theorem digits_of_ofByte {rawness : Rawness} {c : UInt8} {count : Nat}
    (h : Escape.ofByte rawness c = .hex count) : count = 2 ∨ count = 4 ∨ count = 8 := by
  unfold Escape.ofByte at h
  repeat' split at h
  all_goals cases h
  all_goals decide

/-- **A code point takes no more bytes than the escape that spells it.** -/
theorem length_le_of_hexBytes {rawness : Rawness} {letter : UInt8} {digits bytes : List UInt8}
    (hescape : Escape.ofByte rawness letter = .hex digits.length)
    (hbytes : hexBytes digits = .ok bytes) : bytes.length ≤ digits.length + 2 := by
  unfold hexBytes at hbytes
  cases hnumber : hexNumber digits with
  | error cause =>
    rw [hnumber] at hbytes
    cases hbytes
  | ok codePoint =>
    rw [hnumber] at hbytes
    cases hencode : Utf8.encode codePoint with
    | none =>
      simp only [hencode] at hbytes
      cases hbytes
    | some encoded =>
      simp only [hencode, Except.ok.injEq] at hbytes
      subst hbytes
      have hlength := Utf8.length_of_encode hencode
      have hbound := lt_of_hexNumber hnumber
      -- only two digits could be too few, and they spell at most two bytes
      unfold Utf8.encodedLength at hlength
      rcases digits_of_ofByte hescape with hcount | hcount | hcount
      all_goals
        rw [hcount] at hbound ⊢
        grind

/-! ## 3. Pieces -/

/-- The piece that starts with the byte `c`, from the text behind it. -/
def headPiece (rawness : Rawness) (c : UInt8) (rest : List UInt8) : Except LiteralError Piece :=
  if c ≠ Ascii.byte '\\' then .ok ⟨0, [c]⟩
  else
    match rest with
    | [] => .ok ⟨0, [c]⟩
    | next :: tail =>
      match Escape.ofByte rawness next with
      | .byte b => .ok ⟨1, [b]⟩
      | .verbatim => .ok ⟨1, [c, next]⟩
      | .hex count =>
        if tail.length < count then .error (.truncatedEscape count)
        else
          match hexBytes (tail.take count) with
          | .ok bytes => .ok ⟨1 + count, bytes⟩
          | .error cause => .error cause

/-- **Decoding from left to right goes by pieces.** -/
theorem unescape_cons (rawness : Rawness) (c : UInt8) (rest : List UInt8) :
    unescape rawness (c :: rest)
      = (headPiece rawness c rest).bind fun piece =>
          (unescape rawness (rest.drop piece.extra)).map (piece.output ++ ·) := by
  rw [unescape.eq_def, headPiece.eq_def]
  simp only []
  split
  · rfl
  · cases rest with
    | nil =>
      simp only [Except.bind, List.drop_nil, unescape]
      rfl
    | cons next tail =>
      simp only []
      cases Escape.ofByte rawness next with
      | byte b => rfl
      | verbatim => rfl
      | hex count =>
        simp only []
        split
        · rfl
        · cases hexBytes (tail.take count) with
          | error cause => rfl
          | ok bytes =>
            simp only [Except.bind, Nat.add_comm 1 count, List.drop_succ_cons]

theorem unescape_of_headPiece {rawness : Rawness} {c : UInt8} {rest : List UInt8} {piece : Piece}
    (h : headPiece rawness c rest = .ok piece) :
    unescape rawness (c :: rest)
      = (unescape rawness (rest.drop piece.extra)).map (piece.output ++ ·) := by
  rw [unescape_cons, h]
  rfl

theorem headPiece_of_ne {c : UInt8} (h : c ≠ Ascii.byte '\\') (rawness : Rawness)
    (rest : List UInt8) : headPiece rawness c rest = .ok ⟨0, [c]⟩ := by
  unfold headPiece
  exact if_pos h

theorem headPiece_byte {rawness : Rawness} {next b : UInt8}
    (h : Escape.ofByte rawness next = .byte b) (tail : List UInt8) :
    headPiece rawness (Ascii.byte '\\') (next :: tail) = .ok ⟨1, [b]⟩ := by
  simp [headPiece, h]

theorem headPiece_hex {rawness : Rawness} {next : UInt8} {digits bytes : List UInt8}
    (h : Escape.ofByte rawness next = .hex digits.length) (hbytes : hexBytes digits = .ok bytes)
    (rest : List UInt8) :
    headPiece rawness (Ascii.byte '\\') (next :: (digits ++ rest))
      = .ok ⟨1 + digits.length, bytes⟩ := by
  simp [headPiece, h, hbytes]

/-- **A piece of a buffer is the piece of the text from its index on.** -/
theorem pieceAt_eq_headPiece (rawness : Rawness) (buffer : Array UInt8) (read : Nat) (c : UInt8) :
    pieceAt rawness buffer read c = headPiece rawness c (buffer.toList.drop (read + 1)) := by
  unfold pieceAt headPiece
  split
  · rfl
  · cases hrest : buffer.toList.drop (read + 1) with
    | nil =>
      have hend : buffer[read + 1]? = none := by
        rw [← Array.getElem?_toList, ← List.head?_drop, hrest, List.head?_nil]
      rw [hend]
    | cons next tail =>
      have hnext : buffer[read + 1]? = some next := by
        rw [← Array.getElem?_toList, ← List.head?_drop, hrest, List.head?_cons]
      have htail : tail = buffer.toList.drop (read + 2) := by
        rw [← List.drop_drop (i := 1), hrest, List.drop_succ_cons, List.drop_zero]
      have hdigits (count : Nat) :
          (buffer.extract (read + 2) (read + 2 + count)).toList = tail.take count := by
        rw [htail, Array.toList_extract, List.extract_eq_take_drop, Nat.add_sub_cancel_left]
      have hlength : tail.length + (read + 2) = buffer.size := by
        have := congrArg List.length hrest
        simp only [List.length_drop, Array.length_toList, List.length_cons] at this
        omega
      have hshort (count : Nat) : buffer.size < read + 2 + count ↔ tail.length < count := by
        omega
      simp only [hnext]
      cases Escape.ofByte rawness next with
      | byte b => rfl
      | verbatim => rfl
      | hex count =>
        exact ite_congr (propext (hshort count)) (fun _ => rfl) (fun _ => hdigits count ▸ rfl)

/-- **A piece is no longer decoded than written**, and it lies inside the text. -/
theorem bounds_of_headPiece {rawness : Rawness} {c : UInt8} {rest : List UInt8} {piece : Piece}
    (h : headPiece rawness c rest = .ok piece) :
    piece.output.length ≤ piece.extra + 1 ∧ piece.extra ≤ rest.length := by
  unfold headPiece at h
  split at h
  · cases h
    simp
  · cases rest with
    | nil =>
      cases h
      simp
    | cons next tail =>
      simp only [] at h
      cases hescape : Escape.ofByte rawness next with
      | byte b =>
        simp only [hescape, Except.ok.injEq] at h
        subst h
        simp
      | verbatim =>
        simp only [hescape, Except.ok.injEq] at h
        subst h
        simp
      | hex count =>
        simp only [hescape] at h
        split at h
        · cases h
        · have hcount : (tail.take count).length = count := by
            rw [List.length_take]
            omega
          cases hbytes : hexBytes (tail.take count) with
          | error cause =>
            rw [hbytes] at h
            cases h
          | ok bytes =>
            simp only [hbytes, Except.ok.injEq] at h
            subst h
            have hlength := length_le_of_hexBytes (hcount.symm ▸ hescape) hbytes
            simp only [List.length_cons]
            omega

/-! ## 4. In place -/

/-- What a buffer holds after bytes were written into it. -/
theorem toList_writeAt {buffer : Array UInt8} {index : Nat} {bytes : List UInt8}
    (h : index + bytes.length ≤ buffer.size) :
    (writeAt buffer index bytes).toList
      = buffer.toList.take index ++ bytes ++ buffer.toList.drop (index + bytes.length) := by
  induction bytes generalizing buffer index with
  | nil => simp [writeAt]
  | cons b rest ih =>
    rw [List.length_cons] at h
    have hset : (buffer.toList.set index b).take (index + 1)
        = buffer.toList.take index ++ [b] := by
      have hsplit : buffer.toList.set index b
          = buffer.toList.take index ++ [b] ++ buffer.toList.drop (index + 1) := by
        rw [List.set_eq_take_append_cons_drop, if_pos (by rw [Array.length_toList]; omega),
          List.append_assoc, List.singleton_append]
      rw [hsplit]
      refine List.take_left' ?_
      rw [List.length_append, List.length_take, Array.length_toList, List.length_singleton]
      omega
    rw [writeAt, ih (by rw [Array.size_setIfInBounds]; omega), Array.toList_setIfInBounds, hset,
      List.drop_set_of_lt (by omega), List.length_cons, Nat.add_right_comm, Nat.add_assoc]
    simp only [List.append_assoc, List.singleton_append]

/-- Behind the written bytes nothing changes. -/
theorem drop_writeAt {buffer : Array UInt8} {index read : Nat} {bytes : List UInt8}
    (h : index + bytes.length ≤ read) (hread : read ≤ buffer.size) :
    (writeAt buffer index bytes).toList.drop read = buffer.toList.drop read := by
  rw [toList_writeAt (by omega)]
  have hfront : (buffer.toList.take index ++ bytes).length = index + bytes.length := by
    rw [List.length_append, List.length_take, Array.length_toList]
    omega
  obtain ⟨gap, rfl⟩ := Nat.exists_eq_add_of_le h
  rw [← List.drop_drop, List.drop_left' hfront, List.drop_drop]

/-- The written text grows by the bytes. -/
theorem take_writeAt {buffer : Array UInt8} {index : Nat} {bytes : List UInt8}
    (h : index + bytes.length ≤ buffer.size) :
    (writeAt buffer index bytes).toList.take (index + bytes.length)
      = buffer.toList.take index ++ bytes := by
  rw [toList_writeAt h]
  refine List.take_left' ?_
  rw [List.length_append, List.length_take, Array.length_toList]
  omega

/-- The decoded text that a buffer holds at its start. -/
def decoded (result : Array UInt8 × Nat) : List UInt8 := result.1.toList.take result.2

/-- **Decoding in place appends what decoding left to right gives.**  The text ahead is still
unchanged, since the writing index has not passed the reading one. -/
theorem unescapeFrom_eq (rawness : Rawness) (buffer : Array UInt8) {read write : Nat}
    (h : write ≤ read) :
    (unescapeFrom rawness buffer read write).map decoded
      = (unescape rawness (buffer.toList.drop read)).map (buffer.toList.take write ++ ·) := by
  have hahead {buffer : Array UInt8} {read : Nat} (hread : read < buffer.size) :
      buffer.toList.drop read = buffer[read] :: buffer.toList.drop (read + 1) :=
    List.drop_eq_getElem_cons (by rwa [Array.length_toList])
  fun_induction unescapeFrom rawness buffer read write with
  | case1 buffer read write hread cause hpiece =>
    rw [pieceAt_eq_headPiece] at hpiece
    rw [hahead hread, unescape_cons, hpiece]
    rfl
  | case2 buffer read write hread piece hpiece ih =>
    rw [pieceAt_eq_headPiece] at hpiece
    obtain ⟨houtput, hextra⟩ := bounds_of_headPiece hpiece
    rw [List.length_drop, Array.length_toList] at hextra
    rw [ih (by omega), drop_writeAt (by omega) (by omega), take_writeAt (by omega), hahead hread,
      unescape_of_headPiece hpiece, List.drop_drop]
    cases unescape rawness (buffer.toList.drop (read + 1 + piece.extra)) with
    | error cause => rfl
    | ok out => simp only [Except.map, List.append_assoc]
  | case3 buffer read write hread =>
    rw [List.drop_eq_nil_of_le (by rw [Array.length_toList]; omega), unescape]
    simp [decoded, Except.map]

theorem map_decoded_unescapeInPlace (rawness : Rawness) (text : List UInt8) :
    (unescapeInPlace rawness text.toArray).map decoded = unescape rawness text := by
  rw [unescapeInPlace, unescapeFrom_eq rawness text.toArray (Nat.le_refl 0)]
  show (unescape rawness text).map ([] ++ ·) = unescape rawness text
  cases unescape rawness text <;> rfl

/-- **Decoding in place is decoding from left to right.** -/
theorem decodeEscapes_eq_unescape (rawness : Rawness) (text : List UInt8) :
    decodeEscapes rawness text = unescape rawness text := by
  rw [← map_decoded_unescapeInPlace, decodeEscapes]
  cases unescapeInPlace rawness text.toArray <;> rfl

/-- **A text is no longer decoded than written.** -/
theorem length_le_of_unescape {rawness : Rawness} {text out : List UInt8}
    (h : unescape rawness text = .ok out) : out.length ≤ text.length := by
  match text with
  | [] =>
    rw [unescape] at h
    obtain rfl := Except.ok.inj h
    exact Nat.le_refl 0
  | c :: rest =>
    rw [unescape_cons] at h
    cases hpiece : headPiece rawness c rest with
    | error cause =>
      rw [hpiece] at h
      cases h
    | ok piece =>
      rw [hpiece, Except.bind] at h
      cases htail : unescape rawness (rest.drop piece.extra) with
      | error cause =>
        rw [htail] at h
        cases h
      | ok tail =>
        rw [htail] at h
        obtain rfl := Except.ok.inj h
        obtain ⟨houtput, hextra⟩ := bounds_of_headPiece hpiece
        have ih := length_le_of_unescape htail
        rw [List.length_drop] at ih
        rw [List.length_append, List.length_cons]
        omega
termination_by text.length
decreasing_by simp only [List.length_cons, List.length_drop]; omega

end Literal
end SyntaxTree
