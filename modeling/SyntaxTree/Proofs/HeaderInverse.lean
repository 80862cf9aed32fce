/-
# Headers and their bytes determine each other

`HeaderCodec.lean` reads a written header back.  This file adds the other direction and the writing
in place, so that nothing of a header is lost either way except the reserved bytes:

* writing over a buffer puts the header in front and keeps what lies behind it, so no byte of the
  header is what the buffer held before (`writeOver_eq`).  Each field is written right behind the
  one before it (`splice_append`), which is where a gap or an overlap of the offsets would show;
* the header read from a buffer is written as the bytes that it was read from, with zeros for the
  reserved ones (`encode_read`).  Each field is cut out and written at one width, and a number read
  from so many bytes fits them (`BigEndian.decode_lt`).

`bytes_inverse` puts the three together.
-/
import Mathlib.Data.List.Basic
import SyntaxTree.Proofs.HeaderCodec

namespace SyntaxTree

/-! ## 1. Numbers and names from their bytes -/

/-- The number of a byte string fits its bytes. -/
theorem BigEndian.decode_lt (bytes : List UInt8) : decode bytes < Nat.pow 256 bytes.length := by
  obtain ⟨reversed, rfl⟩ : ∃ reversed : List UInt8, bytes = reversed.reverse :=
    ⟨bytes.reverse, (List.reverse_reverse bytes).symm⟩
  induction reversed with
  | nil => decide
  | cons last rest ih =>
    have hlast : last.toNat < 256 := last.toNat_lt
    rw [List.reverse_cons, decode_append_singleton, List.length_append, List.length_singleton]
    have hpow : Nat.pow 256 (rest.reverse.length + 1) = Nat.pow 256 rest.reverse.length * 256 := rfl
    omega

/-- Eight bytes are the name that they make. -/
theorem Tag.bytes_ofBytes {bytes : List UInt8} (h : bytes.length = 8) :
    (ofBytes bytes).bytes = bytes := by
  have htake : bytes.take 8 = bytes := List.take_of_length_le (Nat.le_of_eq h)
  simp [ofBytes, htake, h, width]

namespace Header

theorem encode_decode_u64 {bytes : List UInt8} (h : bytes.length = 8) :
    BigEndian.encode 8 (UInt64.ofNat (BigEndian.decode bytes)).toNat = bytes := by
  have hlt : BigEndian.decode bytes < UInt64.size := by
    have hbound := BigEndian.decode_lt bytes
    rwa [h] at hbound
  rw [UInt64.toNat_ofNat_of_lt' hlt, ← h, BigEndian.encode_decode]

theorem encode_decode_u32 {bytes : List UInt8} (h : bytes.length = 4) :
    BigEndian.encode 4 (UInt32.ofNat (BigEndian.decode bytes)).toNat = bytes := by
  have hlt : BigEndian.decode bytes < UInt32.size := by
    have hbound := BigEndian.decode_lt bytes
    rwa [h] at hbound
  rw [UInt32.toNat_ofNat_of_lt' hlt, ← h, BigEndian.encode_decode]

theorem encode_decode_singleton {bytes : List UInt8} (h : bytes.length = 1) :
    [UInt8.ofNat (BigEndian.decode bytes)] = bytes := by
  obtain ⟨b, rfl⟩ := List.length_eq_one_iff.1 h
  rw [decode_singleton]

/-! ## 2. Writing over a buffer -/

/-- Bytes written behind `front` take the place of as many. -/
theorem splice_append {front bytes rest : List UInt8} {offset : Nat} (h : front.length = offset) :
    splice offset bytes (front ++ rest) = front ++ bytes ++ rest.drop bytes.length := by
  subst h
  rw [splice, List.take_left, List.drop_append, List.append_assoc]
  simp

/-- **Writing over a buffer puts the header in front**, and keeps what lies behind it. -/
theorem writeOver_eq (header : Header) (buffer : List UInt8) :
    header.writeOver buffer = header.encode ++ buffer.drop width := by
  have hname := header.name.length_bytes
  have hfirst : splice 0 header.name.bytes buffer = header.name.bytes ++ buffer.drop 8 := by
    rw [← hname]
    exact @splice_append [] header.name.bytes buffer 0 rfl
  unfold writeOver encode
  rw [hfirst]
  simp (disch := simp [hname]) only [splice_append]
  simp only [BigEndian.length_encode, List.drop_drop, List.length_cons, List.length_nil, width]

/-! ## 3. The header of a buffer, written again -/

/-- The bytes up to a field and the field are the bytes up to its end. -/
theorem take_append_field (buffer : List UInt8) (offset count : Nat) :
    buffer.take offset ++ field buffer offset count = buffer.take (offset + count) :=
  List.take_add.symm

theorem length_field {buffer : List UInt8} {offset count : Nat}
    (h : offset + count ≤ buffer.length) : (field buffer offset count).length = count := by
  rw [field, List.length_take, List.length_drop]
  omega

/-- **The header read from a buffer is written as the bytes it was read from**, with zeros for the
reserved ones. -/
theorem encode_read {buffer : List UInt8} (h : width ≤ buffer.length) :
    (read buffer).encode = buffer.take 28 ++ [0, 0, 0] ++ field buffer 31 1 := by
  have hlength (offset count : Nat) (hend : offset + count ≤ 32) :
      (field buffer offset count).length = count := length_field (Nat.le_trans hend h)
  have hname : field buffer 0 8 = buffer.take 8 := rfl
  unfold read encode
  dsimp only
  rw [Tag.bytes_ofBytes (hlength 0 8 (by decide)), encode_decode_u64 (hlength 8 8 (by decide)),
    encode_decode_u32 (hlength 16 4 (by decide)), encode_decode_u32 (hlength 20 4 (by decide)),
    encode_decode_u32 (hlength 24 4 (by decide)),
    encode_decode_singleton (hlength 31 1 (by decide)), hname]
  -- the five fields in front of the reserved bytes leave no gap
  rw [take_append_field, take_append_field, take_append_field, take_append_field]

/-- The reserved bytes set to zero, one by one. -/
theorem set_reserved {buffer : List UInt8} (h : width ≤ buffer.length) :
    (((buffer.take width).set 28 0).set 29 0).set 30 0
      = buffer.take 28 ++ [0, 0, 0] ++ field buffer 31 1 := by
  have hfront : (buffer.take 28).length = 28 := List.length_take_of_le (Nat.le_trans (by decide) h)
  obtain ⟨a, b, c, habc⟩ : ∃ a b c, reserved buffer = [a, b, c] :=
    List.length_eq_three.1 (length_field (Nat.le_trans (by decide) h))
  have hsplit : buffer.take width = buffer.take 28 ++ (reserved buffer ++ field buffer 31 1) := by
    rw [← List.append_assoc, reserved, take_append_field, take_append_field]
    rfl
  rw [hsplit, habc]
  simp [hfront]

/-- A buffer that has room for a header is read as one. -/
theorem result_decode {buffer : List UInt8} (h : width ≤ buffer.length) :
    (decode buffer).result = .ok (read buffer) := by
  rw [decode, if_neg (Nat.not_lt_of_le h)]

/-! ## 4. Both directions -/

/-- **Headers and their bytes determine each other.**

* A written header is read back as it was, whatever follows it, and without a notice.
* Writing a header over 32 bytes leaves none of them: the result does not depend on what they were.
* Every buffer of at least 32 bytes is read as a header, and this header is written as the first 32
  bytes of the buffer with the three reserved ones set to zero. -/
theorem bytes_inverse :
    (∀ (header : Header) (rest : List UInt8), decode (header.encode ++ rest) = .ok header)
      ∧ (∀ (header : Header) (output : List UInt8),
          output.length = width → header.writeOver output = header.encode)
      ∧ ∀ buffer : List UInt8, width ≤ buffer.length →
          ∃ header : Header, (decode buffer).result = .ok header
            ∧ header.encode = (((buffer.take width).set 28 0).set 29 0).set 30 0 := by
  refine ⟨decode_encode_append, ?_, ?_⟩
  · intro header output hwidth
    rw [writeOver_eq, List.drop_of_length_le (Nat.le_of_eq hwidth), List.append_nil]
  · intro buffer hwidth
    refine ⟨read buffer, result_decode hwidth, ?_⟩
    rw [encode_read hwidth, set_reserved hwidth]

/-- The bytes 1 to 40: no field is zero, and neither are the reserved bytes. -/
def countingBytes : List UInt8 := (List.range 40).map fun n => UInt8.ofNat (n + 1)

/-- The header of `countingBytes`. -/
def countingHeader : Header where
  name := Tag.ofBytes [1, 2, 3, 4, 5, 6, 7, 8]
  size := 0x090A0B0C0D0E0F10
  position := ⟨0x11121314, 0x15161718, 0x191A1B1C⟩
  typeCode := 32

/-- Written over 32 bytes that were others, and read from 40 of which three are reserved. -/
theorem bytes_inverse_counting :
    countingHeader.writeOver (List.replicate 32 0xAA) = countingHeader.encode
      ∧ (decode countingBytes).result = .ok countingHeader
      ∧ countingHeader.encode = countingBytes.take 28 ++ [0, 0, 0, 32] := by
  obtain ⟨-, hover, hback⟩ := bytes_inverse
  obtain ⟨header, hread, hbytes⟩ := hback countingBytes (by decide)
  obtain rfl : countingHeader = header := Except.ok.inj hread
  exact ⟨hover countingHeader _ List.length_replicate, hread, hbytes⟩

end Header
end SyntaxTree
