/-
# A header is read back as it was written

The seven fields of a header stand at fixed offsets, so each is cut out of the written bytes
by dropping what stands before it and taking its width (`field_append`).  Every number fits its
field, so it is read back as itself (`decode_encode_append`), and the reserved bytes are zero
(`reserved_encode_append`), so no notice is given.

With the data behind the header, this is what one round of a reader sees: the frame of a
written node is its header, its data and its length, whatever follows (`scan_bytes_append`).
Two things are needed for it.  The data must be whole words, or the reader would take padding
that is not there; and the length must fit the 64 bits of the size field, which every buffer
in a memory does.
-/
import SyntaxTree.Node
import SyntaxTree.Tree.Decode

namespace SyntaxTree

/-! ## 1. Fields -/

/-- A tag is made of its own bytes. -/
@[simp] theorem Tag.ofBytes_bytes (tag : Tag) : Tag.ofBytes tag.bytes = tag := by
  obtain ⟨bytes, h⟩ := tag
  have htake : bytes.take 8 = bytes := List.take_of_length_le (Nat.le_of_eq h)
  simp [Tag.ofBytes, htake, h, Tag.width]

namespace Header

/-- What stands behind `offset` bytes is the field at `offset`. -/
theorem field_append {front middle back : List UInt8} {offset count : Nat}
    (hf : front.length = offset) (hm : middle.length = count) :
    field (front ++ (middle ++ back)) offset count = middle := by
  rw [field, List.drop_left' hf, List.take_left' hm]

/-- A number below the bound of its width is read back. -/
theorem decode_encode_u64 (n : UInt64) :
    UInt64.ofNat (BigEndian.decode (BigEndian.encode 8 n.toNat)) = n := by
  rw [BigEndian.decode_encode 8 n.toNat n.toNat_lt, UInt64.ofNat_toNat]

theorem decode_encode_u32 (n : UInt32) :
    UInt32.ofNat (BigEndian.decode (BigEndian.encode 4 n.toNat)) = n := by
  rw [BigEndian.decode_encode 4 n.toNat n.toNat_lt, UInt32.ofNat_toNat]

theorem decode_singleton (b : UInt8) : UInt8.ofNat (BigEndian.decode [b]) = b := by
  have h : BigEndian.decode [b] = b.toNat := by simp [BigEndian.decode]
  rw [h, UInt8.ofNat_toNat]

/-! ## 2. The header -/

/-- **Reading the fields of a written header gives the header**, whatever follows. -/
theorem read_encode_append (header : Header) (rest : List UInt8) :
    read (header.encode ++ rest) = header := by
  obtain ⟨name, size, ⟨file, line, column⟩, code⟩ := header
  have hname := name.length_bytes
  have h0 : field (encode ⟨name, size, ⟨file, line, column⟩, code⟩ ++ rest) 0 8 = name.bytes := by
    simp only [encode, List.append_assoc]
    exact @field_append [] _ _ 0 8 rfl hname
  have h8 : field (encode ⟨name, size, ⟨file, line, column⟩, code⟩ ++ rest) 8 8
      = BigEndian.encode 8 size.toNat := by
    simp only [encode, List.append_assoc]
    exact field_append hname (BigEndian.length_encode ..)
  have h16 : field (encode ⟨name, size, ⟨file, line, column⟩, code⟩ ++ rest) 16 4
      = BigEndian.encode 4 file.toNat := by
    simp only [encode]
    rw [List.append_assoc, List.append_assoc, List.append_assoc, List.append_assoc,
      List.append_assoc]
    exact field_append (by simp [hname]) (BigEndian.length_encode ..)
  have h20 : field (encode ⟨name, size, ⟨file, line, column⟩, code⟩ ++ rest) 20 4
      = BigEndian.encode 4 line.toNat := by
    simp only [encode]
    rw [List.append_assoc, List.append_assoc, List.append_assoc, List.append_assoc]
    exact field_append (by simp [hname]) (BigEndian.length_encode ..)
  have h24 : field (encode ⟨name, size, ⟨file, line, column⟩, code⟩ ++ rest) 24 4
      = BigEndian.encode 4 column.toNat := by
    simp only [encode]
    rw [List.append_assoc, List.append_assoc, List.append_assoc]
    exact field_append (by simp [hname]) (BigEndian.length_encode ..)
  have h31 : field (encode ⟨name, size, ⟨file, line, column⟩, code⟩ ++ rest) 31 1 = [code] := by
    simp only [encode]
    rw [List.append_assoc]
    exact field_append (by simp [hname]) rfl
  simp only [read, h0, h8, h16, h20, h24, h31, Tag.ofBytes_bytes, decode_encode_u64,
    decode_encode_u32, decode_singleton]

/-- The reserved bytes of a written header are zero. -/
theorem reserved_encode_append (header : Header) (rest : List UInt8) :
    reserved (header.encode ++ rest) = [0, 0, 0] := by
  simp only [reserved, encode]
  rw [List.append_assoc, List.append_assoc]
  exact field_append (by simp [header.name.length_bytes]) rfl

/-- **A written header is read back without a notice**, whatever follows. -/
theorem decode_encode_append (header : Header) (rest : List UInt8) :
    decode (header.encode ++ rest) = .ok header := by
  have hlen : ¬ (header.encode ++ rest).length < width := by
    rw [List.length_append, length_encode]
    omega
  rw [decode, if_neg hlen, read_encode_append, reserved_encode_append]
  rfl

end Header

/-! ## 3. A node in front of more bytes -/

/-- The kind of a code is the kind that has it. -/
@[simp] theorem Kind.ofCode?_code (kind : Kind) : Kind.ofCode? kind.code = some kind := by
  cases kind <;> rfl

namespace Node

/-- Whether the number of bytes fits the size field of a header. -/
def Fits (node : Node) : Prop := node.size < UInt64.size

instance (node : Node) : Decidable node.Fits := Nat.decLt _ _

@[simp] theorem length_bytes (node : Node) : node.bytes.length = node.size := by
  simp [bytes, size]

@[simp] theorem header_kind? (node : Node) : node.header.kind? = some node.kind :=
  Kind.ofCode?_code node.kind

/-- A size that fits is in the header. -/
theorem header_size_toNat {node : Node} (h : node.Fits) : node.header.size.toNat = node.size :=
  UInt64.toNat_ofNat_of_lt h

theorem decode_header (node : Node) (rest : List UInt8) :
    Header.decode (node.bytes ++ rest) = .ok node.header := by
  rw [bytes, List.append_assoc, Header.decode_encode_append]

/-- The size of a node of whole words is a number of whole words. -/
theorem alignUp_size {node : Node} (h : node.data.length % 8 = 0) :
    alignUp node.size = node.size := by
  simp only [alignUp, size, Header.width]
  omega

/-- **The frame of a node in front of more bytes** is its header, its data and its length. -/
theorem read_bytes_append {node : Node} (hfits : node.Fits) (hdata : node.data.length % 8 = 0)
    (rest : List UInt8) :
    Frame.read (node.bytes ++ rest) = .ok ⟨node.header, node.data, node.size⟩ := by
  have hsmall : ¬ node.size < Header.width := by
    rw [size]
    omega
  have hroom : node.size ≤ (node.bytes ++ rest).length := by
    rw [List.length_append, length_bytes]
    omega
  have hcut : ((node.bytes ++ rest).take node.size).drop Header.width = node.data := by
    rw [List.take_left' (length_bytes node), bytes, List.drop_left' (Header.length_encode _)]
  rw [Frame.read, decode_header, Outcome.ok_bind, header_size_toNat hfits, if_neg hsmall,
    alignUp_size hdata, if_pos hroom, hcut]

/-- A node that belongs in a tree is scanned without a notice. -/
theorem scan_bytes_append {node : Node} (hfits : node.Fits) (hdata : node.data.length % 8 = 0)
    (hkind : node.kind.isTransient = false) (rest : List UInt8) :
    Frame.scan (node.bytes ++ rest) = .ok ⟨node.header, node.data, node.size⟩ := by
  have hstray : node.header.strayNotices = [] := by
    simp [Header.strayNotices, hkind]
  rw [Frame.scan, read_bytes_append hfits hdata, Outcome.ok_bind, hstray]
  rfl

end Node
end SyntaxTree
