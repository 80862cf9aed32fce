/-
# Reading is local, and goes from front to back

A node is read from the bytes that its header declares.  The words around them matter in one way
only: the padding behind the declared size has to be there, whatever it holds.  So a reading that
succeeds is the same in every buffer that has the declared bytes in front and is long enough
(`decode_congr`), and nodes that fill a buffer are read first wherever the buffer goes on
(`decodeAll_append`).

Both are equations of outcomes: also the notices are the same, and a fault in what follows is the
fault that it has by itself, with the number of bytes left there and not in the whole.

* `Frame.scan_congr` is the step: one node, with its header, its data and its notices.
* `decoding_local_sequential` puts the two together.
-/
import SyntaxTree.Proofs.Tiling

namespace SyntaxTree

/-! ## 1. One node -/

theorem Header.reserved_take {buffer : List UInt8} {length : Nat} (h : width ≤ length) :
    reserved (buffer.take length) = reserved buffer :=
  field_take (Nat.le_trans (by decide) h)

/-- The header is read from its own bytes, and its notice too. -/
theorem Header.decode_congr {buffer other : List UInt8} {length : Nat} (hwidth : width ≤ length)
    (hlength : length ≤ buffer.length) (hother : length ≤ other.length)
    (hagree : other.take length = buffer.take length) : decode other = decode buffer := by
  have hread : read other = read buffer := calc
    read other = read (other.take length) := (read_take hwidth).symm
    _ = read (buffer.take length) := by rw [hagree]
    _ = read buffer := read_take hwidth
  have hreserved : reserved other = reserved buffer := calc
    reserved other = reserved (other.take length) := (reserved_take hwidth).symm
    _ = reserved (buffer.take length) := by rw [hagree]
    _ = reserved buffer := reserved_take hwidth
  rw [decode, decode, if_neg (by omega), if_neg (by omega), hread, hreserved]

namespace Frame

variable {buffer other : List UInt8}

/-- **A node is read from the bytes its header declares**, if the words around them are there. -/
theorem scan_congr (h : WellSized buffer) (hlength : (cut buffer).used ≤ other.length)
    (hagree : other.take (Header.read buffer).size.toNat
      = buffer.take (Header.read buffer).size.toNat) : scan other = scan buffer := by
  have hsize : (Header.read buffer).size.toNat ≤ (cut buffer).used := le_alignUp _
  have hused := h.used_le
  have hheader : Header.decode other = Header.decode buffer :=
    Header.decode_congr h.width_le (by omega) (by omega) hagree
  have hread : Frame.read other = Frame.read buffer := by
    rw [Frame.read, Frame.read, hheader]
    apply Outcome.bind_congr
    intro header hok
    obtain rfl : header = Header.read buffer := by
      rw [Header.decode, if_neg (Nat.not_lt_of_le h.width_le_length)] at hok
      exact (Except.ok.inj hok).symm
    have hfits : alignUp (Header.read buffer).size.toNat ≤ buffer.length := hused
    have hfitsOther : alignUp (Header.read buffer).size.toNat ≤ other.length := hlength
    simp only [if_pos hfits, if_pos hfitsOther, hagree]
  rw [scan, scan, hread]

end Frame

/-! ## 2. Trees -/

namespace Tree

/-- **A tree is read from the bytes its root declares.**  What follows them does not matter, nor
what the padding holds, as long as it is there. -/
theorem decode_congr {buffer other : List UInt8} {tree : Tree} {used : Nat}
    (h : (decode buffer).result = .ok (tree, used)) (hlength : used ≤ other.length)
    (hagree : other.take tree.header.size.toNat = buffer.take tree.header.size.toNat) :
    decode other = decode buffer := by
  obtain ⟨hsized, rfl, htree⟩ := decode_eq_ok_iff.1 h
  rw [header_of_ofFrame htree] at hagree
  rw [decode_eq_read, decode_eq_read, read, read, Frame.scan_congr hsized hlength hagree]

/-- A tree is read the same if its buffer goes on. -/
theorem decode_append {front : List UInt8} {tree : Tree} {used : Nat}
    (h : (decode front).result = .ok (tree, used)) (back : List UInt8) :
    decode (front ++ back) = decode front := by
  obtain ⟨hsized, hused, htree⟩ := decode_eq_ok_iff.1 h
  have hsize : tree.header.size.toNat ≤ front.length := by
    rw [header_of_ofFrame htree]
    exact Nat.le_trans (le_alignUp _) hsized.used_le
  refine decode_congr h ?_ (List.take_append_of_le_length hsize)
  rw [List.length_append, hused]
  exact Nat.le_add_right_of_le hsized.used_le

theorem decodeAll_nil : decodeAll [] = .ok [] := by
  rw [decodeAll_eq_readAll, readAll_of_lt (by decide)]

/-! ## 3. Trees one after another -/

/-- **Trees that fill a buffer are read before what follows it**, which is then read as if it stood
alone. -/
theorem decodeAll_append {front : List UInt8} {trees : List Tree}
    (h : (decodeAll front).result = .ok trees) (hfill : extents trees = front.length)
    (back : List UInt8) :
    decodeAll (front ++ back) = do
      let first ← decodeAll front
      let rest ← decodeAll back
      return first ++ rest := by
  induction front using siteInduction generalizing trees with
  | short front hshort =>
    -- no tree is read, so there is no byte that none takes up
    rw [decodeAll_eq_readAll, readAll_of_lt hshort] at h
    obtain rfl := Except.ok.inj h
    obtain rfl := List.eq_nil_of_length_eq_zero hfill.symm
    rw [decodeAll_nil, List.nil_append, Outcome.ok_bind]
    exact (Outcome.bind_ok _).symm
  | faulty front cause hwidth hfault =>
    rw [decodeAll_eq_ok_cons_iff hwidth] at h
    obtain ⟨_, _, _, hsized, _⟩ := h
    rw [Frame.fault?_eq_none_iff.2 hsized] at hfault
    cases hfault
  | sized front hsized _ behind =>
    obtain ⟨tree, rest, rfl, -, htree, hrest⟩ :=
      (decodeAll_eq_ok_cons_iff hsized.width_le_length).1 h
    have hwidth := hsized.width_le_length
    have hused := hsized.used_le
    have hdecode : (decode front).result = .ok (tree, (Frame.cut front).used) :=
      decode_eq_ok_iff.2 ⟨hsized, rfl, htree⟩
    have hextent : tree.extent = (Frame.cut front).used := by
      rw [extent, header_of_ofFrame htree]
      rfl
    have hbehind := behind hrest (by
      rw [extents] at hfill
      rw [List.length_drop]
      omega)
    rw [decodeAll_of_le (by rw [List.length_append]; omega), decodeAll_of_le hwidth,
      decode_append hdecode, Outcome.bind_assoc]
    apply Outcome.bind_congr
    rintro ⟨tree', used⟩ hok
    obtain ⟨rfl, rfl⟩ := Prod.mk.inj (Except.ok.inj (hok.symm.trans hdecode))
    simp only [List.drop_append_of_le_length hused, hbehind, Outcome.bind_assoc,
      Outcome.pure_eq, Outcome.ok_bind, List.cons_append]

/-! ## 4. Both together -/

/-- **Reading is local, and goes from front to back.**

* If a buffer is read as a tree, then so is every buffer that has as many bytes as were used and
  agrees with it on the bytes that the root declares, with the same bytes used and the same
  notices.
* If a buffer is read as trees whose sizes in whole words make up all of it, then whatever follows
  is read behind them as if it stood alone: its trees come after theirs and its notices after
  theirs, and its fault is the fault of the whole. -/
theorem decoding_local_sequential :
    (∀ (buffer : List UInt8) (tree : Tree) (used : Nat),
      (decode buffer).result = .ok (tree, used) →
        ∀ other : List UInt8, used ≤ other.length →
          other.take tree.header.size.toNat = buffer.take tree.header.size.toNat →
            decode other = ⟨(decode buffer).notices, .ok (tree, used)⟩)
      ∧ ∀ (front : List UInt8) (trees : List Tree),
          (decodeAll front).result = .ok trees → extents trees = front.length →
            ∀ back : List UInt8,
              decodeAll (front ++ back)
                = ((decodeAll back).map (trees ++ ·)).after (decodeAll front).notices := by
  refine ⟨?_, ?_⟩
  · intro buffer tree used h other hlength hagree
    rw [decode_congr h hlength hagree, ← h]
  · intro front trees h hfill back
    rw [decodeAll_append h hfill, Outcome.bind_of_ok h, Outcome.bind_pure_eq_map]

/-- A header that declares no bytes at all. -/
def sizelessBuffer : List UInt8 := Header.encode ⟨.blank, 0, .unknown, Kind.leaf.code⟩

theorem decodeAll_sizelessBuffer :
    (decodeAll sizelessBuffer).result = .error (.sizeTooSmall 0) := by
  have hwidth : Header.width ≤ sizelessBuffer.length := by decide +kernel
  have hfault : Frame.fault? sizelessBuffer = some (.sizeTooSmall 0) := by decide +kernel
  rw [← Outcome.error?_eq_some, error?_decodeAll, sites_of_fault hwidth hfault]
  simp [hfault]

theorem decodeAll_unalignedBuffer :
    (decodeAll unalignedBuffer).result = .ok
      [branch ⟨.blank, 77, .unknown, Kind.branch.code⟩
        [scalar ⟨.blank, 35, .unknown, Kind.text.code⟩ (.text "abc")]] := by
  obtain ⟨hsized, -, htree⟩ := decode_eq_ok_iff.1 decode_unalignedBuffer
  have hrest : unalignedBuffer.drop (Frame.cut unalignedBuffer).used = [] := by decide +kernel
  rw [decodeAll_eq_ok_cons_iff hsized.width_le_length]
  refine ⟨_, _, rfl, hsized, htree, ?_⟩
  rw [hrest, decodeAll_nil]
  rfl

/-- The padding of the branch is overwritten and four bytes follow it; and a header without a size
follows the branch. -/
theorem decoding_local_sequential_unaligned :
    (decode (unalignedBuffer.take 77 ++ [1, 2, 3, 4, 5, 6, 7])).result = .ok
        (branch ⟨.blank, 77, .unknown, Kind.branch.code⟩
          [scalar ⟨.blank, 35, .unknown, Kind.text.code⟩ (.text "abc")], 80)
      ∧ (decodeAll (unalignedBuffer ++ sizelessBuffer)).result = .error (.sizeTooSmall 0) := by
  obtain ⟨hlocal, hsequential⟩ := decoding_local_sequential
  refine ⟨?_, ?_⟩
  · rw [hlocal _ _ _ decode_unalignedBuffer _ (by decide +kernel) (by decide +kernel)]
  · rw [hsequential _ _ decodeAll_unalignedBuffer (by decide +kernel)]
    simp only [Outcome.after, Outcome.map, decodeAll_sizelessBuffer]
    rfl

end Tree
end SyntaxTree
