/-
# An integer literal is dumped as its number

An integer goes through four hands: its text is read as a sign and a magnitude, the magnitude is
stored in eight bytes or in sixteen, the bytes are read back as a number or left as they are, and
the dump prints either.  This file follows it all the way (`render_integer`): whatever text was
accepted, the dump shows the decimal digits of the magnitude behind the sign.

The two widths meet in `render_scalar_integer`.  A narrow magnitude is read back as a number.  A
wide one is left as raw bytes, which the dump reads itself, and no magnitude is too wide for the
sixteen bytes it gets (`lt_of_signedInteger`).
-/
import SyntaxTree.Proofs.PositionalValue
import SyntaxTree.Proofs.RoundTrip
import SyntaxTree.Tree.TextDump

namespace SyntaxTree

/-! ## 1. Decimal text -/

/-- The decimal text of a number has its digits in base ten, without zeros in front. -/
theorem Decimal.digits_eq_numeral (n : Nat) :
    Decimal.digits n = (Literal.numeral 10 n).map Decimal.digit := by
  induction n using Nat.strongRecOn with
  | ind n ih =>
    by_cases hzero : n = 0
    · subst hzero
      rw [Decimal.digits]
      rfl
    · have hlast : Nat.digits 10 n = n % 10 :: Nat.digits 10 (n / 10) :=
        Nat.digits_def' (by decide) (Nat.pos_of_ne_zero hzero)
      rw [Literal.numeral, if_neg hzero, hlast, List.reverse_cons, List.map_append, Decimal.digits]
      by_cases hten : n < 10
      · rw [if_pos hten, Nat.div_eq_of_lt hten, Nat.mod_eq_of_lt hten, Nat.digits_zero]
        rfl
      · have hfront : n / 10 ≠ 0 := by omega
        rw [if_neg hten, ih (n / 10) (by omega), Literal.numeral, if_neg hfront]
        rfl

/-- Only a negative number has a mark in front of its digits. -/
theorem Literal.Sign.spell_eq (sign : Literal.Sign) (magnitude : Nat) :
    sign.spell magnitude
      = (if sign = .negative then "-" else "")
        ++ String.ofList ((Literal.numeral 10 magnitude).map Decimal.digit) := by
  rw [← Decimal.digits_eq_numeral]
  cases sign with
  | positive => exact (String.empty_append).symm
  | negative => rfl

/-! ## 2. Magnitudes -/

/-- A magnitude that was read has at most 128 bits. -/
theorem Literal.lt_of_integer {base magnitude : Nat} {text : List UInt8}
    (h : Literal.integer base text = .ok magnitude) : magnitude < 2 ^ 128 := by
  by_cases hbase : base ≤ Literal.maxBase
  · rw [← Literal.integerBound_eq]
    obtain ⟨-, heq⟩ | ⟨-, -, heq⟩ | ⟨-, hsmall, heq⟩ := Literal.integer_cases hbase text
    · rw [heq] at h
      cases h
    · rw [heq] at h
      cases h
    · rw [heq] at h
      exact Except.ok.inj h ▸ hsmall
  · rw [Literal.integer, if_pos (Nat.lt_of_not_le hbase)] at h
    cases h

theorem Literal.lt_of_signedInteger {text : List UInt8} {sign : Literal.Sign} {magnitude : Nat}
    (h : Literal.signedInteger text = .ok (sign, magnitude)) : magnitude < 2 ^ 128 := by
  unfold Literal.signedInteger at h
  simp only [] at h
  split at h
  · next read hread =>
    obtain ⟨-, rfl⟩ := Prod.mk.inj (Except.ok.inj h)
    exact Literal.lt_of_integer hread
  · cases h
  · cases h

/-! ## 3. Two widths -/

namespace Content

theorem length_payload_integer (sign : Literal.Sign) (magnitude : Nat) :
    (integer sign magnitude).payload.length = if magnitude < 2 ^ 64 then 8 else 16 := by
  have hsize : UInt64.size = 2 ^ 64 := rfl
  rw [payload, Literal.integerPayload, hsize]
  split
  · exact BigEndian.length_encode 8 magnitude
  · exact BigEndian.length_encode 16 magnitude

/-- **Both widths are dumped alike.** -/
theorem render_scalar_integer (header : Header) (sign : Literal.Sign) {magnitude : Nat}
    (h : magnitude < 2 ^ 128) :
    (integer sign magnitude).scalar.render header = some (sign.spell magnitude) := by
  rw [scalar]
  split
  · rfl
  · have hback : BigEndian.decode (BigEndian.encode 16 magnitude) = magnitude :=
      BigEndian.decode_encode 16 magnitude h
    cases sign <;> simp [Scalar.render, Literal.Sign.kind, hback]

end Content

/-- The node of an integer is its header and one word or two. -/
theorem Outline.length_data_integer (stamp : Stamp) (sign : Literal.Sign) (magnitude : Nat) :
    (Outline.literal stamp (.integer sign magnitude)).node.data.length
      = if magnitude < 2 ^ 64 then 8 else 16 := by
  rw [Outline.node, Node.assemble, length_padded, Content.length_payload_integer]
  split <;> rfl

/-! ## 4. From a literal to a dump -/

/-- **An integer literal is dumped as its number.**  Whatever the builder has done before, if a
text is read as a sign and a magnitude, then the magnitude has at most 128 bits; the literal makes
a node of one word of data or two, by whether the magnitude has at most 64 bits; and reading the
bytes of the node gives a tree whose value is dumped as the decimal digits of the magnitude
without zeros in front, behind a minus for a negative number and behind nothing for a positive
one. -/
theorem render_integer (builder : Builder) {text : List UInt8} {sign : Literal.Sign}
    {magnitude : Nat} (h : Literal.signedInteger text = .ok (sign, magnitude)) :
    magnitude < 2 ^ 128
      ∧ ∃ (node : Node) (tree : Tree),
          (builder.integer text).result = .ok (.node node)
          ∧ node.data.length = (if magnitude < 2 ^ 64 then 8 else 16)
          ∧ Tree.decode node.bytes = .ok (tree, node.size)
          ∧ tree.render
              = some ((if sign = .negative then "-" else "")
                ++ String.ofList ((Literal.numeral 10 magnitude).map Decimal.digit)) := by
  have hmagnitude := Literal.lt_of_signedInteger h
  let outline : Outline :=
    .literal (builder.stamp (.ofName "#int") builder.tracker.previousPosition)
      (.integer sign magnitude)
  have hvalue : (builder.integer text).value? = some (.node outline.node) := by
    have husual := builder.value?_usual .integer text
    rw [UsualLiteral.content?, h] at husual
    exact husual
  have hdata : outline.node.data.length = if magnitude < 2 ^ 64 then 8 else 16 :=
    Outline.length_data_integer _ sign magnitude
  have hfits : outline.node.Fits := by
    have hwidth : Header.width = 32 := rfl
    have hmax : UInt64.size = 2 ^ 64 := rfl
    rw [Node.Fits, Node.size, hdata]
    split <;> omega
  refine ⟨hmagnitude, outline.node, outline.tree, Outcome.value?_eq_some.1 hvalue, hdata,
    Outline.decode_bytes hfits, ?_⟩
  rw [← Literal.Sign.spell_eq]
  exact Content.render_scalar_integer _ sign hmagnitude

/-- The least magnitude of more than 64 bits, with a sign, a base and bytes that are no digits. -/
def wideInteger : List UInt8 := "-0x1_0000_0000_0000_0000".toList.map Ascii.byte

theorem render_wideInteger :
    Literal.signedInteger wideInteger = .ok (.negative, 2 ^ 64)
      ∧ ∃ (node : Node) (tree : Tree),
          ((Builder.ofSettings .standard).integer wideInteger).result = .ok (.node node)
          ∧ node.data.length = 16
          ∧ Tree.decode node.bytes = .ok (tree, node.size)
          ∧ tree.render = some "-18446744073709551616" := by
  have hread : Literal.signedInteger wideInteger = .ok (.negative, 2 ^ 64) := by decide +kernel
  obtain ⟨-, node, tree, hnode, hdata, hdecode, hrender⟩ :=
    render_integer (.ofSettings .standard) hread
  refine ⟨hread, node, tree, hnode, hdata, hdecode, hrender.trans ?_⟩
  rw [← Decimal.digits_eq_numeral]
  decide +kernel

end SyntaxTree
