/-
# Alignment

Encoded nodes occupy whole words of eight bytes.  `alignUp` rounds a length up to the next
multiple of eight and `padded` appends the zero bytes that take a byte string there.
-/
namespace SyntaxTree

/-- The least multiple of eight that is at least `length`. -/
def alignUp (length : Nat) : Nat := (length + 7) / 8 * 8

/-- `data` followed by the fewest zero bytes that make its length a multiple of eight. -/
def padded (data : List UInt8) : List UInt8 :=
  data ++ List.replicate (alignUp data.length - data.length) 0

theorem le_alignUp (length : Nat) : length ≤ alignUp length := by
  unfold alignUp
  omega

theorem alignUp_lt_add (length : Nat) : alignUp length < length + 8 := by
  unfold alignUp
  omega

@[simp] theorem alignUp_mod (length : Nat) : alignUp length % 8 = 0 := by
  unfold alignUp
  omega

@[simp] theorem length_padded (data : List UInt8) :
    (padded data).length = alignUp data.length := by
  have := le_alignUp data.length
  simp only [padded, List.length_append, List.length_replicate]
  omega

/-- Data of whole words needs no padding. -/
theorem padded_of_aligned {data : List UInt8} (h : data.length % 8 = 0) : padded data = data := by
  have : alignUp data.length - data.length = 0 := by
    unfold alignUp
    omega
  rw [padded, this, List.replicate_zero, List.append_nil]

end SyntaxTree
