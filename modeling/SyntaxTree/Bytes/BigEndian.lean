/-
# Big-endian words

Every number in an encoded tree is stored most significant byte first.  `encode width n`
writes the low `width` bytes of `n`, `decode` reads any byte string as one number.

Both work from the last byte: it holds the number modulo 256, and the bytes before it hold
the quotient.  Writing after reading gives the bytes back (`encode_decode`), and reading after
writing gives the number back if it fits (`decode_encode`).
-/
namespace SyntaxTree
namespace BigEndian

/-! ## 1. The two directions -/

/-- The `width` bytes of `n`, most significant first.  Bits above `8 * width` are dropped. -/
def encode : Nat → Nat → List UInt8
  | 0, _ => []
  | width + 1, n => encode width (n / 256) ++ [UInt8.ofNat n]

/-- The number whose bytes are given, most significant first. -/
def decode (bytes : List UInt8) : Nat :=
  bytes.foldl (fun n b => n * 256 + b.toNat) 0

/-! ## 2. Lengths and the way back -/

@[simp] theorem length_encode : ∀ width n : Nat, (encode width n).length = width
  | 0, _ => rfl
  | width + 1, n => by simp [encode, length_encode width (n / 256)]

@[simp] theorem decode_nil : decode [] = 0 := rfl

@[simp] theorem decode_append_singleton (bytes : List UInt8) (b : UInt8) :
    decode (bytes ++ [b]) = decode bytes * 256 + b.toNat := by
  simp [decode]

theorem encode_decode (bytes : List UInt8) : encode bytes.length (decode bytes) = bytes := by
  obtain ⟨reversed, rfl⟩ : ∃ reversed : List UInt8, bytes = reversed.reverse :=
    ⟨bytes.reverse, by simp⟩
  induction reversed with
  | nil => rfl
  | cons b rest ih =>
    have hb : b.toNat < 256 := b.toNat_lt
    have hdiv : (decode rest.reverse * 256 + b.toNat) / 256 = decode rest.reverse := by omega
    have hlast : UInt8.ofNat (decode rest.reverse * 256 + b.toNat) = b := by
      apply UInt8.toNat_inj.1
      simp only [UInt8.toNat_ofNat']
      omega
    rw [List.reverse_cons, List.length_append, List.length_singleton, decode_append_singleton,
      encode, hdiv, hlast, ih]

theorem decode_encode : ∀ width n : Nat, n < Nat.pow 256 width → decode (encode width n) = n
  | 0, n, h => by
    have hn : n = 0 := Nat.lt_one_iff.1 h
    rw [hn, encode, decode_nil]
  | width + 1, n, h => by
    have hquot : n / 256 < Nat.pow 256 width := Nat.div_lt_of_lt_mul (Nat.mul_comm .. ▸ h)
    rw [encode, decode_append_singleton, decode_encode width (n / 256) hquot]
    simp only [UInt8.toNat_ofNat']
    omega

end BigEndian
end SyntaxTree
