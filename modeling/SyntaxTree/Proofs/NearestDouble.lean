/-
# The nearest double

A quotient is rounded on the bits of a magnitude.  Read as a whole number these bits are a ladder: a
larger one stands for a larger value (`valueOf_strictMono`), and on each stretch of the ladder the
values are the multiples of one power of two (`valueOf_add`).  So the nearest double is found by
rounding one quotient to a whole number.

* `exists_closest`: the rounding gives the step of the ladder that is closest, the even one of two.
  The step of infinity counts as the one that would follow the largest double, 2 ^ 1024.
* `Closest.eq_zero_iff`, `Closest.infinityBits_le_iff`: what rounds to zero, and what rounds past
  the largest double.  Both ends are ties, and in both the even step is the one outside.
* `isNearest_ofMagnitude`: the closest step with a sign is the nearest of all finite doubles.
-/
import Mathlib.Algebra.Order.Field.Basic
import Mathlib.Algebra.Order.Field.Power
import Mathlib.Algebra.Order.Ring.Rat
import Mathlib.Tactic.Linarith
import Mathlib.Tactic.NormNum
import Mathlib.Tactic.Ring
import SyntaxTree.Decimal.Binary64

namespace SyntaxTree
namespace Binary64

/-! ## 1. Values -/

/-- Whether it is neither infinite nor NaN. -/
def isFinite (x : Binary64) : Bool := x.magnitude < infinityBits

/-- The value of a finite double. -/
def toRat (x : Binary64) : ℚ :=
  (if x.isNegative then -1 else 1) * (x.significand * 2 ^ x.exponent)

/-- **A double is the nearest to a number**: no finite double is closer, and if one of another value
is as close, the significand of the nearest is even. -/
structure IsNearest (q : ℚ) (x : Binary64) : Prop where
  finite : x.isFinite = true
  closest : ∀ y : Binary64, y.isFinite = true → |x.toRat - q| ≤ |y.toRat - q|
  even_of_tie : ∀ y : Binary64, y.isFinite = true → y.toRat ≠ x.toRat →
    |x.toRat - q| = |y.toRat - q| → Even x.significand

/-- The value of the bits of a magnitude. -/
def valueOf (n : Nat) : ℚ :=
  if n < leadingBit then n * 2 ^ (-1074 : ℤ)
  else (leadingBit + n % leadingBit : Nat) * 2 ^ ((n / leadingBit : Nat) - 1075 : ℤ)

/-- **On a stretch the values are the multiples of one power of two.**  Both ends of it belong to
the stretch, and the lowest one starts at zero. -/
theorem valueOf_add {e s : Nat} (hs : s ≤ 2 * leadingBit) (hlow : e = 0 ∨ leadingBit ≤ s) :
    valueOf (e * leadingBit + s) = s * 2 ^ (e - 1074 : ℤ) := by
  rcases Nat.lt_or_ge s leadingBit with hsmall | hlarge
  · obtain rfl : e = 0 := hlow.resolve_right (Nat.not_le.2 hsmall)
    rw [Nat.zero_mul, Nat.zero_add, valueOf, if_pos hsmall]
    rfl
  · rcases Nat.lt_or_ge s (2 * leadingBit) with hmid | htop
    · have hdiv : (e * leadingBit + s) / leadingBit = e + 1 := by unfold leadingBit at *; omega
      have hmod : leadingBit + (e * leadingBit + s) % leadingBit = s := by
        unfold leadingBit at *
        omega
      rw [valueOf, if_neg (by unfold leadingBit at *; omega), hdiv, hmod]
      congr 2
      push_cast
      ring
    · -- the upper end is the lower end of the next stretch
      obtain rfl : s = 2 * leadingBit := Nat.le_antisymm hs htop
      have hdiv : (e * leadingBit + 2 * leadingBit) / leadingBit = e + 2 := by
        unfold leadingBit
        omega
      have hmod : leadingBit + (e * leadingBit + 2 * leadingBit) % leadingBit = leadingBit := by
        unfold leadingBit
        omega
      rw [valueOf, if_neg (by unfold leadingBit; omega), hdiv, hmod]
      have hexponent : ((e + 2 : Nat) - 1075 : ℤ) = 1 + (e - 1074) := by
        push_cast
        ring
      rw [hexponent, zpow_one_add₀ two_ne_zero]
      push_cast
      ring

/-- Every magnitude lies on a stretch, below its upper end. -/
theorem exists_stretch (n : Nat) :
    ∃ e s : Nat, n = e * leadingBit + s ∧ s < 2 * leadingBit ∧ (e = 0 ∨ leadingBit ≤ s) := by
  rcases Nat.lt_or_ge n leadingBit with hsmall | hlarge
  · exact ⟨0, n, by omega, by omega, .inl rfl⟩
  · refine ⟨n / leadingBit - 1, leadingBit + n % leadingBit, ?_, ?_, .inr ?_⟩ <;>
      unfold leadingBit at * <;> omega

/-- **Larger bits stand for a larger value.** -/
theorem valueOf_strictMono : StrictMono valueOf := by
  refine strictMono_nat_of_lt_succ fun n => ?_
  obtain ⟨e, s, rfl, hs, hlow⟩ := exists_stretch n
  rw [Nat.add_assoc, valueOf_add hs.le hlow, valueOf_add hs (hlow.imp_right Nat.le_succ_of_le)]
  have hpos : (0 : ℚ) < 2 ^ (e - 1074 : ℤ) := zpow_pos two_pos _
  push_cast
  linarith

theorem valueOf_zero : valueOf 0 = 0 := by
  rw [valueOf, if_pos (by decide), Nat.cast_zero, zero_mul]

theorem valueOf_nonneg (n : Nat) : 0 ≤ valueOf n := by
  rw [← valueOf_zero]
  exact valueOf_strictMono.monotone (Nat.zero_le n)

theorem valueOf_one : valueOf 1 = 2 ^ (-1074 : ℤ) := by
  rw [valueOf, if_pos (by decide), Nat.cast_one, one_mul]

theorem valueOf_infinityBits : valueOf infinityBits = 2 ^ 1024 := by
  have hbits : infinityBits = 2045 * leadingBit + 2 * leadingBit := rfl
  have hunits : ((2 * leadingBit : Nat) : ℚ) = 2 ^ 53 := by norm_num [leadingBit]
  rw [hbits, valueOf_add le_rfl (.inr (by decide)), hunits]
  exact (pow_add 2 53 971).symm

theorem valueOf_largest : valueOf (infinityBits - 1) = 2 ^ 1024 - 2 ^ 971 := by
  have hbits : infinityBits - 1 = 2045 * leadingBit + (2 * leadingBit - 1) := rfl
  have hunits : ((2 * leadingBit - 1 : Nat) : ℚ) = 2 ^ 53 - 1 := by norm_num [leadingBit]
  rw [hbits, valueOf_add (by decide) (.inr (by decide)), hunits, sub_mul, one_mul]
  exact congrArg (· - _) (pow_add 2 53 971).symm

/-! ## 2. The closest step of a ladder -/

/-- A step of a ladder is the closest to a value: the value is not beyond the middle to any other
step, and in the middle only if the step is even. -/
structure Closest (v : Nat → ℚ) (r : ℚ) (n : Nat) : Prop where
  below : ∀ m < n, v m + v n ≤ 2 * r ∧ (v m + v n = 2 * r → Even n)
  above : ∀ m > n, 2 * r ≤ v n + v m ∧ (2 * r = v n + v m → Even n)

namespace Closest

variable {v : Nat → ℚ} {r : ℚ} {n k : Nat}

/-- **The two steps beside a step decide**: the others are further away. -/
theorem of_neighbours (hv : StrictMono v)
    (hbelow : ∀ k, n = k + 1 → v k + v n ≤ 2 * r ∧ (v k + v n = 2 * r → Even n))
    (habove : 2 * r ≤ v n + v (n + 1) ∧ (2 * r = v n + v (n + 1) → Even n)) : Closest v r n := by
  constructor
  · intro m hm
    obtain ⟨k, hk⟩ := Nat.exists_eq_succ_of_ne_zero (Nat.ne_zero_of_lt hm)
    have hmono := hv.monotone (Nat.le_of_lt_succ (hk ▸ hm))
    obtain ⟨hmid, heven⟩ := hbelow k hk
    exact ⟨by linarith, fun heq => heven (by linarith)⟩
  · intro m hm
    have hmono := hv.monotone (Nat.succ_le_of_lt hm)
    exact ⟨by linarith [habove.1], fun heq => habove.2 (by linarith [habove.1])⟩

theorem le_of_le (h : Closest v r n) (hv : StrictMono v) (hk : v k ≤ r) : k ≤ n := by
  by_contra hlt
  have hmid := (h.above k (Nat.lt_of_not_le hlt)).1
  have hmono := hv (Nat.lt_of_not_le hlt)
  linarith

theorem le_of_ge (h : Closest v r n) (hv : StrictMono v) (hk : r ≤ v k) : n ≤ k := by
  by_contra hlt
  have hmid := (h.below k (Nat.lt_of_not_le hlt)).1
  have hmono := hv (Nat.lt_of_not_le hlt)
  linarith

/-- **Up to the middle above an even step**, the middle included, the closest step is not above
it. -/
theorem le_iff_of_even (h : Closest v r n) (hv : StrictMono v) (hk : Even k) :
    n ≤ k ↔ 2 * r ≤ v k + v (k + 1) := by
  constructor
  · intro hle
    have hmid := (h.above (k + 1) (Nat.lt_succ_of_le hle)).1
    have hmono := hv.monotone hle
    linarith
  · intro hmid
    by_contra hlt
    obtain ⟨hge, heven⟩ := h.below k (Nat.lt_of_not_le hlt)
    have hmono := hv.monotone (Nat.lt_of_not_le hlt)
    obtain rfl : n = k + 1 := hv.injective (by linarith)
    exact (Nat.not_even_iff_odd.2 hk.add_one) (heven (by linarith))

/-- **From the middle above an odd step on**, the middle included, the closest step is above it. -/
theorem lt_iff_of_odd (h : Closest v r n) (hv : StrictMono v) (hk : Odd k) :
    k < n ↔ v k + v (k + 1) ≤ 2 * r := by
  constructor
  · intro hlt
    have hmid := (h.below k hlt).1
    have hmono := hv.monotone (Nat.succ_le_of_lt hlt)
    linarith
  · intro hmid
    by_contra hle
    obtain ⟨hge, heven⟩ := h.above (k + 1) (Nat.lt_succ_of_le (Nat.le_of_not_lt hle))
    have hmono := hv.monotone (Nat.le_of_not_lt hle)
    obtain rfl : n = k := hv.injective (by linarith)
    exact Nat.not_even_iff_odd.2 hk (heven (by linarith))

/-- No step is closer, and a step that is as close makes the closest one even. -/
theorem dist_le (h : Closest v r n) (hv : StrictMono v) {m : Nat} (hm : m ≠ n) :
    |v n - r| ≤ |v m - r| ∧ (|v n - r| = |v m - r| → Even n) := by
  rcases Nat.lt_or_gt_of_ne hm with hlt | hgt
  · obtain ⟨hmid, heven⟩ := h.below m hlt
    have hmono := hv hlt
    rw [abs_of_neg (show v m - r < 0 by linarith)]
    refine ⟨abs_le.2 ⟨by linarith, by linarith⟩, fun htie => ?_⟩
    rcases eq_or_eq_neg_of_abs_eq htie with heq | heq
    · exact heven (by linarith)
    · exact absurd hmono (by linarith)
  · obtain ⟨hmid, heven⟩ := h.above m hgt
    have hmono := hv hgt
    rw [abs_of_pos (show 0 < v m - r by linarith)]
    refine ⟨abs_le.2 ⟨by linarith, by linarith⟩, fun htie => ?_⟩
    rcases eq_or_eq_neg_of_abs_eq htie with heq | heq
    · exact absurd hmono (by linarith)
    · exact heven (by linarith)

end Closest

/-! ## 3. Rounding a quotient -/

/-- **The whole number nearest to a quotient**, the even one of two. -/
theorem closest_roundHalfEven (num : Nat) {den : Nat} (hden : 0 < den) :
    Closest (fun k => (k : ℚ)) (num / den) (roundHalfEven num den) := by
  have hpos : (0 : ℚ) < den := by exact_mod_cast hden
  obtain ⟨hlow, hhigh, htie⟩ : 2 * (roundHalfEven num den * den) ≤ 2 * num + den
      ∧ 2 * num ≤ 2 * (roundHalfEven num den * den) + den
      ∧ (2 * (roundHalfEven num den * den) = 2 * num + den
          ∨ 2 * num = 2 * (roundHalfEven num den * den) + den → Even (roundHalfEven num den)) := by
    have hnum := Nat.div_add_mod' num den
    have hrest := Nat.mod_lt num hden
    simp only [roundHalfEven, Nat.even_iff]
    split_ifs with hdown
    · omega
    · rw [Nat.add_mul]
      omega
  generalize roundHalfEven num den = s at *
  have hquot : 2 * ((num : ℚ) / den) = (2 * num : Nat) / den := by
    push_cast
    ring
  refine .of_neighbours Nat.strictMono_cast ?_ ?_
  · rintro k rfl
    rw [Nat.add_mul] at hlow htie
    rw [hquot, le_div_iff₀ hpos, eq_div_iff hpos.ne']
    norm_cast
    rw [Nat.add_mul, Nat.add_mul]
    exact ⟨by omega, fun heq => htie (.inl (by omega))⟩
  · rw [hquot, div_le_iff₀ hpos, div_eq_iff hpos.ne']
    norm_cast
    rw [Nat.add_mul, Nat.add_mul]
    exact ⟨by omega, fun heq => htie (.inr (by omega))⟩

/-- **Rounding on a stretch gives the closest step.**  The neighbours of the step that could be as
close lie on the same stretch: what is below the lower end of the stretch is further away than this
end, as the value itself is not below it. -/
theorem closest_of_stretch {r : ℚ} {e s : Nat}
    (hround : Closest (fun k => (k : ℚ)) (r / 2 ^ (e - 1074 : ℤ)) s)
    (hlow : e = 0 ∨ (leadingBit : ℚ) ≤ r / 2 ^ (e - 1074 : ℤ))
    (hhigh : r / 2 ^ (e - 1074 : ℤ) ≤ (2 * leadingBit : Nat)) :
    Closest valueOf r (e * leadingBit + s) := by
  have hs : s ≤ 2 * leadingBit := hround.le_of_ge Nat.strictMono_cast hhigh
  have hlow' : e = 0 ∨ leadingBit ≤ s := hlow.imp_right (hround.le_of_le Nat.strictMono_cast)
  have hstretch {k : Nat} (hk : k ≤ 2 * leadingBit) (hk' : e = 0 ∨ leadingBit ≤ k) :=
    valueOf_add hk hk'
  have hpos : (0 : ℚ) < 2 ^ (e - 1074 : ℤ) := zpow_pos two_pos _
  generalize (2 : ℚ) ^ (e - 1074 : ℤ) = unit at *
  obtain ⟨t, rfl⟩ : ∃ t, r = t * unit := ⟨r / unit, (div_mul_cancel₀ r hpos.ne').symm⟩
  rw [mul_div_cancel_right₀ _ hpos.ne'] at hround hlow hhigh
  have hvalue := hstretch hs hlow'
  have heven : Even s → Even (e * leadingBit + s) :=
    fun h => ((show Even leadingBit by decide).mul_left e).add h
  refine .of_neighbours valueOf_strictMono ?_ ?_
  · intro k hk
    rcases le_or_gt (s : ℚ) t with hle | hgt
    · have hmono := valueOf_strictMono (show k < e * leadingBit + s by omega)
      have hdown := mul_le_mul_of_nonneg_right hle hpos.le
      exact ⟨by linarith, fun heq => absurd heq (by linarith)⟩
    · -- the value is below the step, so that the step is not the lower end
      have hlower : e = 0 ∨ leadingBit < s :=
        hlow.imp_right fun h => by exact_mod_cast h.trans_lt hgt
      obtain ⟨below, rfl⟩ : ∃ below, s = below + 1 := by
        refine Nat.exists_eq_succ_of_ne_zero ?_
        rcases hlower with rfl | hlower <;> omega
      obtain rfl : k = e * leadingBit + below := by omega
      rw [hvalue, hstretch (k := below) (by omega) (hlower.imp_right Nat.le_of_lt_succ),
        ← add_mul, ← mul_assoc, mul_le_mul_iff_left₀ hpos, mul_left_inj' hpos.ne']
      exact (hround.below below below.lt_succ_self).imp_right (heven ∘ ·)
  · rcases le_or_gt t (s : ℚ) with hle | hgt
    · have hmono := valueOf_strictMono (e * leadingBit + s).lt_succ_self
      have hup := mul_le_mul_of_nonneg_right hle hpos.le
      exact ⟨by linarith, fun heq => absurd heq (by linarith)⟩
    · have hupper : s < 2 * leadingBit := by exact_mod_cast hgt.trans_le hhigh
      rw [hvalue, Nat.add_assoc, hstretch hupper (hlow'.imp_right Nat.le_succ_of_le),
        ← add_mul, ← mul_assoc, mul_le_mul_iff_left₀ hpos, mul_left_inj' hpos.ne']
      exact (hround.above (s + 1) s.lt_succ_self).imp_right (heven ∘ ·)

theorem atLeastPow_iff (num : Nat) {den : Nat} (hden : 0 < den) (power : Int) :
    atLeastPow num den power = true ↔ (2 : ℚ) ^ power ≤ num / den := by
  have hpos : (0 : ℚ) < den := by exact_mod_cast hden
  rw [le_div_iff₀ hpos, atLeastPow]
  split_ifs with hsign
  · obtain ⟨k, rfl⟩ := Int.eq_ofNat_of_zero_le hsign
    rw [decide_eq_true_eq, Int.toNat_natCast, Nat.shiftLeft_eq, mul_comm, zpow_natCast]
    exact_mod_cast Iff.rfl
  · obtain ⟨k, rfl⟩ := Int.exists_eq_neg_ofNat (show power ≤ 0 by omega)
    have hpow : (0 : ℚ) < 2 ^ k := pow_pos two_pos k
    rw [decide_eq_true_eq, neg_neg, Int.toNat_natCast, Nat.shiftLeft_eq, zpow_neg, zpow_natCast,
      inv_mul_le_iff₀ hpow, mul_comm]
    exact_mod_cast Iff.rfl

/-- **The largest power of two that a quotient reaches.**  The lengths of both numbers leave two
candidates. -/
theorem floorLog2_spec {num den : Nat} (hnum : 0 < num) (hden : 0 < den) :
    (2 : ℚ) ^ floorLog2 num den ≤ num / den ∧ (num : ℚ) / den < 2 ^ (floorLog2 num den + 1) := by
  have hpos : (0 : ℚ) < den := by exact_mod_cast hden
  have hnumLow : (2 : ℚ) ^ num.log2 ≤ num := by exact_mod_cast Nat.log2_self_le hnum.ne'
  have hnumHigh : (num : ℚ) < 2 ^ (num.log2 + 1) := by exact_mod_cast Nat.lt_log2_self
  have hdenLow : (2 : ℚ) ^ den.log2 ≤ den := by exact_mod_cast Nat.log2_self_le hden.ne'
  have hdenHigh : (den : ℚ) < 2 ^ (den.log2 + 1) := by exact_mod_cast Nat.lt_log2_self
  unfold floorLog2
  dsimp only
  split_ifs with hguess
  · refine ⟨(atLeastPow_iff num hden _).1 hguess, ?_⟩
    rw [div_lt_iff₀ hpos]
    calc (num : ℚ) < 2 ^ (num.log2 + 1) := hnumHigh
      _ = 2 ^ ((num.log2 : Int) - den.log2 + 1) * 2 ^ den.log2 := by
        rw [← zpow_natCast, ← zpow_natCast, ← zpow_add₀ two_ne_zero]
        congr 1
        push_cast
        ring
      _ ≤ 2 ^ ((num.log2 : Int) - den.log2 + 1) * den :=
        mul_le_mul_of_nonneg_left hdenLow (zpow_pos two_pos _).le
  · rw [atLeastPow_iff num hden, not_le] at hguess
    refine ⟨?_, by rwa [sub_add_cancel]⟩
    rw [le_div_iff₀ hpos]
    calc (2 : ℚ) ^ ((num.log2 : Int) - den.log2 - 1) * den
        ≤ 2 ^ ((num.log2 : Int) - den.log2 - 1) * 2 ^ (den.log2 + 1) :=
        mul_le_mul_of_nonneg_left hdenHigh.le (zpow_pos two_pos _).le
      _ = 2 ^ num.log2 := by
        rw [← zpow_natCast, ← zpow_natCast, ← zpow_add₀ two_ne_zero]
        congr 1
        push_cast
        ring
      _ ≤ num := hnumLow

/-- A quotient is rounded to a multiple of a power of two. -/
theorem closest_quantum (num : Nat) {den : Nat} (hden : 0 < den) (quantum : Int) :
    Closest (fun k => (k : ℚ)) (num / den / 2 ^ quantum)
      (if 0 ≤ quantum then roundHalfEven num (den <<< quantum.toNat)
        else roundHalfEven (num <<< (-quantum).toNat) den) := by
  split_ifs with hsign
  · obtain ⟨k, rfl⟩ := Int.eq_ofNat_of_zero_le hsign
    rw [Int.toNat_natCast, Nat.shiftLeft_eq]
    have hround := closest_roundHalfEven num (Nat.mul_pos hden (Nat.two_pow_pos k))
    push_cast at hround
    rwa [zpow_natCast, div_div]
  · obtain ⟨k, rfl⟩ := Int.exists_eq_neg_ofNat (show quantum ≤ 0 by omega)
    rw [neg_neg, Int.toNat_natCast, Nat.shiftLeft_eq]
    have hround := closest_roundHalfEven (num * 2 ^ k) hden
    push_cast at hround
    rwa [zpow_neg, zpow_natCast, div_inv_eq_mul, div_mul_eq_mul_div]

/-- **Rounding a quotient gives the closest step**, up to infinity. -/
theorem exists_closest (num : Nat) {den : Nat} (hden : 0 < den) :
    ∃ n : Nat, Closest valueOf (num / den) n ∧ roundMagnitude num den = min n infinityBits := by
  rcases Nat.eq_zero_or_pos num with rfl | hnum
  · refine ⟨0, ⟨fun m hm => absurd hm m.not_lt_zero, fun m hm => ⟨?_, fun _ => .zero⟩⟩, ?_⟩
    · rw [Nat.cast_zero, zero_div, mul_zero, valueOf_zero, zero_add]
      exact valueOf_nonneg m
    · rw [roundMagnitude, if_pos rfl, Nat.zero_min]
  · obtain ⟨hlow, hhigh⟩ := floorLog2_spec hnum hden
    rw [roundMagnitude, if_neg hnum.ne']
    generalize floorLog2 num den = reached at *
    dsimp only
    obtain ⟨e, he⟩ := Int.eq_ofNat_of_zero_le (show 0 ≤ max reached (-1022) + 1022 by omega)
    have hquantum : max reached (-1022) - 52 = (e : Int) - 1074 := by omega
    rw [he, hquantum, Int.toNat_natCast]
    have hunit : (0 : ℚ) < 2 ^ (e - 1074 : ℤ) := zpow_pos two_pos _
    have hleading : (leadingBit : ℚ) = 2 ^ (52 : ℤ) := by norm_num [leadingBit]
    refine ⟨_, closest_of_stretch (closest_quantum num hden _) ?_ ?_, rfl⟩
    · rcases Nat.eq_zero_or_pos e with hzero | hnormal
      · exact .inl hzero
      · refine .inr ?_
        rw [le_div_iff₀ hunit, hleading, ← zpow_add₀ two_ne_zero]
        rwa [show (52 + (e - 1074) : ℤ) = reached by omega]
    · rw [div_le_iff₀ hunit, Nat.cast_mul, hleading, Nat.cast_two, ← zpow_one_add₀ two_ne_zero,
        ← zpow_add₀ two_ne_zero]
      exact hhigh.le.trans (zpow_le_zpow_right₀ one_le_two (by omega))

/-! ## 4. Both ends of the range -/

/-- **What rounds to zero**: up to half of the smallest double. -/
theorem Closest.eq_zero_iff {r : ℚ} {n : Nat} (h : Closest valueOf r n) :
    n = 0 ↔ r ≤ 2 ^ (-1075 : ℤ) := by
  have hhalf : (2 : ℚ) ^ (-1074 : ℤ) = 2 * 2 ^ (-1075 : ℤ) := by
    rw [← zpow_one_add₀ two_ne_zero]
    rfl
  rw [← Nat.le_zero, h.le_iff_of_even valueOf_strictMono .zero, valueOf_zero, zero_add, zero_add,
    valueOf_one, hhalf, mul_le_mul_iff_right₀ two_pos]

/-- **What rounds past the largest double**: from the middle between it and 2 ^ 1024 on. -/
theorem Closest.infinityBits_le_iff {r : ℚ} {n : Nat} (h : Closest valueOf r n) :
    infinityBits ≤ n ↔ 2 ^ 1024 - 2 ^ 970 ≤ r := by
  have hsum : valueOf (infinityBits - 1) + valueOf (infinityBits - 1 + 1)
      = 2 * (2 ^ 1024 - 2 ^ 970) := by
    have hnext : infinityBits - 1 + 1 = infinityBits := rfl
    have hdouble : (2 : ℚ) ^ 971 = 2 * 2 ^ 970 := pow_succ' 2 970
    rw [hnext, valueOf_largest, valueOf_infinityBits, hdouble]
    generalize (2 : ℚ) ^ 1024 = limit, (2 : ℚ) ^ 970 = half
    ring
  rw [← mul_le_mul_iff_right₀ (two_pos : (0 : ℚ) < 2), ← hsum,
    ← h.lt_iff_of_odd valueOf_strictMono (by decide)]
  exact Iff.rfl

/-! ## 5. Doubles -/

theorem toNat_ofMagnitude (negative : Bool) {n : Nat} (h : n < signBit) :
    (ofMagnitude negative n).bits.toNat = (if negative then signBit else 0) + n := by
  rw [ofMagnitude, UInt64.toNat_ofNat', Nat.mod_eq_of_lt]
  unfold signBit at *
  split_ifs <;> omega

theorem magnitude_ofMagnitude (negative : Bool) {n : Nat} (h : n < signBit) :
    (ofMagnitude negative n).magnitude = n := by
  rw [magnitude, toNat_ofMagnitude negative h]
  unfold signBit at *
  split_ifs <;> omega

theorem magnitude_min (negative : Bool) (n : Nat) :
    (ofMagnitude negative (min n infinityBits)).magnitude = min n infinityBits :=
  magnitude_ofMagnitude negative
    ((Nat.min_le_right n infinityBits).trans_lt (show infinityBits < signBit by decide))

theorem Closest.isInfinite_iff {r : ℚ} {n : Nat} (h : Closest valueOf r n) (negative : Bool) :
    (ofMagnitude negative (min n infinityBits)).isInfinite = true ↔ 2 ^ 1024 - 2 ^ 970 ≤ r := by
  rw [isInfinite, magnitude_min, beq_iff_eq, min_eq_right_iff, h.infinityBits_le_iff]

theorem Closest.isZero_iff {r : ℚ} {n : Nat} (h : Closest valueOf r n) (negative : Bool) :
    (ofMagnitude negative (min n infinityBits)).isZero = true ↔ r ≤ 2 ^ (-1075 : ℤ) := by
  have hpos : infinityBits ≠ 0 := by decide
  rw [isZero, magnitude_min, beq_iff_eq, ← h.eq_zero_iff]
  omega

theorem isNegative_ofMagnitude (negative : Bool) {n : Nat} (h : n < signBit) :
    (ofMagnitude negative n).isNegative = negative := by
  rw [isNegative, toNat_ofMagnitude negative h]
  cases negative <;> simp [h]

theorem ofMagnitude_magnitude (x : Binary64) : ofMagnitude x.isNegative x.magnitude = x := by
  have hbits : x.bits.toNat < 2 * signBit := x.bits.toNat_lt
  have hmagnitude : x.magnitude < signBit := Nat.mod_lt _ (by decide)
  have hnat : (ofMagnitude x.isNegative x.magnitude).bits.toNat = x.bits.toNat := by
    rw [toNat_ofMagnitude _ hmagnitude]
    simp only [isNegative, magnitude, decide_eq_true_eq]
    unfold signBit at *
    split_ifs <;> omega
  exact congrArg Binary64.mk (UInt64.toNat_inj.1 hnat)

theorem toRat_eq (x : Binary64) :
    x.toRat = if x.isNegative then -valueOf x.magnitude else valueOf x.magnitude := by
  have hvalue : (x.significand : ℚ) * 2 ^ x.exponent = valueOf x.magnitude := by
    unfold significand exponent valueOf
    split_ifs <;> rfl
  rw [toRat, hvalue]
  split_ifs
  · exact neg_one_mul _
  · exact one_mul _

theorem abs_toRat (x : Binary64) : |x.toRat| = valueOf x.magnitude := by
  rw [toRat_eq]
  split_ifs
  · rw [abs_neg, abs_of_nonneg (valueOf_nonneg _)]
  · exact abs_of_nonneg (valueOf_nonneg _)

/-- The distance to a number is the distance of the sizes, once the number is turned by the sign. -/
theorem abs_toRat_sub (x : Binary64) (q : ℚ) :
    |x.toRat - q| = |valueOf x.magnitude - (if x.isNegative then -q else q)| := by
  rw [toRat_eq]
  split_ifs
  · rw [← abs_neg]
    congr 1
    ring
  · rfl

theorem even_significand_iff (x : Binary64) : Even x.significand ↔ Even x.magnitude := by
  unfold significand
  split_ifs
  · exact Iff.rfl
  · rw [Nat.even_iff, Nat.even_iff]
    unfold leadingBit
    omega

/-- **The closest step with a sign is the nearest of all finite doubles.**  A double of the other
sign is no closer than the one of the same size with this sign. -/
theorem isNearest_ofMagnitude {q : ℚ} {negative : Bool} {n : Nat} (h : Closest valueOf |q| n)
    (hsign : if negative then q ≤ 0 else 0 ≤ q) (hfinite : n < infinityBits) :
    IsNearest q (ofMagnitude negative n) := by
  have hbits : n < signBit := hfinite.trans (by decide)
  have hmagnitude := magnitude_ofMagnitude negative hbits
  have hnegative := isNegative_ofMagnitude negative hbits
  have hdist : |(ofMagnitude negative n).toRat - q| = |(valueOf n - |q|)| := by
    rw [abs_toRat_sub, hmagnitude, hnegative]
    split_ifs at hsign ⊢
    · rw [abs_of_nonpos hsign]
    · rw [abs_of_nonneg hsign]
  have hother (y : Binary64) : |(valueOf y.magnitude - |q|)| ≤ |y.toRat - q| := by
    rw [← abs_toRat]
    exact abs_abs_sub_abs_le y.toRat q
  refine ⟨by rw [isFinite, hmagnitude, decide_eq_true hfinite], fun y _ => ?_,
    fun y _ hne htie => ?_⟩
  · rw [hdist]
    by_cases hsame : y.magnitude = n
    · exact hsame ▸ hother y
    · exact (h.dist_le valueOf_strictMono hsame).1.trans (hother y)
  · rw [even_significand_iff, hmagnitude]
    by_cases hsame : y.magnitude = n
    · -- a double of the same size and the other sign is as close to zero alone
      have hopposite : y.toRat = -(ofMagnitude negative n).toRat := by
        have habs : |y.toRat| = |(ofMagnitude negative n).toRat| := by
          rw [abs_toRat, abs_toRat, hsame, hmagnitude]
        exact (abs_eq_abs.1 habs).resolve_left hne
      have hzero : q = 0 := by
        rw [hopposite] at htie hne
        rcases abs_eq_abs.1 htie with heq | heq
        · exact absurd (by linarith) hne
        · linarith
      have hle : n ≤ 0 := h.le_of_ge valueOf_strictMono (by rw [hzero, abs_zero, valueOf_zero])
      rw [Nat.le_zero.1 hle]
      exact .zero
    · obtain ⟨hle, heven⟩ := h.dist_le valueOf_strictMono hsame
      refine heven (le_antisymm hle ?_)
      rw [← hdist, htie]
      exact hother y

/-- What lies between two values that are as close is closer. -/
theorem abs_sub_lt_of_between {a b c t : ℚ} (hlow : a < c) (hhigh : c < b)
    (htie : |a - t| = |b - t|) : |c - t| < |a - t| := by
  rcases abs_eq_abs.1 htie with heq | heq
  · linarith
  · rw [abs_of_neg (show a - t < 0 by linarith), abs_lt]
    constructor <;> linarith

/-- **There is one nearest double of a sign.**  Two that are as close would both be even, and the
step between them would be closer. -/
theorem IsNearest.unique {q : ℚ} {x y : Binary64} (hx : IsNearest q x) (hy : IsNearest q y)
    (hsign : x.isNegative = y.isNegative) : x = y := by
  wlog hle : x.magnitude ≤ y.magnitude generalizing x y
  · exact (this hy hx hsign.symm (Nat.le_of_not_le hle)).symm
  rcases Nat.eq_or_lt_of_le hle with heq | hlt
  · rw [← ofMagnitude_magnitude x, hsign, heq, ofMagnitude_magnitude y]
  · exfalso
    have htie : |x.toRat - q| = |y.toRat - q| :=
      le_antisymm (hx.closest y hy.finite) (hy.closest x hx.finite)
    have hmono := valueOf_strictMono hlt
    have hne : y.toRat ≠ x.toRat := fun h => hmono.ne' (by rw [← abs_toRat, h, abs_toRat])
    have hevenX := (even_significand_iff x).1 (hx.even_of_tie y hy.finite hne htie)
    have hevenY := (even_significand_iff y).1 (hy.even_of_tie x hx.finite hne.symm htie.symm)
    have hbetween : x.magnitude + 1 < y.magnitude := by
      rw [Nat.even_iff] at hevenX hevenY
      omega
    have hfinite : y.magnitude < infinityBits := of_decide_eq_true hy.finite
    have hbits : x.magnitude + 1 < signBit :=
      hbetween.trans (hfinite.trans (show infinityBits < signBit by decide))
    have hmagnitude := magnitude_ofMagnitude x.isNegative hbits
    have hcloser := hx.closest (ofMagnitude x.isNegative (x.magnitude + 1))
      (by rw [isFinite, hmagnitude, decide_eq_true (hbetween.trans hfinite)])
    have hlow := valueOf_strictMono x.magnitude.lt_succ_self
    have hhigh := valueOf_strictMono hbetween
    rw [abs_toRat_sub, abs_toRat_sub y, ← hsign] at htie
    rw [abs_toRat_sub, abs_toRat_sub (ofMagnitude _ _), hmagnitude,
      isNegative_ofMagnitude _ hbits] at hcloser
    exact (abs_sub_lt_of_between hlow hhigh htie).not_ge hcloser

/-! ## 6. Decimals -/

/-- A decimal of many places before the point is beyond the largest double. -/
theorem le_of_large {mantissa places : Nat} (hmantissa : mantissa ≠ 0) (hplaces : 310 < places) :
    (2 : ℚ) ^ 1024 - 2 ^ 970 ≤ (mantissa * 10 ^ places : Nat) := by
  have hlarge : 2 ^ 1024 ≤ mantissa * 10 ^ places :=
    calc 2 ^ 1024 ≤ 10 ^ 311 := by decide +kernel
      _ ≤ 10 ^ places := Nat.pow_le_pow_right (by decide) hplaces
      _ ≤ mantissa * 10 ^ places := Nat.le_mul_of_pos_left _ (Nat.pos_of_ne_zero hmantissa)
  have hcast : (2 : ℚ) ^ 1024 ≤ (mantissa * 10 ^ places : Nat) := by exact_mod_cast hlarge
  have hpos : (0 : ℚ) < 2 ^ 970 := pow_pos two_pos _
  exact (sub_le_self _ hpos.le).trans hcast

/-- A decimal of many places behind the point is below a power of two: each place is worth three
bits. -/
theorem le_of_small {mantissa places : Nat} (bound : Nat)
    (hplaces : mantissa.log2 + bound < 3 * places) :
    (mantissa : ℚ) / (10 ^ places : Nat) ≤ 2 ^ (-bound : ℤ) := by
  have hlarge : mantissa * 2 ^ bound ≤ 10 ^ places :=
    calc mantissa * 2 ^ bound ≤ 2 ^ (mantissa.log2 + 1) * 2 ^ bound :=
        Nat.mul_le_mul_right _ Nat.lt_log2_self.le
      _ = 2 ^ (mantissa.log2 + 1 + bound) := (Nat.pow_add ..).symm
      _ ≤ 2 ^ (3 * places) := Nat.pow_le_pow_right (by decide) (by omega)
      _ = 8 ^ places := Nat.pow_mul ..
      _ ≤ 10 ^ places := Nat.pow_le_pow_left (by decide) places
  have hpos : (0 : ℚ) < (10 ^ places : Nat) := by exact_mod_cast Nat.pow_pos (by decide)
  rw [div_le_iff₀ hpos, zpow_neg, le_inv_mul_iff₀ (zpow_pos two_pos _), zpow_natCast, mul_comm]
  exact_mod_cast hlarge

/-- **A decimal is rounded to the closest step**, up to infinity.  What is settled by size alone
lies beyond the two ends of the range. -/
theorem exists_closest_ofDecimal (negative : Bool) (mantissa : Nat) (power : Int) :
    ∃ n : Nat, Closest valueOf (mantissa * 10 ^ power) n
      ∧ ofDecimal negative mantissa power = ofMagnitude negative (min n infinityBits) := by
  rcases Nat.eq_zero_or_pos mantissa with rfl | hmantissa
  · obtain ⟨n, hclosest, hround⟩ := exists_closest 0 Nat.one_pos
    rw [Nat.cast_zero, zero_div] at hclosest
    refine ⟨n, by rwa [Nat.cast_zero, zero_mul], ?_⟩
    rw [← hround]
    rfl
  · rw [ofDecimal, if_neg hmantissa.ne']
    by_cases hsign : 0 ≤ power
    · obtain ⟨k, rfl⟩ := Int.eq_ofNat_of_zero_le hsign
      obtain ⟨n, hclosest, hround⟩ := exists_closest (mantissa * 10 ^ k) Nat.one_pos
      have hvalue : (mantissa : ℚ) * 10 ^ (k : ℤ) = (mantissa * 10 ^ k : Nat) := by
        rw [zpow_natCast]
        norm_cast
      rw [Nat.cast_one, div_one, ← hvalue] at hclosest
      refine ⟨n, hclosest, ?_⟩
      rw [if_pos hsign, Int.toNat_natCast]
      split_ifs with hlarge
      · have hbeyond : 2 ^ 1024 - 2 ^ 970 ≤ (mantissa : ℚ) * 10 ^ (k : ℤ) :=
          hvalue ▸ le_of_large hmantissa.ne' (by omega)
        rw [Nat.min_eq_right (hclosest.infinityBits_le_iff.2 hbeyond)]
      · rw [← hround]
        rfl
    · obtain ⟨k, rfl⟩ := Int.exists_eq_neg_ofNat (show power ≤ 0 by omega)
      have hden : 0 < 10 ^ k := Nat.pow_pos (by decide)
      obtain ⟨n, hclosest, hround⟩ := exists_closest mantissa hden
      have hvalue : (mantissa : ℚ) * 10 ^ (-k : ℤ) = mantissa / (10 ^ k : Nat) := by
        rw [zpow_neg, zpow_natCast, ← div_eq_mul_inv]
        norm_cast
      rw [← hvalue] at hclosest
      refine ⟨n, hclosest, ?_⟩
      simp only [if_neg hsign, neg_neg, Int.toNat_natCast]
      split_ifs with hsmall
      · have hbelow : (mantissa : ℚ) * 10 ^ (-k : ℤ) ≤ 2 ^ (-1075 : ℤ) :=
          hvalue ▸ le_of_small 1075 (by omega)
        rw [hclosest.eq_zero_iff.2 hbelow, Nat.zero_min]
      · rw [← hround]
        rfl

end Binary64
end SyntaxTree
