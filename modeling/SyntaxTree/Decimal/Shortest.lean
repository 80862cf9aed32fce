/-
# The fewest digits that read back

Every finite double has decimals that round to it, and `shortest` finds one with the fewest
digits, and of those the nearest.  For one digit, two digits and so on it tries the two
neighbours of the value on that decimal grid; seventeen digits are always enough.  When the
value lies exactly between two such neighbours, the caller says which one to take.
-/
import SyntaxTree.Decimal.Binary64

namespace SyntaxTree
namespace Decimal

/-! ## 1. Decimals and doubles as exact numbers -/

/-- Which of two equally near decimals to take. -/
inductive Tie where
  | up
  | toEven
  deriving DecidableEq, Repr

/-- The number `digits * 10 ^ power`. -/
structure Scientific where
  digits : Nat
  power : Int
  deriving DecidableEq, Repr

/-- A positive quotient. -/
structure Ratio where
  num : Nat
  den : Nat

/-- The number `m * 2 ^ power`. -/
def Ratio.ofBinary (m : Nat) (power : Int) : Ratio :=
  if 0 ≤ power then ⟨m <<< power.toNat, 1⟩ else ⟨m, 1 <<< (-power).toNat⟩

/-- The quotient divided by a power of ten. -/
def Ratio.shift (r : Ratio) (power : Int) : Ratio :=
  if 0 ≤ power then ⟨r.num, r.den * Nat.pow 10 power.toNat⟩
  else ⟨r.num * Nat.pow 10 (-power).toNat, r.den⟩

/-- The largest power of ten that a positive quotient reaches, found from its logarithm to
base two, which misses by at most one. -/
def Ratio.floorLog10 (r : Ratio) : Int :=
  let guess := Int.fdiv (Binary64.floorLog2 r.num r.den * 30103) 100000
  let reaches (power : Int) : Bool := (r.shift power).den ≤ (r.shift power).num
  if !reaches guess then guess - 1
  else if reaches (guess + 1) then guess + 1
  else guess

/-! ## 2. The rounding interval -/

/-- The numbers that round to a double: the ends, and whether they belong to it. -/
structure Interval where
  low : Ratio
  value : Ratio
  high : Ratio
  closed : Bool

/-- The interval of a positive finite double.  It reaches half a quantum to either side,
and half of that below a power of two, where the quantum changes. -/
def Interval.ofBinary64 (x : Binary64) : Interval :=
  let m := x.significand
  let power := x.exponent - 2
  let belowPowerOfTwo := m == Binary64.leadingBit && 2 * Binary64.leadingBit ≤ x.magnitude
  { low := .ofBinary (4 * m - (if belowPowerOfTwo then 1 else 2)) power
    value := .ofBinary (4 * m) power
    high := .ofBinary (4 * m + 2) power
    closed := m % 2 == 0 }

/-- Whether `digits * 10 ^ power` lies in the interval. -/
def Interval.contains (i : Interval) (digits : Nat) (power : Int) : Bool :=
  let low := i.low.shift power
  let high := i.high.shift power
  if i.closed then low.num ≤ digits * low.den && digits * high.den ≤ high.num
  else low.num < digits * low.den && digits * high.den < high.num

/-! ## 3. The search -/

/-- The better of the two neighbours of the value on the grid of a power of ten, of those
that lie in the interval. -/
def Interval.onGrid (i : Interval) (tie : Tie) (power : Int) : Option Nat :=
  let value := i.value.shift power
  let below := value.num / value.den
  let rest := value.num % value.den
  let above := below + 1
  match i.contains below power && below != 0, i.contains above power with
  | false, false => none
  | true, false => some below
  | false, true => some above
  | true, true =>
    if 2 * rest < value.den then some below
    else if value.den < 2 * rest then some above
    else
      match tie with
      | .up => some above
      | .toEven => if below % 2 == 0 then some below else some above

/-- Tries grids of decreasing power, `count` of them at most. -/
def Interval.search (i : Interval) (tie : Tie) : Nat → Int → Scientific
  | 0, power => ⟨(i.value.shift power).num / (i.value.shift power).den, power⟩
  | count + 1, power =>
    match i.onGrid tie power with
    | some digits => ⟨digits, power⟩
    | none => i.search tie count (power - 1)

/-- The same number without trailing zero digits. -/
def Scientific.normalize (s : Scientific) : Scientific :=
  if h : s.digits ≠ 0 ∧ s.digits % 10 = 0 then
    Scientific.normalize ⟨s.digits / 10, s.power + 1⟩
  else s
termination_by s.digits
decreasing_by
  show s.digits / 10 < s.digits
  omega

/-- The decimal with the fewest digits that rounds to a positive finite double. -/
def shortest (tie : Tie) (x : Binary64) : Scientific :=
  let interval := Interval.ofBinary64 x
  (interval.search tie 17 interval.value.floorLog10).normalize

end Decimal
end SyntaxTree
