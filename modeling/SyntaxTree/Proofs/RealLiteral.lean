/-
# What a real literal gives

A literal is read from its longest start that is a number, and from nothing else in it.

* `longestNumber_iff`: the start that is found is the longest of all starts that are numbers, and
  one is found if there is any.  So the conversion is given a number every time and does not fail.
* `rounded_outcome`: a decimal gives the nearest double, or one of two faults.  The faults are told
  from the outcome of the rounding, an infinity or a zero; `Closest.infinityBits_le_iff` and
  `Closest.eq_zero_iff` turn this into the exact value of the decimal.  A zero is a fault only if
  the decimal is not zero, and this is asked of its digits (`decimalNumber_eq_zero_iff`).
-/
import Mathlib.Tactic.FieldSimp
import Mathlib.Tactic.Positivity
import SyntaxTree.Proofs.NearestDouble
import SyntaxTree.Proofs.NumeralGrammar
import SyntaxTree.Proofs.TextRoundTrip

namespace SyntaxTree
namespace Literal

/-! ## 1. The longest number -/

/-- A text is a number. -/
def IsNumber (cs : List Char) : Prop := ∃ numeral : Numeral, numeral.SpelledBy cs

/-- A text is the longest start of another that is a number. -/
structure LongestNumber (cs start : List Char) : Prop where
  starts : start <+: cs
  number : IsNumber start
  longest : ∀ other : List Char, other <+: cs → IsNumber other → other.length ≤ start.length

theorem length_le_of_isNumber {cs start : List Char} (hstart : start <+: cs)
    (hnumber : IsNumber start) : start.length ≤ (Opening.scan cs).length := by
  obtain ⟨rest, rfl⟩ := hstart
  obtain ⟨numeral, hspelled⟩ := hnumber
  exact Opening.length_le_scan hspelled rest

theorem Numeral.SpelledBy.length_pos {numeral : Numeral} {cs : List Char}
    (h : numeral.SpelledBy cs) : 0 < cs.length := by
  obtain ⟨-, hbody⟩ := h
  obtain ⟨c, rest, rfl, -⟩ := hbody.head
  rw [List.length_append, List.length_cons]
  omega

/-- **Nothing is found exactly if no start is a number.** -/
theorem scan_length_eq_zero_iff {cs : List Char} :
    (Opening.scan cs).length = 0 ↔ ∀ start : List Char, start <+: cs → ¬ IsNumber start := by
  constructor
  · intro hzero start hstart hnumber
    have hle := length_le_of_isNumber hstart hnumber
    obtain ⟨numeral, hspelled⟩ := hnumber
    have hpos := hspelled.length_pos
    omega
  · intro hnone
    by_contra hne
    obtain ⟨numeral, hspelled, -, -⟩ := Opening.scan_spelled hne
    exact hnone _ (List.take_prefix _ cs) ⟨numeral, hspelled⟩

/-- **What is found is the longest number**, and nothing else is. -/
theorem longestNumber_iff {cs start : List Char} :
    LongestNumber cs start ↔
      (Opening.scan cs).length ≠ 0 ∧ start = cs.take (Opening.scan cs).length := by
  have hlength : (cs.take (Opening.scan cs).length).length = (Opening.scan cs).length :=
    List.length_take_of_le (Opening.scan_length_le cs)
  constructor
  · intro h
    have hle := length_le_of_isNumber h.starts h.number
    have hne : (Opening.scan cs).length ≠ 0 :=
      fun hzero => scan_length_eq_zero_iff.1 hzero start h.starts h.number
    obtain ⟨numeral, hspelled, -, -⟩ := Opening.scan_spelled hne
    have hge := h.longest _ (List.take_prefix _ cs) ⟨numeral, hspelled⟩
    refine ⟨hne, ?_⟩
    rw [List.prefix_iff_eq_take.1 h.starts, show start.length = (Opening.scan cs).length by omega]
  · rintro ⟨hne, rfl⟩
    obtain ⟨numeral, hspelled, -, -⟩ := Opening.scan_spelled hne
    refine ⟨List.take_prefix _ cs, ⟨numeral, hspelled⟩, fun other hother hnumber => ?_⟩
    rw [hlength]
    exact length_le_of_isNumber hother hnumber

theorem LongestNumber.scan_length {cs start : List Char} (h : LongestNumber cs start) :
    (Opening.scan cs).length = start.length := by
  rw [(longestNumber_iff.1 h).2, List.length_take_of_le (Opening.scan_length_le cs)]

/-! ## 2. Numbers are ASCII

So the number of characters of a number is also the number of its bytes. -/

/-- All characters are ASCII. -/
def AllAscii (cs : List Char) : Prop := ∀ c ∈ cs, c.toNat < 0x80

theorem ascii_of_all {cs : List Char} (h : (cs.all fun c => c.toNat < 0x80) = true) : AllAscii cs :=
  fun c hc => of_decide_eq_true (List.all_eq_true.1 h c hc)

theorem AllAscii.append {cs ds : List Char} (hcs : AllAscii cs) (hds : AllAscii ds) :
    AllAscii (cs ++ ds) :=
  List.forall_mem_append.2 ⟨hcs, hds⟩

theorem AllAscii.cons {c : Char} {cs : List Char} (hc : c.toNat < 0x80) (hcs : AllAscii cs) :
    AllAscii (c :: cs) :=
  List.forall_mem_cons.2 ⟨hc, hcs⟩

theorem AllAscii.length_ofChars {cs : List Char} (h : AllAscii cs) :
    (Utf8.ofChars cs).length = cs.length := by
  induction cs with
  | nil => rfl
  | cons c rest ih =>
    rw [Utf8.ofChars, List.flatMap_cons, List.length_append,
      Utf8.ofChar_one (h c List.mem_cons_self), List.length_cons, Nat.add_comm]
    exact congrArg (· + 1) (ih fun d hd => h d (List.mem_cons_of_mem c hd))

theorem DigitRun.ascii {digits : List Char} (h : DigitRun digits) : AllAscii digits := by
  intro c hc
  have := isDigit_iff.1 (h c hc)
  omega

/-- A word in any case of letters is ASCII, since lower case keeps what is not. -/
theorem ascii_of_map_toLower {cs word : List Char} (h : cs.map Char.toLower = word)
    (hword : (word.all fun c => c.toNat < 0x80) = true) : AllAscii cs := by
  intro c hc
  have hlower : c.toLower.toNat < 0x80 := ascii_of_all hword _ (h ▸ List.mem_map_of_mem hc)
  rcases toLower_cases c with hsame | ⟨-, hhigh, -⟩
  · rwa [hsame] at hlower
  · omega

theorem Signed.ascii {negative : Bool} {sign : List Char} (h : Signed negative sign) :
    AllAscii sign := by
  cases h <;> exact ascii_of_all (by decide)

theorem Exponential.ascii {power : Int} {exponent : List Char} (h : Exponential power exponent) :
    AllAscii exponent := by
  cases h with
  | none => exact fun c hc => absurd hc List.not_mem_nil
  | some hmark hsign hdigits _ =>
    refine .cons ?_ (hsign.ascii.append hdigits.ascii)
    rcases hmark with rfl | rfl <;> decide

theorem Mantissa.ascii {whole fraction mantissa : List Char}
    (h : Mantissa whole fraction mantissa) : AllAscii mantissa := by
  cases h with
  | whole hwhole _ => exact hwhole.ascii
  | pointed hwhole hfraction _ => exact hwhole.ascii.append (.cons (by decide) hfraction.ascii)

theorem Numeral.SpelledBy.ascii {numeral : Numeral} {cs : List Char} (h : numeral.SpelledBy cs) :
    AllAscii cs := by
  obtain ⟨hsign, hbody⟩ := h
  refine hsign.ascii.append ?_
  cases hbody with
  | infinity h =>
    exact h.elim (ascii_of_map_toLower · (by decide)) (ascii_of_map_toLower · (by decide))
  | nan h => exact ascii_of_map_toLower h (by decide)
  | decimal hmantissa hexponent => exact hmantissa.ascii.append hexponent.ascii

/-! ## 3. The exact value of a decimal -/

/-- The value of digits before and after the point, and of the exponent. -/
def exactValue (negative : Bool) (whole fraction : List Char) (power : Int) : ℚ :=
  (if negative then -1 else 1)
    * ((decimalNumber whole + decimalNumber fraction / 10 ^ fraction.length) * 10 ^ power)

theorem decimalNumber_append (whole fraction : List Char) :
    decimalNumber (whole ++ fraction)
      = decimalNumber whole * 10 ^ fraction.length + decimalNumber fraction := by
  simp only [decimalNumber, denoted, List.map_append, List.reverse_append, Nat.ofDigits_append,
    List.length_reverse, List.length_map]
  ring

/-- **The size of a decimal** is its digits without the point, moved by the places behind it. -/
theorem abs_exactValue (negative : Bool) (whole fraction : List Char) (power : Int) :
    |exactValue negative whole fraction power|
      = Decimal.value (whole ++ fraction) * 10 ^ (power - fraction.length) := by
  have hten : (10 : ℚ) ≠ 0 := by norm_num
  have hsize :
      (decimalNumber whole + decimalNumber fraction / 10 ^ fraction.length : ℚ) * 10 ^ power
        = Decimal.value (whole ++ fraction) * 10 ^ (power - fraction.length) := by
    rw [value_eq_decimalNumber, decimalNumber_append, zpow_sub₀ hten, zpow_natCast]
    push_cast
    field_simp
  have hnonneg : (0 : ℚ) ≤ Decimal.value (whole ++ fraction) * 10 ^ (power - fraction.length) := by
    positivity
  rw [exactValue, hsize, abs_mul, abs_of_nonneg hnonneg]
  split_ifs <;> simp

theorem exactValue_sign (negative : Bool) (whole fraction : List Char) (power : Int) :
    if negative then exactValue negative whole fraction power ≤ 0
      else 0 ≤ exactValue negative whole fraction power := by
  have hnonneg : (0 : ℚ)
      ≤ (decimalNumber whole + decimalNumber fraction / 10 ^ fraction.length) * 10 ^ power := by
    positivity
  unfold exactValue
  split_ifs <;> linarith

theorem placed_eq_zero_iff {total : Nat} {digits : List Nat} :
    placed 10 total digits = 0 ↔ total = 0 ∧ ∀ d ∈ digits, d = 0 := by
  induction digits generalizing total with
  | nil => simp [placed_nil]
  | cons d rest ih =>
    rw [placed_cons, ih, List.forall_mem_cons]
    constructor
    · rintro ⟨hsum, hrest⟩
      exact ⟨by omega, by omega, hrest⟩
    · rintro ⟨rfl, rfl, hrest⟩
      exact ⟨rfl, hrest⟩

/-- **Digits denote zero exactly if none of them is another digit.** -/
theorem decimalNumber_eq_zero_iff {digits : List Char} (hrun : DigitRun digits) :
    decimalNumber digits = 0 ↔ (digits.any fun c => '1' ≤ c && c ≤ '9') = false := by
  have hdigit : ∀ c ∈ digits, c.toNat - 48 = 0 ↔ ¬ ('1' ≤ c && c ≤ '9') = true := by
    intro c hc
    have hrange := isDigit_iff.1 (hrun c hc)
    have hone : '1'.toNat = 49 := rfl
    have hnine : '9'.toNat = 57 := rfl
    rw [between_iff]
    omega
  rw [decimalNumber, ← placed_zero, placed_eq_zero_iff, List.any_eq_false, List.forall_mem_map]
  exact ⟨fun h c hc => (hdigit c hc).1 (h.2 c hc),
    fun h => ⟨rfl, fun c hc => (hdigit c hc).2 (h c hc)⟩⟩

/-- The scan sees whether a decimal is zero. -/
theorem isNonzero_iff (negative : Bool) {whole fraction : List Char} (power : Int)
    (hwhole : DigitRun whole) (hfraction : DigitRun fraction) :
    (Magnitude.decimal whole fraction power).isNonzero = true
      ↔ 0 < |exactValue negative whole fraction power| := by
  have hdigits := decimalNumber_eq_zero_iff (List.forall_mem_append.2 ⟨hwhole, hfraction⟩)
  have hscale : (0 : ℚ) < 10 ^ (power - fraction.length : ℤ) := zpow_pos (by norm_num) _
  rw [abs_exactValue, mul_pos_iff_of_pos_right hscale, Nat.cast_pos, Nat.pos_iff_ne_zero,
    value_eq_decimalNumber, ne_eq, hdigits, Bool.not_eq_false]
  rfl

/-! ## 4. The outcome of a number -/

/-- What reading a number gives, the literal quoted in a fault. -/
def Numeral.outcome (numeral : Numeral) (shown : String) : Except LiteralError Binary64 :=
  if numeral.toBinary64.isInfinite && !numeral.magnitude.isWord then .error (.realOverflow shown)
  else if numeral.toBinary64.isZero && numeral.magnitude.isNonzero then
    .error (.realUnderflow shown)
  else .ok numeral.toBinary64

/-- The characters of a literal from the first on that is not blank. -/
def unblanked (text : List UInt8) : List Char := dropBlanks (Lossy.chars text)

theorem real_of_none {text : List UInt8} (h : (Opening.scan (unblanked text)).length = 0) :
    real text = .error (.notAReal (Lossy.text text)) :=
  if_pos h

/-- **A literal gives what its longest number gives.**  The conversion gets a number, so that it
does not fail, and what the scan says of the number is true of what is converted. -/
theorem real_of_longestNumber {text : List UInt8} {start : List Char} {numeral : Numeral}
    (h : LongestNumber (unblanked text) start) (hspelled : numeral.SpelledBy start) :
    real text = numeral.outcome (Lossy.text text) := by
  obtain ⟨hne, rfl⟩ := longestNumber_iff.1 h
  obtain ⟨found, hfound, hnamed, hnonzero⟩ := Opening.scan_spelled hne
  have hread := Numeral.ofChars?_eq_some_iff.2 hspelled
  obtain rfl : found = numeral :=
    Option.some.inj ((Numeral.ofChars?_eq_some_iff.2 hfound).symm.trans hread)
  unfold unblanked at hne hread hnamed hnonzero
  simp only [real, if_neg hne, hread, hnamed, hnonzero, Numeral.outcome]

/-- **What a decimal of an exact value gives**: one of two faults at the ends of the range, and
otherwise the nearest double. -/
structure Rounded (q : ℚ) (negative : Bool) (shown : String)
    (result : Except LiteralError Binary64) : Prop where
  overflow : result = .error (.realOverflow shown) ↔ 2 ^ 1024 - 2 ^ 970 ≤ |q|
  underflow : result = .error (.realUnderflow shown) ↔ 0 < |q| ∧ |q| ≤ 2 ^ (-1075 : ℤ)
  nearest : |q| < 2 ^ 1024 - 2 ^ 970 → ¬ (0 < |q| ∧ |q| ≤ 2 ^ (-1075 : ℤ)) →
    ∃ x : Binary64, result = .ok x ∧ x.isNegative = negative ∧ x.IsNearest q
      ∧ (∀ y : Binary64, y.isNegative = negative → y.IsNearest q → y = x)
      ∧ (x.isZero = true → q = 0)

/-- **A decimal gives the nearest double of its exact value, or the fault of its range.** -/
theorem rounded_outcome (negative : Bool) {whole fraction : List Char} (power : Int)
    (hwhole : DigitRun whole) (hfraction : DigitRun fraction) (shown : String) :
    Rounded (exactValue negative whole fraction power) negative shown
      (Numeral.outcome ⟨negative, .decimal whole fraction power⟩ shown) := by
  obtain ⟨n, hclosest, hvalue⟩ := Binary64.exists_closest_ofDecimal negative
    (Decimal.value (whole ++ fraction)) (power - fraction.length)
  have hsign := exactValue_sign negative whole fraction power
  have hnonzero := isNonzero_iff negative power hwhole hfraction
  rw [← abs_exactValue negative] at hclosest
  have hinfinite := hclosest.isInfinite_iff negative
  have hzero := hclosest.isZero_iff negative
  generalize exactValue negative whole fraction power = q at *
  have hoverflow : 2 ^ 1024 - 2 ^ 970 ≤ |q| → ¬ |q| ≤ 2 ^ (-1075 : ℤ) := by
    rw [← hclosest.infinityBits_le_iff, ← hclosest.eq_zero_iff]
    rintro hle rfl
    exact absurd hle (by decide)
  simp only [Numeral.outcome, Numeral.toBinary64, hvalue, Magnitude.isWord, Bool.not_false,
    Bool.and_true, Bool.and_eq_true, hinfinite, hzero, hnonzero]
  split_ifs with hlarge hsmall
  · exact ⟨⟨fun _ => hlarge, fun _ => rfl⟩, ⟨nofun, fun h => absurd h.2 (hoverflow hlarge)⟩,
      fun hlt => absurd hlarge hlt.not_ge⟩
  · exact ⟨⟨nofun, fun h => absurd h hlarge⟩, ⟨fun _ => hsmall.symm, fun _ => rfl⟩,
      fun _ hin => absurd hsmall.symm hin⟩
  · refine ⟨⟨nofun, fun h => absurd h hlarge⟩, ⟨nofun, fun h => absurd h.symm hsmall⟩,
      fun _ _ => ⟨_, rfl, ?_⟩⟩
    have hfinite : n < Binary64.infinityBits :=
      Nat.lt_of_not_le fun h => hlarge (hclosest.infinityBits_le_iff.1 h)
    have hnearest := Binary64.isNearest_ofMagnitude hclosest hsign hfinite
    have hbits : n < Binary64.signBit := hfinite.trans (by decide)
    have hnegative := Binary64.isNegative_ofMagnitude negative hbits
    rw [Nat.min_eq_left hfinite.le] at hzero ⊢
    refine ⟨hnegative, hnearest, fun y hy hy' => hy'.unique hnearest (hy.trans hnegative.symm),
      fun hx => ?_⟩
    by_contra hne
    exact hsmall ⟨hzero.1 hx, abs_pos.2 hne⟩

/-- **What a number gives**, the literal quoted in a fault: a word the double that it names, and a
decimal its exact value rounded. -/
def Numeral.Gives (shown : String) (result : Except LiteralError Binary64) : Numeral → Prop
  | ⟨negative, .infinity⟩ =>
    ∃ x : Binary64, result = .ok x ∧ x.isInfinite = true ∧ x.isNegative = negative
  | ⟨negative, .nan⟩ => ∃ x : Binary64, result = .ok x ∧ x.isNaN = true ∧ x.isNegative = negative
  | ⟨negative, .decimal whole fraction power⟩ =>
    Rounded (exactValue negative whole fraction power) negative shown result

/-- A word is never a fault: it may be infinite, and it is not zero. -/
theorem Numeral.outcome_of_isWord {numeral : Numeral} {bits : Nat} (shown : String)
    (hword : numeral.magnitude.isWord = true)
    (hvalue : numeral.toBinary64 = .ofMagnitude numeral.negative bits) (hpos : 0 < bits)
    (hbits : bits < Binary64.signBit) :
    numeral.outcome shown = .ok (.ofMagnitude numeral.negative bits) := by
  have hzero : (Binary64.ofMagnitude numeral.negative bits).isZero = false := by
    rw [Binary64.isZero, Binary64.magnitude_ofMagnitude _ hbits, beq_eq_false_iff_ne]
    exact hpos.ne'
  simp [Numeral.outcome, hword, hvalue, hzero]

theorem Numeral.gives_outcome {numeral : Numeral} {cs : List Char} (h : numeral.SpelledBy cs)
    (shown : String) : numeral.Gives shown (numeral.outcome shown) := by
  obtain ⟨-, hbody⟩ := h
  rename_i negative _ _ _
  cases hbody with
  | infinity _ =>
    have hbits : Binary64.infinityBits < Binary64.signBit := by decide
    refine ⟨_, outcome_of_isWord shown rfl rfl (by decide) hbits, ?_,
      Binary64.isNegative_ofMagnitude negative hbits⟩
    rw [Binary64.isInfinite, Binary64.magnitude_ofMagnitude negative hbits, beq_self_eq_true]
  | nan _ =>
    have hbits : Binary64.nanBits < Binary64.signBit := by decide
    refine ⟨_, outcome_of_isWord shown rfl rfl (by decide) hbits, ?_,
      Binary64.isNegative_ofMagnitude negative hbits⟩
    rw [Binary64.isNaN, Binary64.magnitude_ofMagnitude negative hbits]
    decide
  | decimal hmantissa _ =>
    cases hmantissa with
    | whole hwhole _ => exact rounded_outcome negative _ hwhole (by simp [DigitRun]) shown
    | pointed hwhole hfraction _ => exact rounded_outcome negative _ hwhole hfraction shown

/-- **The text of a literal is quoted and otherwise without effect**, once its longest number is
known. -/
theorem Numeral.outcome_ok_iff (numeral : Numeral) (shown other : String) (x : Binary64) :
    numeral.outcome shown = .ok x ↔ numeral.outcome other = .ok x := by
  unfold Numeral.outcome
  split_ifs <;> simp

/-- Reading a number is no failure of the conversion. -/
theorem Numeral.outcome_ne_notAReal (numeral : Numeral) (shown other : String) :
    numeral.outcome shown ≠ .error (.notAReal other) := by
  unfold Numeral.outcome
  split_ifs <;> simp

/-! ## 5. The literal -/

/-- **A literal is read from its longest start that is a number, and its faults are exact.**

The scan finds this start, by characters and by bytes alike, and zero if there is none; the literal
is no real exactly if there is none.  Otherwise the conversion gives the number that the grammar
says, what follows the start has no effect on the value, and the outcome is that of the number: a
word names a double, and a decimal gives the nearest double unless its exact value rounds past the
largest one or, without being zero, to zero. -/
theorem real_of_longest_start (text : List UInt8) :
    ((Opening.scan (unblanked text)).length = 0
        ↔ ∀ start : List Char, start <+: unblanked text → ¬ IsNumber start)
      ∧ (real text = .error (.notAReal (Lossy.text text))
        ↔ ∀ start : List Char, start <+: unblanked text → ¬ IsNumber start)
      ∧ ((∃ start : List Char, start <+: unblanked text ∧ IsNumber start) →
        ∃ start : List Char, LongestNumber (unblanked text) start)
      ∧ ∀ (start : List Char) (numeral : Numeral), LongestNumber (unblanked text) start →
        numeral.SpelledBy start →
        (Opening.scan (unblanked text)).length = start.length
          ∧ (Utf8.ofChars start).length = start.length
          ∧ Numeral.ofChars? start = some numeral
          ∧ numeral.Gives (Lossy.text text) (real text)
          ∧ ∀ (other : List UInt8) (x : Binary64), LongestNumber (unblanked other) start →
            (real other = .ok x ↔ real text = .ok x) := by
  refine ⟨scan_length_eq_zero_iff, ?_, ?_, fun start numeral hstart hspelled => ?_⟩
  · rw [← scan_length_eq_zero_iff]
    refine ⟨fun herror => ?_, real_of_none⟩
    by_contra hne
    have hstart := longestNumber_iff.2 ⟨hne, rfl⟩
    obtain ⟨numeral, hspelled⟩ := hstart.number
    rw [real_of_longestNumber hstart hspelled] at herror
    exact numeral.outcome_ne_notAReal _ _ herror
  · rintro ⟨start, hstart, hnumber⟩
    have hne : (Opening.scan (unblanked text)).length ≠ 0 :=
      fun hzero => scan_length_eq_zero_iff.1 hzero start hstart hnumber
    exact ⟨_, longestNumber_iff.2 ⟨hne, rfl⟩⟩
  · refine ⟨hstart.scan_length, hspelled.ascii.length_ofChars,
      Numeral.ofChars?_eq_some_iff.2 hspelled, ?_, fun other x hother => ?_⟩
    · rw [real_of_longestNumber hstart hspelled]
      exact Numeral.gives_outcome hspelled _
    · rw [real_of_longestNumber hstart hspelled, real_of_longestNumber hother hspelled]
      exact numeral.outcome_ok_iff _ _ x

/-- In ` -.5e+` the exponent has no digits and is given back. -/
theorem real_of_longest_start_half :
    LongestNumber (unblanked (Utf8.ofString " -.5e+")) "-.5".toList
      ∧ Numeral.SpelledBy ⟨true, .decimal [] ['5'] 0⟩ "-.5".toList
      ∧ ∃ x : Binary64, real (Utf8.ofString " -.5e+") = .ok x ∧ x.isNegative = true
        ∧ x.IsNearest (-1 / 2) := by
  have hstart : LongestNumber (unblanked (Utf8.ofString " -.5e+")) "-.5".toList :=
    longestNumber_iff.2 ⟨by decide, by decide⟩
  have hspelled : Numeral.SpelledBy ⟨true, .decimal [] ['5'] 0⟩ "-.5".toList :=
    Numeral.ofChars?_eq_some_iff.1 (by decide)
  have hvalue : exactValue true [] ['5'] 0 = -1 / 2 := by
    have hwhole : decimalNumber [] = 0 := rfl
    have hfraction : decimalNumber ['5'] = 5 := rfl
    norm_num [exactValue, hwhole, hfraction]
  have hsize : |(-1 / 2 : ℚ)| = 2 ^ (-1 : ℤ) := by norm_num
  have hlarge : (2 : ℚ) ^ (-1 : ℤ) < 2 ^ 1024 - 2 ^ 970 :=
    calc (2 : ℚ) ^ (-1 : ℤ) < 1 := by norm_num
      _ ≤ 2 ^ 970 := one_le_pow₀ one_le_two
      _ = 2 ^ 971 - 2 ^ 970 := by rw [pow_succ' 2 970, two_mul, add_sub_cancel_right]
      _ ≤ 2 ^ 1024 - 2 ^ 970 := sub_le_sub_right (pow_le_pow_right₀ one_le_two (by decide)) _
  have hsmall : ¬ (2 : ℚ) ^ (-1 : ℤ) ≤ 2 ^ (-1075 : ℤ) :=
    not_le.2 (zpow_lt_zpow_right₀ one_lt_two (by decide))
  have hrounded : Rounded (exactValue true [] ['5'] 0) true _ _ :=
    ((real_of_longest_start (Utf8.ofString " -.5e+")).2.2.2 _ _ hstart hspelled).2.2.2.1
  rw [hvalue] at hrounded
  have hok := hrounded.nearest
  rw [hsize] at hok
  obtain ⟨x, hx, hnegative, hnearest, -, -⟩ := hok hlarge fun h => hsmall h.2
  exact ⟨hstart, hspelled, x, hx, hnegative, hnearest⟩

end Literal
end SyntaxTree
