/-
# What the digits of an integer denote

`Literal.integer` multiplies and adds from digit to digit and gives up at the first magnitude
that is too large.  This file says what it gives without following it: the digits of a text are
the bytes that its base accepts, they denote a number as digits do in any base, and the answer is
that number, or the fault that there is no digit, or the fault that the number has more than 128
bits (`integer_positional`).

* Giving up early is no loss.  More digits never make a magnitude smaller (`le_placed`), so one
  that is too large on the way is too large at the end.  This needs a base other than zero, and
  base zero has no digits.
* The other direction is about alphabets.  Each has a symbol for every value below the bases that
  use it (`exists_byte_of_lt`), so every number is spelled by some text.  `SpellsNumber` lets a text
  have zeros in front and other bytes anywhere, and choose between the bytes of one value.
-/
import Mathlib.Data.Nat.Digits.Defs
import SyntaxTree.Literal.Integer

namespace SyntaxTree
namespace Literal

/-! ## 1. Digits and what they denote -/

/-- The digits of `base` in a text, from left to right. -/
def digitsIn (base : Nat) (text : List UInt8) : List Nat := text.filterMap (digitValue? base)

/-- The number that digits denote, the most significant first. -/
def denoted (base : Nat) (digits : List Nat) : Nat := Nat.ofDigits base digits.reverse

/-- The number that digits denote behind others, which denote `total`. -/
def placed (base total : Nat) (digits : List Nat) : Nat :=
  total * base ^ digits.length + denoted base digits

theorem placed_zero (base : Nat) (digits : List Nat) :
    placed base 0 digits = denoted base digits := by
  rw [placed, Nat.zero_mul, Nat.zero_add]

theorem placed_nil (base total : Nat) : placed base total [] = total := by
  simp [placed, denoted]

theorem placed_cons (base total digit : Nat) (rest : List Nat) :
    placed base total (digit :: rest) = placed base (total * base + digit) rest := by
  rw [placed, placed, denoted, denoted, Nat.ofDigits_reverse_cons, List.length_cons]
  ring

/-- **More digits never make a number smaller.** -/
theorem le_placed {base : Nat} (hbase : 0 < base) (total : Nat) (digits : List Nat) :
    total ≤ placed base total digits := by
  have hpow : 0 < base ^ digits.length := Nat.pow_pos hbase
  calc total ≤ total * base ^ digits.length := Nat.le_mul_of_pos_right total hpow
    _ ≤ placed base total digits := Nat.le_add_right _ _

theorem lt_of_digitValue? {base digit : Nat} {c : UInt8} (h : digitValue? base c = some digit) :
    digit < base := by
  have hfilter := (Option.filter_eq_some_iff.1 h).2
  exact of_decide_eq_true hfilter

theorem digitsIn_cons_none {base : Nat} {c : UInt8} (h : digitValue? base c = none)
    (rest : List UInt8) : digitsIn base (c :: rest) = digitsIn base rest :=
  List.filterMap_cons_none h

theorem digitsIn_cons_some {base digit : Nat} {c : UInt8} (h : digitValue? base c = some digit)
    (rest : List UInt8) : digitsIn base (c :: rest) = digit :: digitsIn base rest :=
  List.filterMap_cons_some h

/-! ## 2. Reading digits -/

theorem integerBound_eq : integerBound = 2 ^ 128 := by decide

/-- Without a digit nothing changes. -/
theorem accumulate_of_nil {base : Nat} {text : List UInt8} (total : Option Nat)
    (h : digitsIn base text = []) : accumulate base text total = some total := by
  induction text with
  | nil => rfl
  | cons c rest ih =>
    cases hvalue : digitValue? base c with
    | none =>
      rw [digitsIn_cons_none hvalue] at h
      simp only [accumulate, hvalue]
      exact ih h
    | some digit =>
      rw [digitsIn_cons_some hvalue] at h
      cases h

/-- **Reading stops exactly if the number at the end is too large.** -/
theorem accumulate_of_ne_nil {base : Nat} {text : List UInt8} (total : Option Nat)
    (h : digitsIn base text ≠ []) :
    accumulate base text total
      = if placed base (total.getD 0) (digitsIn base text) < integerBound
        then some (some (placed base (total.getD 0) (digitsIn base text))) else none := by
  induction text generalizing total with
  | nil => exact absurd rfl h
  | cons c rest ih =>
    cases hvalue : digitValue? base c with
    | none =>
      rw [digitsIn_cons_none hvalue] at h ⊢
      simp only [accumulate, hvalue]
      exact ih total h
    | some digit =>
      rw [digitsIn_cons_some hvalue, placed_cons]
      simp only [accumulate, hvalue]
      by_cases hnext : total.getD 0 * base + digit < integerBound
      · rw [if_pos hnext]
        by_cases hrest : digitsIn base rest = []
        · rw [accumulate_of_nil _ hrest, hrest, placed_nil, if_pos hnext]
        · exact ih (some (total.getD 0 * base + digit)) hrest
      · -- the digits that are left can only make it larger
        have hpos : 0 < base := Nat.zero_lt_of_lt (lt_of_digitValue? hvalue)
        have hlarger := le_placed hpos (total.getD 0 * base + digit) (digitsIn base rest)
        rw [if_neg hnext, if_neg (by omega)]

theorem integer_of_nil {base : Nat} {text : List UInt8} (hbase : base ≤ maxBase)
    (h : digitsIn base text = []) :
    integer base text = .error (.notAnInteger (Lossy.text text)) := by
  rw [integer, if_neg (Nat.not_lt.2 hbase), accumulate_of_nil none h]

theorem integer_of_le {base : Nat} {text : List UInt8} (hbase : base ≤ maxBase)
    (h : digitsIn base text ≠ []) (hlarge : integerBound ≤ denoted base (digitsIn base text)) :
    integer base text = .error (.integerOverflow (Lossy.text text)) := by
  rw [integer, if_neg (Nat.not_lt.2 hbase), accumulate_of_ne_nil none h, Option.getD_none,
    placed_zero, if_neg (Nat.not_lt.2 hlarge)]

theorem integer_of_lt {base : Nat} {text : List UInt8} (hbase : base ≤ maxBase)
    (h : digitsIn base text ≠ []) (hsmall : denoted base (digitsIn base text) < integerBound) :
    integer base text = .ok (denoted base (digitsIn base text)) := by
  rw [integer, if_neg (Nat.not_lt.2 hbase), accumulate_of_ne_nil none h, Option.getD_none,
    placed_zero, if_pos hsmall]

/-- **What reading an integer can give**: no digit, a number that is too large, or the number
that its digits denote. -/
theorem integer_cases {base : Nat} (hbase : base ≤ maxBase) (text : List UInt8) :
    (digitsIn base text = [] ∧ integer base text = .error (.notAnInteger (Lossy.text text)))
      ∨ (digitsIn base text ≠ [] ∧ integerBound ≤ denoted base (digitsIn base text)
        ∧ integer base text = .error (.integerOverflow (Lossy.text text)))
      ∨ digitsIn base text ≠ [] ∧ denoted base (digitsIn base text) < integerBound
        ∧ integer base text = .ok (denoted base (digitsIn base text)) := by
  by_cases hnil : digitsIn base text = []
  · exact .inl ⟨hnil, integer_of_nil hbase hnil⟩
  · by_cases hlarge : integerBound ≤ denoted base (digitsIn base text)
    · exact .inr (.inl ⟨hnil, hlarge, integer_of_le hbase hnil hlarge⟩)
    · have hsmall := Nat.lt_of_not_le hlarge
      exact .inr (.inr ⟨hnil, hsmall, integer_of_lt hbase hnil hsmall⟩)

end Literal

/-! ## 3. Alphabets -/

/-- The symbols of an alphabet by value.  Where the case of letters does not matter, these are
the capitals. -/
def Alphabet.symbols : Alphabet → List Char
  | extendedHex => "0123456789ABCDEFGHIJKLMNOPQRSTUVWXYZ".toList
  | base32 => "ABCDEFGHIJKLMNOPQRSTUVWXYZ234567".toList
  | base64 => "ABCDEFGHIJKLMNOPQRSTUVWXYZabcdefghijklmnopqrstuvwxyz0123456789+/".toList

/-- Each symbol has the value of its place. -/
theorem Alphabet.value?_symbols (alphabet : Alphabet) :
    alphabet.symbols.map (fun c => alphabet.value? (Ascii.byte c))
      = (List.range alphabet.symbols.length).map some := by
  cases alphabet <;> decide

/-- An alphabet has a symbol for each value below the bases that use it. -/
theorem Alphabet.le_length_symbols {base : Nat} (hbase : base ≤ Literal.maxBase) :
    base ≤ (Alphabet.ofBase base).symbols.length := by
  have hextended : extendedHex.symbols.length = 36 := by decide
  have hbase32 : base32.symbols.length = 32 := by decide
  have hbase64 : base64.symbols.length = 64 := by decide
  have hmax : Literal.maxBase = 64 := rfl
  unfold Alphabet.ofBase
  split
  · omega
  · split <;> omega

namespace Literal

/-- **Every value below a base has a byte.** -/
theorem exists_byte_of_lt {base digit : Nat} (hbase : base ≤ maxBase) (hdigit : digit < base) :
    ∃ c : UInt8, digitValue? base c = some digit := by
  have hplace : digit < (Alphabet.ofBase base).symbols.length :=
    Nat.lt_of_lt_of_le hdigit (Alphabet.le_length_symbols hbase)
  have hvalue := congrArg (·[digit]?) (Alphabet.value?_symbols (Alphabet.ofBase base))
  simp only [List.getElem?_map, List.getElem?_eq_getElem hplace, List.getElem?_range hplace,
    Option.map_some, Option.some.injEq] at hvalue
  refine ⟨Ascii.byte (Alphabet.ofBase base).symbols[digit], ?_⟩
  rw [digitValue?, hvalue]
  exact Option.filter_eq_some_iff.2 ⟨rfl, decide_eq_true hdigit⟩

/-! ## 4. Spellings -/

/-- `text` writes `digits` in order, each by a byte of its value, and has bytes that are no
digits anywhere between. -/
inductive Writes (base : Nat) : List Nat → List UInt8 → Prop where
  | nil : Writes base [] []
  | digit {d : Nat} {c : UInt8} {digits : List Nat} {rest : List UInt8}
      (h : digitValue? base c = some d) (hrest : Writes base digits rest) :
      Writes base (d :: digits) (c :: rest)
  | other {c : UInt8} {digits : List Nat} {rest : List UInt8}
      (h : digitValue? base c = none) (hrest : Writes base digits rest) :
      Writes base digits (c :: rest)

/-- The digits of a number without zeros in front, except that zero itself has one. -/
def numeral (base n : Nat) : List Nat := if n = 0 then [0] else (Nat.digits base n).reverse

/-- `text` writes the digits of `n` behind any number of zeros. -/
def SpellsNumber (base n : Nat) (text : List UInt8) : Prop :=
  ∃ zeros : Nat, Writes base (List.replicate zeros 0 ++ numeral base n) text

theorem digitsIn_of_writes {base : Nat} {digits : List Nat} {text : List UInt8}
    (h : Writes base digits text) : digitsIn base text = digits := by
  induction h with
  | nil => rfl
  | digit hvalue _ ih => rw [digitsIn_cons_some hvalue, ih]
  | other hvalue _ ih => rw [digitsIn_cons_none hvalue, ih]

theorem numeral_ne_nil (base n : Nat) : numeral base n ≠ [] := by
  unfold numeral
  split
  · exact List.cons_ne_nil 0 []
  · next hn =>
    rw [ne_eq, List.reverse_eq_nil_iff]
    exact Nat.digits_ne_nil_iff_ne_zero.2 hn

theorem denoted_numeral (base n : Nat) : denoted base (numeral base n) = n := by
  unfold numeral denoted
  split
  · next hn =>
    subst hn
    simp
  · rw [List.reverse_reverse, Nat.ofDigits_digits]

/-- Zeros in front do not count. -/
theorem denoted_zeros (base zeros : Nat) (digits : List Nat) :
    denoted base (List.replicate zeros 0 ++ digits) = denoted base digits := by
  rw [denoted, List.reverse_append, List.reverse_replicate, Nat.ofDigits_append_replicate_zero,
    denoted]

theorem lt_of_mem_numeral {base n digit : Nat} (hbase : 2 ≤ base) (h : digit ∈ numeral base n) :
    digit < base := by
  unfold numeral at h
  split at h
  · rw [List.mem_singleton.1 h]
    omega
  · exact Nat.digits_lt_base hbase (List.mem_reverse.1 h)

/-- Digits below the base are written by some text. -/
theorem exists_writes {base : Nat} (hbase : base ≤ maxBase) {digits : List Nat}
    (h : ∀ digit ∈ digits, digit < base) : ∃ text : List UInt8, Writes base digits text := by
  induction digits with
  | nil => exact ⟨[], .nil⟩
  | cons digit rest ih =>
    rw [List.forall_mem_cons] at h
    obtain ⟨text, hwrites⟩ := ih h.2
    obtain ⟨c, hvalue⟩ := exists_byte_of_lt hbase h.1
    exact ⟨c :: text, .digit hvalue hwrites⟩

/-- **Every number is spelled by some text.** -/
theorem exists_spellsNumber {base : Nat} (htwo : 2 ≤ base) (hbase : base ≤ maxBase) (n : Nat) :
    ∃ text : List UInt8, SpellsNumber base n text := by
  obtain ⟨text, hwrites⟩ := exists_writes hbase fun digit => lt_of_mem_numeral (n := n) htwo
  exact ⟨text, 0, hwrites⟩

/-- **Reading any spelling of a number gives the number.** -/
theorem integer_of_spellsNumber {base n : Nat} {text : List UInt8} (hbase : base ≤ maxBase)
    (hn : n < integerBound) (h : SpellsNumber base n text) : integer base text = .ok n := by
  obtain ⟨zeros, hwrites⟩ := h
  have hdigits := digitsIn_of_writes hwrites
  have hdenoted : denoted base (digitsIn base text) = n := by
    rw [hdigits, denoted_zeros, denoted_numeral]
  have hne : digitsIn base text ≠ [] := by
    rw [hdigits]
    exact List.append_ne_nil_of_right_ne_nil _ (numeral_ne_nil base n)
  rw [integer_of_lt hbase hne (by rwa [hdenoted]), hdenoted]

/-! ## 5. Reading an integer -/

/-- **Reading an integer gives what its digits denote, or says what is wrong.**  In any base up
to 64, a text without a digit is no integer; one whose digits denote a number of more than 128
bits is too large; and from every other one comes the number that its digits denote.  From base
two on, every value below the base has a byte, every number is spelled by some text, and reading
any spelling of a number of at most 128 bits gives the number. -/
theorem integer_positional (base : Nat) (hbase : base ≤ 64) :
    (∀ text : List UInt8,
      (integer base text = .error (.notAnInteger (Lossy.text text)) ↔ digitsIn base text = [])
      ∧ (integer base text = .error (.integerOverflow (Lossy.text text))
          ↔ digitsIn base text ≠ [] ∧ 2 ^ 128 ≤ denoted base (digitsIn base text))
      ∧ ∀ n : Nat, integer base text = .ok n
          ↔ digitsIn base text ≠ [] ∧ denoted base (digitsIn base text) < 2 ^ 128
            ∧ n = denoted base (digitsIn base text))
    ∧ (2 ≤ base →
      (∀ digit : Nat, digit < base → ∃ c : UInt8, digitValue? base c = some digit)
      ∧ ∀ n : Nat, n < 2 ^ 128 →
          (∃ text : List UInt8, SpellsNumber base n text)
            ∧ ∀ text : List UInt8, SpellsNumber base n text → integer base text = .ok n) := by
  rw [← integerBound_eq]
  refine ⟨?_, ?_⟩
  · intro text
    obtain ⟨hnil, heq⟩ | ⟨hne, hlarge, heq⟩ | ⟨hne, hsmall, heq⟩ := integer_cases hbase text
    · simp [heq, hnil]
    · simp [heq, hne, hlarge]
    · simp [heq, hne, hsmall, Nat.not_le.2 hsmall, eq_comm]
  · intro htwo
    refine ⟨fun digit => exists_byte_of_lt hbase, ?_⟩
    intro n hn
    exact ⟨exists_spellsNumber htwo hbase n, fun text => integer_of_spellsNumber hbase hn⟩

/-- The digits two and five of base 60, behind a zero and with other bytes between. -/
def spacedDigits : List UInt8 := "A_C F.".toList.map Ascii.byte

theorem spellsNumber_spacedDigits : SpellsNumber 60 125 spacedDigits := by
  refine ⟨1, ?_⟩
  have hnumeral : numeral 60 125 = [2, 5] := by norm_num [numeral]
  rw [hnumeral]
  exact .digit (by decide) (.other (by decide) (.digit (by decide) (.other (by decide)
    (.digit (by decide) (.other (by decide) .nil)))))

theorem integer_positional_spaced :
    60 ≤ 64 ∧ 2 ≤ 60 ∧ 125 < 2 ^ 128 ∧ SpellsNumber 60 125 spacedDigits
      ∧ integer 60 spacedDigits = .ok 125
      ∧ integer 60 [Ascii.byte '-'] = .error (.notAnInteger (Lossy.text [Ascii.byte '-'])) := by
  obtain ⟨hreads, hspelled⟩ := integer_positional 60 (by decide)
  refine ⟨by decide, by decide, by decide, spellsNumber_spacedDigits, ?_, ?_⟩
  · exact ((hspelled (by decide)).2 125 (by decide)).2 _ spellsNumber_spacedDigits
  · exact (hreads [Ascii.byte '-']).1.2 (by decide)

end Literal
end SyntaxTree
