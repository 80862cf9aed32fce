/-
# Integers with a sign and a base

`Literal.signedInteger` looks at the first bytes of a text three times: for a sign, for a zero, and
for a letter behind the zero.  Some of the letters are digits too, a zero alone is both a mark of
base eight and a digit of it, and every byte that is no digit is skipped.  This file says that none
of this gets in the way of the notations that are meant (`signedInteger_of_spelled`).

* `Form` lists the notations, each with its marks and its base.  `Form.Spelled` says which texts
  write a number in a form: its digits in any case of letters, zeros in front where the form allows
  them, and underscores anywhere behind the first digit.  It does not mention how bytes are read.
* The marks are seen (`splitBase_of_letter`), and without a mark nothing is mistaken for one: a
  digit is no sign (`splitSign_append`), and neither a digit nor an underscore behind a bare zero is
  a letter of a base (`splitBase_of_zero`).
* A zero alone is read in base eight although it is spelled as a decimal.  It is zero in both.
-/
import Mathlib.Data.Nat.Digits.Lemmas
import SyntaxTree.Proofs.PositionalValue

namespace SyntaxTree
namespace Literal

/-! ## 1. Digits with underscores -/

/-- The bytes of an ASCII text. -/
def asciiBytes (text : String) : List UInt8 := text.toList.map Ascii.byte

/-- The bytes that show digits, with the digits that they show. -/
def digitBytes : List (UInt8 × Nat) :=
  (asciiBytes "0123456789abcdef").zipIdx ++ (asciiBytes "0123456789ABCDEF").zipIdx

/-- `text` shows `digits` in order, with underscores anywhere between. -/
inductive Underscored : List Nat → List UInt8 → Prop where
  | nil : Underscored [] []
  | digit {d : Nat} {c : UInt8} {digits : List Nat} {rest : List UInt8}
      (h : (c, d) ∈ digitBytes) (hrest : Underscored digits rest) :
      Underscored (d :: digits) (c :: rest)
  | underscore {digits : List Nat} {rest : List UInt8} (hrest : Underscored digits rest) :
      Underscored digits (Ascii.byte '_' :: rest)

/-- `text` shows `digits` with underscores anywhere behind the first digit. -/
inductive Grouped : List Nat → List UInt8 → Prop where
  | digit {d : Nat} {c : UInt8} {digits : List Nat} {rest : List UInt8}
      (h : (c, d) ∈ digitBytes) (hrest : Underscored digits rest) :
      Grouped (d :: digits) (c :: rest)

theorem Grouped.exists_digit {digits : List Nat} {text : List UInt8} (h : Grouped digits text) :
    ∃ (c : UInt8) (digit : Nat) (rest : List UInt8),
      text = c :: rest ∧ (c, digit) ∈ digitBytes := by
  obtain ⟨hshows, -⟩ := h
  exact ⟨_, _, _, rfl, hshows⟩

theorem Grouped.underscored {digits : List Nat} {text : List UInt8} (h : Grouped digits text) :
    Underscored digits text := by
  obtain ⟨hshows, hrest⟩ := h
  exact .digit hshows hrest

theorem value?_of_mem {c : UInt8} {digit : Nat} (h : (c, digit) ∈ digitBytes) :
    Alphabet.extendedHex.value? c = some digit := by
  have hall : ∀ entry ∈ digitBytes, Alphabet.extendedHex.value? entry.1 = some entry.2 := by decide
  exact hall _ h

theorem digitValue?_eq {base : Nat} (hbase : base ≤ 16) (c : UInt8) :
    digitValue? base c = (Alphabet.extendedHex.value? c).filter (· < base) := by
  have halphabet : Alphabet.ofBase base = .extendedHex := by
    rw [Alphabet.ofBase, if_neg (by omega), if_neg (by omega)]
  rw [digitValue?, halphabet]

/-- **An underscored text writes its digits** in every base that has them. -/
theorem writes_of_underscored {base : Nat} (hbase : base ≤ 16) {digits : List Nat}
    {text : List UInt8} (h : Underscored digits text) (hdigits : ∀ digit ∈ digits, digit < base) :
    Writes base digits text := by
  induction h with
  | nil => exact .nil
  | digit hshows _ ih =>
    obtain ⟨hlt, hrest⟩ := List.forall_mem_cons.1 hdigits
    refine .digit ?_ (ih hrest)
    rw [digitValue?_eq hbase, value?_of_mem hshows]
    exact Option.filter_eq_some_iff.2 ⟨rfl, decide_eq_true hlt⟩
  | underscore _ ih =>
    refine .other ?_ (ih hdigits)
    rw [digitValue?_eq hbase]
    rfl

/-- **Reading written digits** gives what they denote, or that it is too large. -/
theorem integer_of_writes {base : Nat} (hbase : base ≤ maxBase) {digits : List Nat}
    {text : List UInt8} (h : Writes base digits text) (hne : digits ≠ []) :
    integer base text
      = if denoted base digits < integerBound then .ok (denoted base digits)
        else .error (.integerOverflow (Lossy.text text)) := by
  rw [← digitsIn_of_writes h] at hne ⊢
  split
  · next hlt => exact integer_of_lt hbase hne hlt
  · next hle => exact integer_of_le hbase hne (Nat.le_of_not_lt hle)

/-! ## 2. Forms -/

/-- The notations of an integer: with a letter for the base, or without. -/
inductive Form where
  | hexadecimal
  | octal
  | binary
  | decimal
  /-- Octal digits behind a bare zero. -/
  | bareOctal
  /-- Decimal digits alone. -/
  | bareDecimal
  deriving DecidableEq, Repr

namespace Form

/-- The base of the digits. -/
def base : Form → Nat
  | hexadecimal => 16
  | octal => 8
  | binary => 2
  | decimal => 10
  | bareOctal => 8
  | bareDecimal => 10

/-- What may stand in front of the digits. -/
def marks : Form → List (List UInt8)
  | hexadecimal => [asciiBytes "0x", asciiBytes "0X"]
  | octal => [asciiBytes "0o", asciiBytes "0O"]
  | binary => [asciiBytes "0b", asciiBytes "0B"]
  | decimal => [asciiBytes "0d", asciiBytes "0D"]
  | bareOctal => [[]]
  | bareDecimal => [[]]

/-- The digits of a number, with so many zeros in front.  Behind a letter, and behind the zero that
marks octal digits, there may be any number of them; decimal digits alone have none. -/
def digits (zeros n : Nat) : Form → List Nat
  | bareOctal => 0 :: (List.replicate zeros 0 ++ numeral 8 n)
  | bareDecimal => numeral 10 n
  | form => List.replicate zeros 0 ++ numeral form.base n

/-- `text` behind `mark` spells `n` in a form. -/
def Spelled (form : Form) (n : Nat) (mark text : List UInt8) : Prop :=
  mark ∈ form.marks ∧ ∃ zeros : Nat, Grouped (form.digits zeros n) text

end Form

/-- A sign in front of a number. -/
inductive SignMark where
  | minus
  | plus
  | none
  deriving DecidableEq, Repr

/-- The bytes of the sign. -/
def SignMark.bytes : SignMark → List UInt8
  | minus => asciiBytes "-"
  | plus => asciiBytes "+"
  | none => []

/-- The sign that it stands for. -/
def SignMark.sign : SignMark → Sign
  | minus => .negative
  | plus => .positive
  | none => .positive

/-! ## 3. Signs and marks are seen -/

/-- A byte that shows a digit is no sign. -/
theorem ne_sign_of_mem {c : UInt8} {digit : Nat} (h : (c, digit) ∈ digitBytes) :
    c ≠ Ascii.byte '-' ∧ c ≠ Ascii.byte '+' := by
  have hall : ∀ entry ∈ digitBytes, entry.1 ≠ Ascii.byte '-' ∧ entry.1 ≠ Ascii.byte '+' := by decide
  exact hall _ h

theorem baseOfLetter?_of_mem {c : UInt8} {digit : Nat} (h : (c, digit) ∈ digitBytes)
    (hdigit : digit < 10) : baseOfLetter? c = Option.none := by
  have hall : ∀ entry ∈ digitBytes, entry.2 < 10 → baseOfLetter? entry.1 = Option.none := by decide
  exact hall _ h hdigit

theorem eq_zero_of_mem {digit : Nat} (h : (Ascii.byte '0', digit) ∈ digitBytes) : digit = 0 := by
  have hvalue := value?_of_mem h
  exact (Option.some.inj hvalue).symm

theorem byte_of_mem_zero {c : UInt8} (h : (c, 0) ∈ digitBytes) : c = Ascii.byte '0' := by
  have hall : ∀ entry ∈ digitBytes, entry.2 = 0 → entry.1 = Ascii.byte '0' := by decide
  exact hall _ h rfl

/-- A sign is taken off a text that starts with a digit, and nothing else is. -/
theorem splitSign_append (mark : SignMark) {c : UInt8} {digit : Nat} (h : (c, digit) ∈ digitBytes)
    (rest : List UInt8) : splitSign (mark.bytes ++ c :: rest) = (mark.sign, c :: rest) := by
  obtain ⟨hminus, hplus⟩ := ne_sign_of_mem h
  cases mark with
  | minus => rfl
  | plus => rfl
  | none =>
    show splitSign (c :: rest) = (.positive, c :: rest)
    rw [splitSign, if_neg hminus, if_neg hplus]

/-- The marks with a letter give the base of their form. -/
theorem splitBase_of_letter {form : Form} {mark : List UInt8} (hmark : mark ∈ form.marks)
    (hletter : mark ≠ []) (text : List UInt8) :
    ∃ rest, mark ++ text = Ascii.byte '0' :: rest
      ∧ splitBase (mark ++ text) = (form.base, text) := by
  cases form <;> simp only [Form.marks, List.mem_cons, List.not_mem_nil, or_false] at hmark
  case bareOctal => exact absurd hmark hletter
  case bareDecimal => exact absurd hmark hletter
  all_goals
    rcases hmark with rfl | rfl
    · exact ⟨_, rfl, rfl⟩
    · exact ⟨_, rfl, rfl⟩

/-- **A bare zero stays among the digits**, and nothing behind it is a letter of a base. -/
theorem splitBase_of_zero {digits : List Nat} {text : List UInt8} (h : Underscored digits text)
    (hdigits : ∀ digit ∈ digits, digit < 10) :
    splitBase (Ascii.byte '0' :: text) = (8, Ascii.byte '0' :: text) := by
  cases h with
  | nil => rfl
  | digit hshows _ =>
    have hletter := baseOfLetter?_of_mem hshows (List.forall_mem_cons.1 hdigits).1
    simp only [splitBase, if_true, hletter]
  | underscore _ => rfl

theorem splitBase_of_ne_zero {c : UInt8} (h : c ≠ Ascii.byte '0') (rest : List UInt8) :
    splitBase (c :: rest) = (10, c :: rest) := by
  simp only [splitBase, if_neg h]

/-- What is read, once sign and base are seen. -/
theorem signedInteger_eq {text unsigned digits : List UInt8} {sign : Sign} {base : Nat}
    (hsign : splitSign text = (sign, unsigned)) (hbase : splitBase unsigned = (base, digits))
    {n : Nat} (hread : integer base digits
      = if n < integerBound then .ok n else .error (.integerOverflow (Lossy.text digits))) :
    signedInteger text
      = if n < integerBound then .ok (sign, n)
        else .error (.integerOverflow (Lossy.text digits)) := by
  by_cases hn : n < integerBound
  · simp only [signedInteger, hsign, hbase, hread, if_pos hn]
  · simp only [signedInteger, hsign, hbase, hread, if_neg hn]

/-! ## 4. Reading every form -/

/-- The digits of a form lie below its base, there is one, and they denote the number. -/
theorem Form.digits_spec (form : Form) (zeros n : Nat) :
    (∀ digit ∈ form.digits zeros n, digit < form.base) ∧ form.digits zeros n ≠ []
      ∧ denoted form.base (form.digits zeros n) = n := by
  have hbase : 2 ≤ form.base := by cases form <;> decide
  have hspelled (zeros : Nat) :
      (∀ digit ∈ List.replicate zeros 0 ++ numeral form.base n, digit < form.base)
        ∧ List.replicate zeros 0 ++ numeral form.base n ≠ []
        ∧ denoted form.base (List.replicate zeros 0 ++ numeral form.base n) = n := by
    refine ⟨?_, List.append_ne_nil_of_right_ne_nil _ (numeral_ne_nil _ n), ?_⟩
    · intro digit hdigit
      rcases List.mem_append.1 hdigit with hzero | hmem
      · rw [List.eq_of_mem_replicate hzero]
        omega
      · exact lt_of_mem_numeral hbase hmem
    · rw [denoted_zeros, denoted_numeral]
  cases form with
  | bareOctal => exact hspelled (zeros + 1)
  | bareDecimal => exact hspelled 0
  | _ => exact hspelled zeros

/-- The first digit of a number other than zero is not zero. -/
theorem ne_zero_of_numeral_eq_cons {base n digit : Nat} {rest : List Nat} (hn : n ≠ 0)
    (h : numeral base n = digit :: rest) : digit ≠ 0 := by
  have hdigits : Nat.digits base n = rest.reverse ++ [digit] := by
    rw [numeral, if_neg hn] at h
    rw [← List.reverse_reverse (Nat.digits base n), h, List.reverse_cons]
  have hlast := Nat.getLast_digit_ne_zero base hn
  simpa only [hdigits, List.getLast_append_singleton] using hlast

/-- **The base that is read holds the digits that are spelled**, and in it they denote the
number. -/
theorem exists_base_of_spelled {form : Form} {n : Nat} {mark text : List UInt8}
    (h : form.Spelled n mark text) :
    ∃ (base : Nat) (digits : List Nat), splitBase (mark ++ text) = (base, text) ∧ base ≤ 16
      ∧ Underscored digits text ∧ (∀ digit ∈ digits, digit < base) ∧ digits ≠ []
      ∧ denoted base digits = n := by
  obtain ⟨hmark, zeros, hgrouped⟩ := h
  have hspec := form.digits_spec zeros n
  have hlarge : form.base ≤ 16 := by cases form <;> decide
  by_cases hletter : mark = []
  · subst hletter
    rw [List.nil_append]
    cases form <;> simp only [Form.marks, List.mem_cons, List.not_mem_nil, or_false] at hmark
    case bareOctal =>
      refine ⟨8, _, ?_, hlarge, hgrouped.underscored, hspec⟩
      obtain ⟨hshows, hrest⟩ := hgrouped
      rw [byte_of_mem_zero hshows]
      refine splitBase_of_zero hrest ?_
      intro digit hdigit
      have := hspec.1 digit (List.mem_cons_of_mem _ hdigit)
      simp only [Form.base] at this
      omega
    case bareDecimal =>
      by_cases hn : n = 0
      · -- read in base eight, where the one digit denotes zero as well
        subst hn
        refine ⟨8, [0], ?_, by omega, hgrouped.underscored, by decide, by decide, by decide⟩
        obtain ⟨hshows, hrest⟩ := hgrouped
        rw [byte_of_mem_zero hshows]
        exact splitBase_of_zero hrest (by simp)
      · refine ⟨10, _, ?_, hlarge, hgrouped.underscored, hspec⟩
        obtain ⟨d, hd⟩ : ∃ d, d = Form.bareDecimal.digits zeros n := ⟨_, rfl⟩
        rw [← hd] at hgrouped
        obtain ⟨hshows, hrest⟩ := hgrouped
        refine splitBase_of_ne_zero ?_ _
        rintro rfl
        exact ne_zero_of_numeral_eq_cons hn hd.symm (eq_zero_of_mem hshows)
    all_goals simp [asciiBytes] at hmark
  · obtain ⟨rest, -, hsplit⟩ := splitBase_of_letter hmark hletter text
    exact ⟨form.base, _, hsplit, hlarge, hgrouped.underscored, hspec⟩

/-- A spelled number starts with a digit. -/
theorem exists_digit_of_spelled {form : Form} {n : Nat} {mark text : List UInt8}
    (h : form.Spelled n mark text) :
    ∃ (c : UInt8) (digit : Nat) (rest : List UInt8), mark ++ text = c :: rest
      ∧ (c, digit) ∈ digitBytes := by
  obtain ⟨hmark, zeros, hgrouped⟩ := h
  by_cases hletter : mark = []
  · subst hletter
    exact hgrouped.exists_digit
  · obtain ⟨rest, hstart, -⟩ := splitBase_of_letter hmark hletter text
    exact ⟨_, 0, rest, hstart, by decide⟩

/-- **Every notation is read as the number it spells.**  A number in any form, behind any sign or
none, gives its sign and magnitude if the magnitude has at most 128 bits, and otherwise the fault
that it is too large, which quotes the digits. -/
theorem signedInteger_of_spelled (mark : SignMark) (form : Form) (n : Nat)
    {letters text : List UInt8} (h : form.Spelled n letters text) :
    (n < 2 ^ 128 → signedInteger (mark.bytes ++ (letters ++ text)) = .ok (mark.sign, n))
      ∧ (2 ^ 128 ≤ n → signedInteger (mark.bytes ++ (letters ++ text))
          = .error (.integerOverflow (Lossy.text text))) := by
  obtain ⟨base, digits, hsplit, hbase, hdigits, hlt, hne, hdenoted⟩ := exists_base_of_spelled h
  obtain ⟨c, digit, rest, hstart, hshows⟩ := exists_digit_of_spelled h
  have hsign : splitSign (mark.bytes ++ (letters ++ text)) = (mark.sign, letters ++ text) := by
    rw [hstart]
    exact splitSign_append mark hshows rest
  have hmax : base ≤ maxBase := Nat.le_trans hbase (by decide)
  have hread := integer_of_writes hmax (writes_of_underscored hbase hdigits hlt) hne
  rw [hdenoted] at hread
  rw [signedInteger_eq hsign hsplit hread, ← integerBound_eq]
  exact ⟨fun hn => if_pos hn, fun hn => if_neg (Nat.not_lt.2 hn)⟩

/-- Three hexadecimal digits in both cases, behind a zero and with underscores. -/
def groupedHex : List UInt8 := asciiBytes "0fF_f_"

theorem spelled_groupedHex : Form.hexadecimal.Spelled 0xFFF (asciiBytes "0X") groupedHex := by
  have hnumeral : numeral 16 0xFFF = [15, 15, 15] := by norm_num [numeral]
  refine ⟨by decide, 1, ?_⟩
  show Grouped (List.replicate 1 0 ++ numeral 16 0xFFF) groupedHex
  rw [hnumeral]
  exact .digit (by decide) (.digit (by decide) (.digit (by decide) (.underscore
    (.digit (by decide) (.underscore .nil)))))

/-- The least number of more than 128 bits in hexadecimal digits. -/
def wideHex : List UInt8 := Ascii.byte '1' :: List.replicate 32 (Ascii.byte '0')

theorem underscored_zeros : ∀ count : Nat,
    Underscored (List.replicate count 0) (List.replicate count (Ascii.byte '0'))
  | 0 => .nil
  | count + 1 => .digit (by decide) (underscored_zeros count)

theorem spelled_wideHex : Form.hexadecimal.Spelled (2 ^ 128) (asciiBytes "0x") wideHex := by
  have hnumeral : numeral 16 (2 ^ 128) = 1 :: List.replicate 32 0 := by
    norm_num [numeral]
    rfl
  refine ⟨by decide, 0, ?_⟩
  show Grouped (numeral 16 (2 ^ 128)) wideHex
  rw [hnumeral]
  exact .digit (by decide) (underscored_zeros 32)

theorem signedInteger_of_spelled_hex :
    Form.hexadecimal.Spelled 0xFFF (asciiBytes "0X") groupedHex
      ∧ signedInteger (asciiBytes "-0X0fF_f_") = .ok (.negative, 0xFFF)
      ∧ Form.hexadecimal.Spelled (2 ^ 128) (asciiBytes "0x") wideHex
      ∧ signedInteger (asciiBytes "0x" ++ wideHex)
          = .error (.integerOverflow (Lossy.text wideHex)) := by
  refine ⟨spelled_groupedHex, ?_, spelled_wideHex, ?_⟩
  · exact (signedInteger_of_spelled .minus .hexadecimal 0xFFF spelled_groupedHex).1 (by norm_num)
  · exact (signedInteger_of_spelled .none .hexadecimal (2 ^ 128) spelled_wideHex).2 (Nat.le_refl _)

end Literal
end SyntaxTree
