/-
# The grammar of real numbers, and its longest match

A real number is a sign that may be missing, and then a word or digits with an optional point and
an optional exponent.  `Numeral.SpelledBy` is this grammar as rules.  Two functions have to agree on
it: one reads a text that is a number as a whole, and one finds how much of the start of a text is a
number.

* `ofChars?_eq_some_iff`: a text is read exactly if the rules spell it, and as they say.
* `scan_spelled`, `length_le_scan`: what is found is a number, and no longer start of the text is
  one.

The parts of a number that may be missing are what makes the second hard: a point without digits and
an exponent without digits do not belong to the number, and `inf` is a number although `infinity`
may still be to come.  A run of digits is counted to its end, so a shorter number can leave off
inside a run but can not go on behind it (`digitCount_append`); this carries the comparison from
part to part.
-/
import Mathlib.Data.List.Infix
import Mathlib.Data.List.TakeWhile
import SyntaxTree.Literal.Real
import SyntaxTree.Proofs.PositionalValue

namespace SyntaxTree
namespace Literal

/-! ## 1. The grammar -/

/-- Digits alone. -/
def DigitRun (cs : List Char) : Prop := ∀ c ∈ cs, Decimal.isDigit c = true

/-- The number that decimal digits denote. -/
def decimalNumber (digits : List Char) : Nat := denoted 10 (digits.map fun c => c.toNat - 48)

/-- A sign, or none. -/
inductive Signed : Bool → List Char → Prop where
  | none : Signed false []
  | plus : Signed false ['+']
  | minus : Signed true ['-']

/-- An exponent, or none. -/
inductive Exponential : Int → List Char → Prop where
  | none : Exponential 0 []
  | some {c : Char} {negative : Bool} {sign digits : List Char} (hmark : c = 'e' ∨ c = 'E')
      (hsign : Signed negative sign) (hdigits : DigitRun digits) (hne : digits ≠ []) :
      Exponential (if negative then -(decimalNumber digits : Int) else decimalNumber digits)
        (c :: (sign ++ digits))

/-- Digits with an optional point, on at least one side of it. -/
inductive Mantissa : List Char → List Char → List Char → Prop where
  | whole {whole : List Char} (hwhole : DigitRun whole) (hne : whole ≠ []) :
      Mantissa whole [] whole
  | pointed {whole fraction : List Char} (hwhole : DigitRun whole) (hfraction : DigitRun fraction)
      (hne : whole ≠ [] ∨ fraction ≠ []) : Mantissa whole fraction (whole ++ '.' :: fraction)

/-- A number without a sign. -/
inductive Magnitude.SpelledBy : Magnitude → List Char → Prop where
  | infinity {cs : List Char}
      (h : cs.map Char.toLower = "infinity".toList ∨ cs.map Char.toLower = "inf".toList) :
      SpelledBy .infinity cs
  | nan {cs : List Char} (h : cs.map Char.toLower = "nan".toList) : SpelledBy .nan cs
  | decimal {whole fraction mantissa exponent : List Char} {power : Int}
      (hmantissa : Mantissa whole fraction mantissa) (hexponent : Exponential power exponent) :
      SpelledBy (.decimal whole fraction power) (mantissa ++ exponent)

/-- A number. -/
inductive Numeral.SpelledBy : Numeral → List Char → Prop where
  | mk {negative : Bool} {magnitude : Magnitude} {sign body : List Char}
      (hsign : Signed negative sign) (hbody : magnitude.SpelledBy body) :
      SpelledBy ⟨negative, magnitude⟩ (sign ++ body)

/-! ## 2. Characters -/

/-- **Reading digits one by one gives the number that they denote.** -/
theorem value_eq_decimalNumber (digits : List Char) :
    Decimal.value digits = decimalNumber digits := by
  have hfold (total : Nat) : digits.foldl (fun n c => n * 10 + (c.toNat - 48)) total
      = placed 10 total (digits.map fun c => c.toNat - 48) := by
    induction digits generalizing total with
    | nil => exact (placed_nil 10 total).symm
    | cons c rest ih => rw [List.foldl_cons, ih, List.map_cons, placed_cons]
  rw [Decimal.value, hfold, placed_zero, decimalNumber]

theorem between_iff (low high c : Char) :
    (low ≤ c && c ≤ high) = true ↔ low.toNat ≤ c.toNat ∧ c.toNat ≤ high.toNat := by
  simp only [Bool.and_eq_true, decide_eq_true_eq, Char.le_def, UInt32.le_iff_toNat_le]
  rfl

theorem isDigit_iff {c : Char} : Decimal.isDigit c = true ↔ 48 ≤ c.toNat ∧ c.toNat ≤ 57 :=
  between_iff '0' '9' c

/-- A letter in lower case is the letter itself, or comes from a capital. -/
theorem toLower_cases (c : Char) :
    c.toLower = c ∨ 65 ≤ c.toNat ∧ c.toNat ≤ 90 ∧ 97 ≤ c.toLower.toNat := by
  unfold Char.toLower
  split
  · next h =>
    have hlow : 65 ≤ c.val.toNat := UInt32.le_iff_toNat_le.1 h.1
    have hhigh : c.val.toNat ≤ 90 := UInt32.le_iff_toNat_le.1 h.2
    refine .inr ⟨hlow, hhigh, ?_⟩
    show 97 ≤ (c.val + ('a'.val - 'A'.val)).toNat
    have hshift : 'a'.val - 'A'.val = 32 := rfl
    rw [hshift, UInt32.toNat_add]
    have : (32 : UInt32).toNat = 32 := rfl
    omega
  · exact .inl rfl

/-- No letter stands in front that could start a word. -/
theorem toLower_ne_of_lt {c d : Char} (hc : c.toNat < 65) (hd : 65 ≤ d.toNat) : c.toLower ≠ d := by
  rintro rfl
  rcases toLower_cases c with h | ⟨hlow, -, -⟩
  · rw [h] at hd
    omega
  · omega

/-- No character with a property stands in front. -/
def NoneAhead (p : Char → Prop) (cs : List Char) : Prop := ∀ c ∈ cs.head?, ¬ p c

/-- A sign. -/
def IsSign (c : Char) : Prop := c = '+' ∨ c = '-'

theorem not_isSign_of_isDigit {c : Char} (h : Decimal.isDigit c = true) : ¬ IsSign c := by
  rintro (rfl | rfl) <;> revert h <;> decide

/-- A digit in front is no sign. -/
theorem noSign_of_run {digits : List Char} (hrun : DigitRun digits) (hne : digits ≠ [])
    (rest : List Char) : NoneAhead IsSign (digits ++ rest) := by
  obtain ⟨d, more, rfl⟩ := List.exists_cons_of_ne_nil hne
  rintro c hc
  obtain rfl := Option.some.inj hc
  exact not_isSign_of_isDigit (hrun d List.mem_cons_self)

theorem noDigit_point (rest : List Char) :
    NoneAhead (Decimal.isDigit · = true) ('.' :: rest) := by
  rintro c hc
  obtain rfl := Option.some.inj hc
  decide

theorem digitRun_takeWhile (cs : List Char) : DigitRun (cs.takeWhile Decimal.isDigit) :=
  fun _ => List.mem_takeWhile_imp

/-- Behind the digits at the start of a text there is no digit. -/
theorem takeWhile_eq_nil {cs : List Char} (h : NoneAhead (Decimal.isDigit · = true) cs) :
    cs.takeWhile Decimal.isDigit = [] := by
  cases cs with
  | nil => rfl
  | cons c rest => exact List.takeWhile_cons_of_neg (h c rfl)

/-- **A run of digits is taken whole**, and no further than it goes. -/
theorem takeWhile_run {digits rest : List Char} (hrun : DigitRun digits)
    (hrest : NoneAhead (Decimal.isDigit · = true) rest) :
    (digits ++ rest).takeWhile Decimal.isDigit = digits
      ∧ (digits ++ rest).dropWhile Decimal.isDigit = rest := by
  have hnil := takeWhile_eq_nil hrest
  refine ⟨?_, ?_⟩
  · rw [List.takeWhile_append_of_pos hrun, hnil, List.append_nil]
  · rw [List.dropWhile_append_of_pos hrun]
    have := List.takeWhile_append_dropWhile (p := Decimal.isDigit) (l := rest)
    rwa [hnil, List.nil_append] at this

/-! ## 3. Reading a whole number -/

theorem takeSign_append {negative : Bool} {sign body : List Char} (hsign : Signed negative sign)
    (hbody : NoneAhead IsSign body) : takeSign (sign ++ body) = (negative, body) := by
  cases hsign with
  | plus => rfl
  | minus => rfl
  | none =>
    rw [List.nil_append]
    unfold takeSign
    split
    · exact absurd (.inr rfl) (hbody _ rfl)
    · exact absurd (.inl rfl) (hbody _ rfl)
    · rfl

theorem exists_sign (cs : List Char) :
    ∃ sign : List Char, Signed (takeSign cs).1 sign ∧ cs = sign ++ (takeSign cs).2 := by
  unfold takeSign
  split
  · exact ⟨['-'], .minus, rfl⟩
  · exact ⟨['+'], .plus, rfl⟩
  · exact ⟨[], .none, rfl⟩

theorem exponentOf?_eq_some_iff {cs : List Char} {power : Int} :
    exponentOf? cs = some power ↔ Exponential power cs := by
  constructor
  · intro h
    cases cs with
    | nil =>
      obtain rfl := Option.some.inj h
      exact .none
    | cons c rest =>
      obtain ⟨sign, hsign, hrest⟩ := exists_sign rest
      simp only [exponentOf?, Option.ite_none_right_eq_some, Option.some.injEq] at h
      obtain ⟨⟨hmark, hne, hdigits⟩, rfl⟩ := h
      rw [value_eq_decimalNumber]
      have hsome := Exponential.some hmark hsign (List.all_eq_true.1 hdigits) hne
      rwa [← hrest] at hsome
  · rintro (_ | ⟨hmark, hsign, hdigits, hne⟩)
    · rfl
    · have hahead := noSign_of_run hdigits hne []
      rw [List.append_nil] at hahead
      rw [exponentOf?, takeSign_append hsign hahead, ← value_eq_decimalNumber]
      exact if_pos ⟨hmark, hne, List.all_eq_true.2 hdigits⟩

/-- An exponent starts with its letter. -/
theorem Exponential.cases_head {power : Int} {exponent : List Char}
    (h : Exponential power exponent) :
    exponent = [] ∨ ∃ c rest, exponent = c :: rest ∧ (c = 'e' ∨ c = 'E') := by
  cases h with
  | none => exact .inl rfl
  | some hmark _ _ _ => exact .inr ⟨_, _, rfl, hmark⟩

/-- Neither a digit nor a point stands in front of an exponent. -/
theorem Exponential.noneAhead {power : Int} {exponent : List Char}
    (h : Exponential power exponent) :
    NoneAhead (fun c => Decimal.isDigit c = true ∨ c = '.') exponent := by
  rintro c hc
  obtain rfl | ⟨mark, rest, rfl, hmark⟩ := h.cases_head
  · cases hc
  · obtain rfl := Option.some.inj hc
    rcases hmark with rfl | rfl <;> decide

theorem NoneAhead.imp {p q : Char → Prop} (hpq : ∀ c, q c → p c) {cs : List Char}
    (h : NoneAhead p cs) : NoneAhead q cs :=
  fun c hc hq => h c hc (hpq c hq)

theorem Mantissa.ne_nil {whole fraction mantissa : List Char}
    (h : Mantissa whole fraction mantissa) :
    ¬ (whole.isEmpty && fraction.isEmpty) = true := by
  cases h with
  | whole _ hne => simpa using hne
  | pointed _ _ hne => simpa using hne.resolve_left

theorem takeFraction_of_ne {cs : List Char} (h : NoneAhead (· = '.') cs) :
    takeFraction cs = ([], cs) := by
  unfold takeFraction
  split
  · exact absurd rfl (h _ rfl)
  · rfl

theorem decimalOf?_eq_some_iff {cs : List Char} {magnitude : Magnitude} :
    decimalOf? cs = some magnitude ↔
      ∃ (whole fraction mantissa exponent : List Char) (power : Int),
        magnitude = .decimal whole fraction power ∧ cs = mantissa ++ exponent
          ∧ Mantissa whole fraction mantissa ∧ Exponential power exponent := by
  constructor
  · intro h
    have hsplit := List.takeWhile_append_dropWhile (p := Decimal.isDigit) (l := cs)
    have hwhole := digitRun_takeWhile cs
    rw [decimalOf?] at h
    generalize cs.takeWhile Decimal.isDigit = whole at h hsplit hwhole
    generalize cs.dropWhile Decimal.isDigit = rest at h hsplit
    simp only [Option.ite_none_left_eq_some, Option.map_eq_some_iff] at h
    obtain ⟨hne, power, hpower, rfl⟩ := h
    rw [exponentOf?_eq_some_iff] at hpower
    by_cases hpoint : NoneAhead (· = '.') rest
    · rw [takeFraction_of_ne hpoint] at hne hpower ⊢
      refine ⟨whole, [], whole, rest, power, rfl, hsplit.symm, .whole hwhole ?_, hpower⟩
      simpa using hne
    · obtain ⟨places, rfl⟩ : ∃ places, rest = '.' :: places := by
        cases rest with
        | nil => exact absurd (by rintro c hc; cases hc) hpoint
        | cons c places =>
          refine ⟨places, ?_⟩
          by_contra hne
          refine hpoint ?_
          rintro d hd rfl
          obtain rfl := Option.some.inj hd
          exact hne rfl
      refine ⟨whole, _, whole ++ '.' :: places.takeWhile Decimal.isDigit, _, power, rfl, ?_,
        .pointed hwhole (digitRun_takeWhile places) ?_, hpower⟩
      · rw [← hsplit, List.append_assoc, List.cons_append]
        exact congrArg _ (congrArg _ (List.takeWhile_append_dropWhile).symm)
      · simpa [takeFraction, imp_iff_not_or] using hne
  · rintro ⟨whole, fraction, mantissa, exponent, power, rfl, rfl, hmantissa, hexponent⟩
    have hdigit := hexponent.noneAhead.imp fun c hc => Or.inl hc
    have hpoint := hexponent.noneAhead.imp fun c hc => Or.inr hc
    have hpower := exponentOf?_eq_some_iff.2 hexponent
    have hne := hmantissa.ne_nil
    cases hmantissa with
    | whole hwhole _ =>
      obtain ⟨htake, hdrop⟩ := takeWhile_run hwhole hdigit
      simp only [decimalOf?, htake, hdrop, takeFraction_of_ne hpoint, if_neg hne, hpower]
      rfl
    | pointed hwhole hfraction _ =>
      obtain ⟨htake, hdrop⟩ := takeWhile_run hwhole (noDigit_point (fraction ++ exponent))
      obtain ⟨htake', hdrop'⟩ := takeWhile_run hfraction hdigit
      rw [List.append_assoc, List.cons_append]
      simp only [decimalOf?, htake, hdrop, takeFraction, htake', hdrop', if_neg hne, hpower]
      rfl

/-- A mantissa starts with a digit or a point. -/
theorem Mantissa.head {whole fraction mantissa : List Char} (h : Mantissa whole fraction mantissa) :
    ∃ c rest, mantissa = c :: rest ∧ (Decimal.isDigit c = true ∨ c = '.') := by
  cases h with
  | whole hwhole hne =>
    obtain ⟨d, more, rfl⟩ := List.exists_cons_of_ne_nil hne
    exact ⟨d, more, rfl, .inl (hwhole d List.mem_cons_self)⟩
  | pointed hwhole _ _ =>
    cases whole with
    | nil => exact ⟨_, _, rfl, .inr rfl⟩
    | cons d more => exact ⟨_, _, rfl, .inl (hwhole d List.mem_cons_self)⟩

/-- **A text that starts with a digit or a point is no word.** -/
theorem map_toLower_ne {c : Char} (hc : Decimal.isDigit c = true ∨ c = '.') (rest : List Char)
    {word : String} (hword : word ∈ ["infinity", "inf", "nan"]) :
    (c :: rest).map Char.toLower ≠ word.toList := by
  have hsmall : c.toNat < 65 := by
    rcases hc with hdigit | rfl
    · have := isDigit_iff.1 hdigit
      omega
    · decide
  have hletter (first : Char) (hfirst : 65 ≤ first.toNat) (more : List Char) :
      (c :: rest).map Char.toLower ≠ first :: more :=
    fun h => toLower_ne_of_lt hsmall hfirst (List.cons_eq_cons.1 h).1
  simp only [List.mem_cons, List.not_mem_nil, or_false] at hword
  rcases hword with rfl | rfl | rfl
  · exact hletter 'i' (by decide) _
  · exact hletter 'i' (by decide) _
  · exact hletter 'n' (by decide) _

theorem Magnitude.ofChars?_eq_some_iff {cs : List Char} {magnitude : Magnitude} :
    Magnitude.ofChars? cs = some magnitude ↔ magnitude.SpelledBy cs := by
  constructor
  · intro h
    simp only [Magnitude.ofChars?] at h
    split_ifs at h with hinfinity hnan
    · obtain rfl := Option.some.inj h
      exact .infinity hinfinity
    · obtain rfl := Option.some.inj h
      exact .nan hnan
    · obtain ⟨whole, fraction, mantissa, exponent, power, rfl, rfl, hmantissa, hexponent⟩ :=
        decimalOf?_eq_some_iff.1 h
      exact .decimal hmantissa hexponent
  · intro h
    unfold Magnitude.ofChars?
    cases h with
    | infinity h => exact if_pos h
    | nan h =>
      rw [if_neg (by rw [h]; decide), if_pos h]
    | @decimal _ _ _ exponent _ hmantissa hexponent =>
      have hdecimal := decimalOf?_eq_some_iff.2 ⟨_, _, _, _, _, rfl, rfl, hmantissa, hexponent⟩
      obtain ⟨c, rest, rfl, hc⟩ := hmantissa.head
      have hword {word : String} (hmem : word ∈ ["infinity", "inf", "nan"]) :=
        map_toLower_ne hc (rest ++ exponent) hmem
      exact (if_neg (not_or.2 ⟨hword (by simp), hword (by simp)⟩)).trans
        ((if_neg (hword (by simp))).trans hdecimal)

/-- A word starts with a letter. -/
theorem exists_cons_of_word {cs : List Char} {first : Char} {word : List Char}
    (hfirst : 65 ≤ first.toNat) (h : cs.map Char.toLower = first :: word) :
    ∃ c rest, cs = c :: rest ∧ 65 ≤ c.toNat := by
  obtain ⟨c, rest, rfl, hc, -⟩ := List.map_eq_cons_iff.1 h
  refine ⟨c, rest, rfl, ?_⟩
  by_contra hlt
  exact toLower_ne_of_lt (Nat.lt_of_not_le hlt) hfirst hc

/-- A number without a sign starts with a letter, a digit or a point. -/
theorem Magnitude.SpelledBy.head {magnitude : Magnitude} {body : List Char}
    (h : magnitude.SpelledBy body) : ∃ c rest, body = c :: rest ∧ ¬ IsSign c := by
  have hletter {c : Char} (hc : 65 ≤ c.toNat) : ¬ IsSign c := by
    rintro (rfl | rfl) <;> revert hc <;> decide
  cases h with
  | infinity h =>
    obtain ⟨c, rest, rfl, hc⟩ := h.elim (exists_cons_of_word (by decide))
      (exists_cons_of_word (by decide))
    exact ⟨c, rest, rfl, hletter hc⟩
  | nan h =>
    obtain ⟨c, rest, rfl, hc⟩ := exists_cons_of_word (by decide) h
    exact ⟨c, rest, rfl, hletter hc⟩
  | decimal hmantissa _ =>
    obtain ⟨c, rest, rfl, hc⟩ := hmantissa.head
    refine ⟨c, _, rfl, ?_⟩
    rcases hc with hdigit | rfl
    · exact not_isSign_of_isDigit hdigit
    · rintro (h | h) <;> revert h <;> decide

theorem Magnitude.SpelledBy.noSign {magnitude : Magnitude} {body : List Char}
    (h : magnitude.SpelledBy body) (rest : List Char) : NoneAhead IsSign (body ++ rest) := by
  obtain ⟨c, more, rfl, hc⟩ := h.head
  rintro d hd
  obtain rfl := Option.some.inj hd
  exact hc

/-- **A text is read exactly if the grammar spells it**, and as the grammar says. -/
theorem Numeral.ofChars?_eq_some_iff {cs : List Char} {numeral : Numeral} :
    Numeral.ofChars? cs = some numeral ↔ numeral.SpelledBy cs := by
  constructor
  · intro h
    obtain ⟨sign, hsign, hcs⟩ := exists_sign cs
    have hread : (Magnitude.ofChars? (takeSign cs).2).map (Numeral.mk (takeSign cs).1)
        = some numeral := h
    obtain ⟨magnitude, hmagnitude, rfl⟩ := Option.map_eq_some_iff.1 hread
    have hspelled := SpelledBy.mk hsign (Magnitude.ofChars?_eq_some_iff.1 hmagnitude)
    rwa [← hcs] at hspelled
  · rintro ⟨hsign, hbody⟩
    have hahead := hbody.noSign []
    rw [List.append_nil] at hahead
    rw [Numeral.ofChars?, takeSign_append hsign hahead]
    exact Option.map_eq_some_iff.2 ⟨_, Magnitude.ofChars?_eq_some_iff.2 hbody, rfl⟩

/-! ## 4. The longest start that is a number -/

namespace Opening

/-- **Digits in front are counted with those that follow them.** -/
theorem digitCount_append {digits : List Char} (hrun : DigitRun digits) (rest : List Char) :
    digitCount (digits ++ rest) = digits.length + digitCount rest := by
  rw [digitCount, List.takeWhile_append_of_pos hrun, List.length_append, digitCount]

theorem digitCount_eq_zero {cs : List Char} (h : NoneAhead (Decimal.isDigit · = true) cs) :
    digitCount cs = 0 := by
  rw [digitCount, takeWhile_eq_nil h, List.length_nil]

theorem digitCount_le (cs : List Char) : digitCount cs ≤ cs.length :=
  (List.takeWhile_prefix _).length_le

theorem take_digitCount (cs : List Char) :
    cs.take (digitCount cs) = cs.takeWhile Decimal.isDigit :=
  (List.prefix_iff_eq_take.1 (List.takeWhile_prefix _)).symm

theorem signLength_append {negative : Bool} {sign body : List Char} (hsign : Signed negative sign)
    (hbody : NoneAhead IsSign body) : signLength (sign ++ body) = sign.length := by
  cases hsign with
  | plus => rfl
  | minus => rfl
  | none =>
    rw [List.nil_append]
    unfold signLength
    split
    · exact absurd (.inr rfl) (hbody _ rfl)
    · exact absurd (.inl rfl) (hbody _ rfl)
    · rfl

theorem signLength_le (cs : List Char) : signLength cs ≤ cs.length := by
  unfold signLength
  split <;> simp

theorem signed_take (cs : List Char) :
    ∃ negative : Bool, Signed negative (cs.take (signLength cs)) := by
  unfold signLength
  split
  · exact ⟨true, .minus⟩
  · exact ⟨false, .plus⟩
  · exact ⟨false, .none⟩

/-! ### Exponents -/

/-- What is taken as an exponent is one. -/
theorem exponential_take (cs : List Char) :
    ∃ power : Int, Exponential power (cs.take (exponentLength cs)) := by
  cases cs with
  | nil => exact ⟨0, .none⟩
  | cons c rest =>
    simp only [exponentLength]
    split_ifs with hmark hzero
    · exact ⟨0, .none⟩
    · obtain ⟨negative, hsign⟩ := signed_take rest
      rw [Nat.add_assoc, Nat.add_comm 1, List.take_succ_cons, List.take_add, take_digitCount]
      refine ⟨_, .some hmark hsign (digitRun_takeWhile _) ?_⟩
      exact List.ne_nil_of_length_pos (Nat.pos_of_ne_zero hzero)
    · exact ⟨0, .none⟩

theorem exponentLength_le (cs : List Char) : exponentLength cs ≤ cs.length := by
  cases cs with
  | nil => exact Nat.le_refl 0
  | cons c rest =>
    have hsign := signLength_le rest
    have hdigits := digitCount_le (rest.drop (signLength rest))
    rw [List.length_drop] at hdigits
    simp only [exponentLength, List.length_cons]
    split_ifs <;> omega

/-- **No exponent goes on behind what is taken.** -/
theorem length_le_exponentLength {power : Int} {exponent : List Char}
    (h : Exponential power exponent) (rest : List Char) :
    exponent.length ≤ exponentLength (exponent ++ rest) := by
  cases h with
  | none => exact Nat.zero_le _
  | @some c negative sign digits hmark hsign hdigits hne =>
    have hlength : 0 < digits.length := List.length_pos_of_ne_nil hne
    have hsigned : signLength (sign ++ (digits ++ rest)) = sign.length :=
      signLength_append hsign (noSign_of_run hdigits hne rest)
    rw [List.cons_append, List.append_assoc, exponentLength, if_pos hmark]
    simp only [hsigned, List.drop_left, digitCount_append hdigits, List.length_cons,
      List.length_append]
    rw [if_neg (by omega)]
    omega

/-! ### Mantissas -/

theorem mantissaLength_point {whole : List Char} (hwhole : DigitRun whole) (places : List Char) :
    mantissaLength (whole ++ '.' :: places)
      = if whole.length + digitCount places = 0 then 0
        else whole.length + 1 + digitCount places := by
  have hcount : digitCount (whole ++ '.' :: places) = whole.length := by
    rw [digitCount_append hwhole, digitCount_eq_zero (noDigit_point places), Nat.add_zero]
  simp only [mantissaLength, hcount, List.drop_left]

theorem mantissaLength_other {whole rest : List Char} (hwhole : DigitRun whole)
    (hrest : NoneAhead (fun c => Decimal.isDigit c = true ∨ c = '.') rest) :
    mantissaLength (whole ++ rest) = whole.length := by
  have hcount : digitCount (whole ++ rest) = whole.length := by
    rw [digitCount_append hwhole, digitCount_eq_zero (hrest.imp fun c hc => .inl hc), Nat.add_zero]
  simp only [mantissaLength, hcount, List.drop_left]
  split
  · exact absurd (.inr rfl) (hrest _ rfl)
  · rfl

/-- Every text starts with digits, none perhaps, and goes on with a point or with neither a digit
nor a point. -/
theorem exists_digits (cs : List Char) :
    ∃ whole rest : List Char, cs = whole ++ rest ∧ DigitRun whole
      ∧ ((∃ places, rest = '.' :: places)
        ∨ NoneAhead (fun c => Decimal.isDigit c = true ∨ c = '.') rest) := by
  refine ⟨_, _, (List.takeWhile_append_dropWhile (p := Decimal.isDigit)).symm,
    digitRun_takeWhile cs, ?_⟩
  have hahead := List.head?_dropWhile_not Decimal.isDigit cs
  cases hrest : cs.dropWhile Decimal.isDigit with
  | nil => exact .inr (by rintro c hc; cases hc)
  | cons c places =>
    by_cases hpoint : c = '.'
    · exact .inl ⟨places, by rw [hpoint]⟩
    · refine .inr ?_
      rintro d hd
      obtain rfl := Option.some.inj hd
      simpa [hrest, hpoint] using hahead

theorem mantissaLength_le (cs : List Char) : mantissaLength cs ≤ cs.length := by
  obtain ⟨whole, rest, rfl, hwhole, ⟨places, rfl⟩ | hrest⟩ := exists_digits cs
  · have hplaces := digitCount_le places
    rw [mantissaLength_point hwhole, List.length_append, List.length_cons]
    split_ifs <;> omega
  · rw [mantissaLength_other hwhole hrest, List.length_append]
    omega

/-- What is taken as a mantissa is one. -/
theorem mantissa_take {cs : List Char} (h : mantissaLength cs ≠ 0) :
    ∃ whole fraction : List Char, Mantissa whole fraction (cs.take (mantissaLength cs)) := by
  obtain ⟨whole, rest, rfl, hwhole, ⟨places, rfl⟩ | hrest⟩ := exists_digits cs
  · rw [mantissaLength_point hwhole] at h ⊢
    split_ifs at h ⊢ with hzero
    · exact absurd rfl h
    · have htake : (whole ++ '.' :: places).take (whole.length + 1 + digitCount places)
          = whole ++ '.' :: places.takeWhile Decimal.isDigit := by
        rw [Nat.add_assoc, List.take_length_add_append, Nat.add_comm 1, List.take_succ_cons,
          take_digitCount]
      rw [htake]
      refine ⟨whole, _, .pointed hwhole (digitRun_takeWhile places) ?_⟩
      by_contra hnone
      rw [not_or, not_not, not_not] at hnone
      exact hzero (by rw [digitCount, hnone.1, hnone.2]; rfl)
  · rw [mantissaLength_other hwhole hrest] at h ⊢
    rw [List.take_left]
    exact ⟨whole, [], .whole hwhole (List.ne_nil_of_length_pos (Nat.pos_of_ne_zero h))⟩

/-- **No mantissa goes on behind what is taken.** -/
theorem length_le_mantissaLength {whole fraction mantissa : List Char}
    (h : Mantissa whole fraction mantissa) (rest : List Char) :
    mantissa.length ≤ mantissaLength (mantissa ++ rest) := by
  cases h with
  | whole hwhole hne =>
    have hpos : 0 < whole.length := List.length_pos_of_ne_nil hne
    obtain ⟨more, rest, rfl, hmore, hrest⟩ := exists_digits rest
    have hrun : DigitRun (whole ++ more) := List.forall_mem_append.2 ⟨hwhole, hmore⟩
    rw [← List.append_assoc]
    obtain ⟨places, rfl⟩ | hrest := hrest
    · rw [mantissaLength_point hrun, List.length_append, if_neg (by omega)]
      omega
    · rw [mantissaLength_other hrun hrest, List.length_append]
      omega
  | pointed hwhole hfraction hne =>
    have hpos : whole.length + fraction.length ≠ 0 := by
      rcases hne with hne | hne <;> have := List.length_pos_of_ne_nil hne <;> omega
    rw [List.append_assoc, List.cons_append, mantissaLength_point hwhole,
      digitCount_append hfraction, if_neg (by omega), List.length_append, List.length_cons]
    omega

/-- In front of an exponent a mantissa is taken whole. -/
theorem mantissaLength_append {whole fraction mantissa rest : List Char}
    (h : Mantissa whole fraction mantissa)
    (hrest : NoneAhead (fun c => Decimal.isDigit c = true ∨ c = '.') rest) :
    mantissaLength (mantissa ++ rest) = mantissa.length := by
  cases h with
  | whole hwhole _ => exact mantissaLength_other hwhole hrest
  | pointed hwhole hfraction hne =>
    have hpos : whole.length + fraction.length ≠ 0 := by
      rcases hne with hne | hne <;> have := List.length_pos_of_ne_nil hne <;> omega
    rw [List.append_assoc, List.cons_append, mantissaLength_point hwhole,
      digitCount_append hfraction, digitCount_eq_zero (hrest.imp fun c hc => .inl hc),
      if_neg (by omega), List.length_append, List.length_cons]
    omega

/-! ### Words and decimals -/

theorem startsWith_iff {cs : List Char} {word : String} :
    startsWith cs word = true ↔ (cs.take word.length).map Char.toLower = word.toList :=
  beq_iff_eq

theorem startsWith_append {word : String} {body : List Char}
    (h : body.map Char.toLower = word.toList) (rest : List Char) :
    startsWith (body ++ rest) word = true := by
  have hlength : word.length = body.length := by
    rw [← String.length_toList, ← h, List.length_map]
  rw [startsWith_iff, hlength, List.take_left, h]

/-- **No decimal goes on behind what is taken.** -/
theorem length_le_decimal {whole fraction mantissa exponent : List Char} {power : Int}
    (hmantissa : Mantissa whole fraction mantissa) (hexponent : Exponential power exponent)
    (rest : List Char) :
    (mantissa ++ exponent).length ≤ mantissaLength (mantissa ++ (exponent ++ rest))
      + exponentLength ((mantissa ++ (exponent ++ rest)).drop
          (mantissaLength (mantissa ++ (exponent ++ rest)))) := by
  obtain rfl | ⟨c, more, hcons, -⟩ := hexponent.cases_head
  · have := length_le_mantissaLength hmantissa rest
    rw [List.append_nil, List.nil_append]
    omega
  · have hahead : NoneAhead (fun c => Decimal.isDigit c = true ∨ c = '.') (exponent ++ rest) := by
      have hnone := hexponent.noneAhead
      rw [hcons] at hnone ⊢
      exact hnone
    rw [mantissaLength_append hmantissa hahead, List.drop_left, List.length_append]
    have := length_le_exponentLength hexponent rest
    omega

end Opening

/-- Whether a number is a word. -/
def Magnitude.isWord : Magnitude → Bool
  | decimal _ _ _ => false
  | _ => true

/-- Whether a number has a digit other than zero before the exponent.  A word counts as having
one. -/
def Magnitude.isNonzero : Magnitude → Bool
  | decimal whole fraction _ => (whole ++ fraction).any fun c => '1' ≤ c && c ≤ '9'
  | _ => true

theorem Mantissa.any_nonzero {whole fraction mantissa : List Char}
    (h : Mantissa whole fraction mantissa) :
    (mantissa.any fun c => '1' ≤ c && c ≤ '9')
      = (whole ++ fraction).any fun c => '1' ≤ c && c ≤ '9' := by
  cases h with
  | whole _ _ => rw [List.append_nil]
  | pointed _ _ _ =>
    rw [List.any_append, List.any_append, List.any_cons]
    rfl

namespace Opening

/-- **What is found without a sign is a number**, and the flags say of which kind. -/
theorem ofUnsigned_spelled {cs : List Char} (h : (ofUnsigned cs).length ≠ 0) :
    ∃ magnitude : Magnitude, magnitude.SpelledBy (cs.take (ofUnsigned cs).length)
      ∧ (ofUnsigned cs).named = magnitude.isWord
      ∧ (ofUnsigned cs).nonzero = magnitude.isNonzero := by
  unfold ofUnsigned at h ⊢
  split
  · next word hfind =>
    have hstarts := startsWith_iff.1 (List.find?_some hfind)
    have hmem := List.mem_of_find?_eq_some hfind
    simp only [List.mem_cons, List.not_mem_nil, or_false] at hmem
    rcases hmem with rfl | rfl | rfl
    · exact ⟨.infinity, .infinity (.inl hstarts), rfl, rfl⟩
    · exact ⟨.infinity, .infinity (.inr hstarts), rfl, rfl⟩
    · exact ⟨.nan, .nan hstarts, rfl, rfl⟩
  · next hfind =>
    simp only [hfind] at h
    split_ifs at h with hzero
    · exact absurd rfl h
    · obtain ⟨whole, fraction, hmantissa⟩ := mantissa_take hzero
      obtain ⟨power, hexponent⟩ := exponential_take (cs.drop (mantissaLength cs))
      simp only [if_neg hzero, List.take_add]
      exact ⟨_, .decimal hmantissa hexponent, rfl, hmantissa.any_nonzero⟩

theorem ofUnsigned_length_le (cs : List Char) : (ofUnsigned cs).length ≤ cs.length := by
  unfold ofUnsigned
  split
  · next word hfind =>
    have hstarts := startsWith_iff.1 (List.find?_some hfind)
    have hlength : min word.length cs.length = word.length := by
      rw [← List.length_take, ← List.length_map Char.toLower, hstarts, String.length_toList]
    exact min_eq_left_iff.1 hlength
  · have hmantissa := mantissaLength_le cs
    have hexponent := exponentLength_le (cs.drop (mantissaLength cs))
    rw [List.length_drop] at hexponent
    dsimp only
    split_ifs
    · exact Nat.zero_le _
    · dsimp only
      omega

/-- A word at the start is found, or a longer one is. -/
theorem length_le_of_startsWith {cs : List Char} {word : String}
    (hword : word ∈ ["infinity", "inf", "nan"]) (h : startsWith cs word = true) :
    word.length ≤ (ofUnsigned cs).length := by
  have hlong : "infinity".length = 8 := rfl
  have hshort : "inf".length = 3 := rfl
  have hnan : "nan".length = 3 := rfl
  unfold ofUnsigned
  simp only [List.mem_cons, List.not_mem_nil, or_false] at hword
  cases hfirst : startsWith cs "infinity" with
  | true =>
    simp only [List.find?_cons_of_pos hfirst]
    rcases hword with rfl | rfl | rfl <;> omega
  | false =>
    rw [List.find?_cons_of_neg (by simp [hfirst])]
    cases hsecond : startsWith cs "inf" with
    | true =>
      simp only [List.find?_cons_of_pos hsecond]
      rcases hword with rfl | rfl | rfl
      · rw [hfirst] at h
        cases h
      all_goals omega
    | false =>
      rw [List.find?_cons_of_neg (by simp [hsecond])]
      rcases hword with rfl | rfl | rfl
      · rw [hfirst] at h
        cases h
      · rw [hsecond] at h
        cases h
      · simp only [List.find?_cons_of_pos h]
        omega

/-- **No number without a sign goes on behind what is found.** -/
theorem length_le_ofUnsigned {magnitude : Magnitude} {body : List Char}
    (h : magnitude.SpelledBy body) (rest : List Char) :
    body.length ≤ (ofUnsigned (body ++ rest)).length := by
  have hword {word : String} (hmem : word ∈ ["infinity", "inf", "nan"])
      (h : body.map Char.toLower = word.toList) :
      body.length ≤ (ofUnsigned (body ++ rest)).length := by
    have hlength : body.length = word.length := by
      rw [← String.length_toList, ← h, List.length_map]
    rw [hlength]
    exact length_le_of_startsWith hmem (startsWith_append h rest)
  cases h with
  | infinity h => exact h.elim (hword (by simp)) (hword (by simp))
  | nan h => exact hword (by simp) h
  | @decimal _ _ mantissa exponent _ hmantissa hexponent =>
    have hnone : ["infinity", "inf", "nan"].find? (startsWith (mantissa ++ (exponent ++ rest)))
        = none := by
      rw [List.find?_eq_none]
      intro word hmem hstarts
      obtain ⟨c, more, rfl, hc⟩ := hmantissa.head
      have hpos : 0 < word.length := by
        simp only [List.mem_cons, List.not_mem_nil, or_false] at hmem
        rcases hmem with rfl | rfl | rfl <;> decide
      rw [startsWith_iff, List.cons_append, ← Nat.sub_add_cancel hpos,
        List.take_succ_cons] at hstarts
      exact map_toLower_ne hc _ hmem hstarts
    have hle := length_le_decimal hmantissa hexponent rest
    have hmantissa' := length_le_mantissaLength hmantissa (exponent ++ rest)
    have hpos : 0 < mantissa.length := by
      obtain ⟨c, more, rfl, -⟩ := hmantissa.head
      exact Nat.succ_pos _
    rw [List.append_assoc, ofUnsigned, hnone]
    simp only
    rw [if_neg (by omega)]
    exact hle

/-- **What is found is a number**, and the flags say of which kind. -/
theorem scan_spelled {cs : List Char} (h : (scan cs).length ≠ 0) :
    ∃ numeral : Numeral, numeral.SpelledBy (cs.take (scan cs).length)
      ∧ (scan cs).named = numeral.magnitude.isWord
      ∧ (scan cs).nonzero = numeral.magnitude.isNonzero := by
  simp only [scan] at h ⊢
  split_ifs at h ⊢ with hzero
  · exact absurd hzero h
  · obtain ⟨magnitude, hspelled, hnamed, hnonzero⟩ := ofUnsigned_spelled hzero
    obtain ⟨negative, hsign⟩ := signed_take cs
    rw [List.take_add]
    exact ⟨⟨negative, magnitude⟩, .mk hsign hspelled, hnamed, hnonzero⟩

/-- What is found does not go on behind the end of the text. -/
theorem scan_length_le (cs : List Char) : (scan cs).length ≤ cs.length := by
  have hsign := signLength_le cs
  have hunsigned := ofUnsigned_length_le (cs.drop (signLength cs))
  rw [List.length_drop] at hunsigned
  simp only [scan]
  split_ifs
  · omega
  · dsimp only
    omega

/-- **No number goes on behind what is found.** -/
theorem length_le_scan {numeral : Numeral} {text : List Char} (h : numeral.SpelledBy text)
    (rest : List Char) : text.length ≤ (scan (text ++ rest)).length := by
  obtain ⟨hsign, hbody⟩ := h
  rename_i sign body
  have hsigned : signLength (sign ++ (body ++ rest)) = sign.length :=
    signLength_append hsign (hbody.noSign rest)
  have hle := length_le_ofUnsigned hbody rest
  have hpos : 0 < body.length := by
    obtain ⟨c, more, rfl, -⟩ := hbody.head
    exact Nat.succ_pos _
  rw [List.append_assoc]
  simp only [scan, hsigned, List.drop_left, List.length_append]
  rw [if_neg (by omega)]
  simp only
  omega

end Opening

end Literal
end SyntaxTree
