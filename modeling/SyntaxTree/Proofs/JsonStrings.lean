/-
# A string written as JSON is read back

The writer escapes quotes, backslashes and controls one by one and copies every other character.
The reader goes by stretches: it takes all plain bytes up to a quote or a backslash at once, reads
one escape, and starts the next stretch.  So the two do not go in step, and the induction over the
characters carries the stretch that is open (`stringPieces_escaped`): a plain character makes it
longer, and an escaped one closes it.

* `escaped_cases` is the step: the bytes of a character are plain, or what is written behind the
  backslash is read as the character, whatever follows.
* `run_text_quote` is the result for whole texts, with the quotes around the string.

The reader has fuel for as many rounds as there are bytes.  Each round but the last takes at least
a backslash, so the bytes of the characters that are left bound the rounds to come.
-/
import SyntaxTree.Json.Instances
import SyntaxTree.Proofs.Spelling

namespace SyntaxTree
namespace Json

/-! ## 1. Readers one after another -/

namespace Reader

variable {α β : Type}

/-- What follows a reader goes on where the reader stopped. -/
theorem bind_of_ok {reader : Reader α} {next : α → Reader β} {input after : Input} {value : α}
    (h : reader input = .ok (value, after)) : (reader >>= next) input = next value after := by
  change (reader input >>= fun result => next result.1 result.2) = next value after
  rw [h]
  rfl

theorem advance_cons (b : UInt8) (rest : List UInt8) (index : Nat) :
    advance ⟨b :: rest, index⟩ = .ok ((), ⟨rest, index + 1⟩) := rfl

/-- Taking bytes stops in front of the first that fails the test. -/
theorem takeWhile_append {test : UInt8 → Bool} {taken rest : List UInt8} {stop : UInt8}
    (htaken : ∀ b ∈ taken, test b = true) (hstop : test stop = false) (index : Nat) :
    takeWhile test ⟨taken ++ stop :: rest, index⟩
      = .ok (taken, ⟨stop :: rest, index + taken.length⟩) := by
  have hbytes : (taken ++ stop :: rest).takeWhile test = taken := by
    rw [List.takeWhile_append_of_pos htaken, List.takeWhile_cons_of_neg (by simp [hstop]),
      List.append_nil]
  unfold takeWhile
  dsimp only
  rw [hbytes, Input.skip, List.drop_left]

/-! ## 2. Stretches of plain bytes -/

/-- Whether a byte stands in a string for itself. -/
def isPlain (b : UInt8) : Bool := b != Ascii.byte '"' && b != Ascii.byte '\\' && 0x20 ≤ b

/-- A quote ends the string. -/
theorem stringPieces_quote {plain : List UInt8} (hplain : ∀ b ∈ plain, isPlain b = true)
    (fuel : Nat) (pieces : List (List UInt8)) (rest : List UInt8) (index : Nat) :
    stringPieces false (fuel + 1) pieces ⟨plain ++ Ascii.byte '"' :: rest, index⟩
      = .ok (plain :: pieces, ⟨rest, index + plain.length + 1⟩) := by
  rw [stringPieces]
  exact bind_of_ok (takeWhile_append hplain (by decide) index)

/-- A backslash ends a stretch, and an escape follows. -/
theorem stringPieces_backslash {plain : List UInt8} (hplain : ∀ b ∈ plain, isPlain b = true)
    {more bytes : List UInt8} {index : Nat} {after : Input}
    (hescape : escape false ⟨more, index + plain.length + 1⟩ = .ok (bytes, after))
    (fuel : Nat) (pieces : List (List UInt8)) :
    stringPieces false (fuel + 1) pieces ⟨plain ++ Ascii.byte '\\' :: more, index⟩
      = stringPieces false fuel (bytes :: plain :: pieces) after := by
  rw [stringPieces]
  refine (bind_of_ok (takeWhile_append hplain (by decide) index)).trans ?_
  change (escape false >>= fun bytes => stringPieces false fuel (bytes :: plain :: pieces))
    ⟨more, index + plain.length + 1⟩ = _
  exact bind_of_ok hescape

end Reader

/-! ## 3. One character -/

open Reader

/-- The four digits of a control character. -/
def controlDigits (code : Nat) : List Char :=
  ['0', '0', Hex.digit (code / 16), Hex.digit (code % 16)]

theorem unit?_control {code : Nat} (h : code < 0x20) :
    unit? (Utf8.ofChars (controlDigits code)) = some code
      ∧ (Utf8.ofChars (controlDigits code)).length = 4 := by
  have hall : ∀ code : Fin 0x20, unit? (Utf8.ofChars (controlDigits code)) = some code.val
      ∧ (Utf8.ofChars (controlDigits code)).length = 4 := by decide
  exact hall ⟨code, h⟩

/-- The digits of a control character are read as its code. -/
theorem hexUnit_control {code : Nat} (h : code < 0x20) (rest : List UInt8) (index : Nat) :
    hexUnit ⟨Utf8.ofChars (controlDigits code) ++ rest, index⟩
      = .ok (code, ⟨rest, index + 4⟩) := by
  obtain ⟨hunit, hlength⟩ := unit?_control h
  unfold hexUnit
  dsimp only
  rw [List.length_append, hlength, if_neg (by omega), List.take_left' hlength, hunit]
  simp only [Input.skip, List.drop_left' hlength]

/-- They are no surrogate, so no second unit follows. -/
theorem codePoint_control {code : Nat} (h : code < 0x20) (rest : List UInt8) (index : Nat) :
    codePoint ⟨Utf8.ofChars (controlDigits code) ++ rest, index⟩
      = .ok (code, ⟨rest, index + 4⟩) := by
  rw [codePoint, bind_of_ok (hexUnit_control h rest index), if_neg (by omega), if_neg (by omega)]
  rfl

/-- The letter in front of the digits of a code point. -/
theorem escape_u (more : List UInt8) (index : Nat) :
    escape false ⟨Ascii.byte 'u' :: more, index⟩
      = (codePoint >>= fun code => pure ((Utf8.encode code).getD [])) ⟨more, index + 1⟩ := rfl

/-- The bytes of a character that is no quote, backslash or control are plain. -/
theorem isPlain_of_mem_ofChar {c : Char} (hquote : c ≠ '"') (hslash : c ≠ '\\')
    (hprintable : ¬ c.toNat < 0x20) : ∀ b ∈ Utf8.ofChar c, isPlain b = true := by
  intro b hb
  have hfirst := Utf8.ne_byte_of_mem_ofChar (by decide) hquote b hb
  have hsecond := Utf8.ne_byte_of_mem_ofChar (by decide) hslash b hb
  have hlow : 0x20 ≤ b.toNat := by
    by_cases hascii : c.toNat < 0x80
    · rw [Utf8.ofChar_one hascii, List.mem_singleton] at hb
      rw [hb, UInt8.toNat_ofNat']
      omega
    · exact Nat.le_trans (by decide) (Utf8.le_toNat_of_mem_ofChar (Nat.le_of_not_lt hascii) b hb)
  simp [isPlain, hfirst, hsecond, UInt8.le_iff_toNat_le, hlow]

/-- **A character is written as itself, or behind a backslash.**  Its bytes are plain, or what
follows the backslash is read as the character, whatever comes next. -/
theorem escaped_cases (c : Char) :
    (escaped c = [c] ∧ ∀ b ∈ Utf8.ofChar c, isPlain b = true)
      ∨ ∃ behind : List Char, escaped c = '\\' :: behind
        ∧ ∀ (rest : List UInt8) (index : Nat), ∃ after : Nat,
            escape false ⟨Utf8.ofChars behind ++ rest, index⟩
              = .ok (Utf8.ofChar c, ⟨rest, after⟩) := by
  unfold escaped
  split
  case h_8 hquote hslash _ _ _ _ _ =>
    split
    · rename_i hcontrol
      refine .inr ⟨_, rfl, ?_⟩
      intro rest index
      refine ⟨index + 1 + 4, ?_⟩
      refine (escape_u _ index).trans ?_
      exact bind_of_ok (codePoint_control hcontrol rest (index + 1))
    · rename_i hprintable
      exact .inl ⟨rfl, isPlain_of_mem_ofChar hquote hslash hprintable⟩
  -- the letters of the short escapes
  all_goals exact .inr ⟨_, rfl, fun rest index => ⟨_, rfl⟩⟩

/-! ## 4. Strings -/

/-- **The characters of a string are read back**, behind a stretch of plain bytes that is still
open.  A plain character joins the stretch; behind an escaped one the next stretch is empty. -/
theorem stringPieces_escaped (cs : List Char) {plain : List UInt8}
    (hplain : ∀ b ∈ plain, isPlain b = true) {fuel : Nat}
    (hfuel : (Utf8.ofChars (cs.flatMap escaped)).length < fuel) (pieces : List (List UInt8))
    (rest : List UInt8) (index : Nat) :
    ∃ (read : List (List UInt8)) (after : Nat),
      stringPieces false fuel pieces
          ⟨plain ++ (Utf8.ofChars (cs.flatMap escaped) ++ Ascii.byte '"' :: rest), index⟩
        = .ok (read, ⟨rest, after⟩)
      ∧ read.reverse.flatten = pieces.reverse.flatten ++ plain ++ Utf8.ofChars cs := by
  obtain ⟨fuel, rfl⟩ : ∃ left, fuel = left + 1 := Nat.exists_eq_succ_of_ne_zero (by omega)
  induction cs generalizing plain fuel pieces index with
  | nil =>
    refine ⟨_, _, stringPieces_quote hplain fuel pieces rest index, ?_⟩
    simp [Utf8.ofChars]
  | cons c others ih =>
    rw [List.flatMap_cons, Utf8.ofChars_append] at hfuel ⊢
    rcases escaped_cases c with ⟨hself, hbytes⟩ | ⟨behind, hbehind, hescape⟩
    · have hone : Utf8.ofChars (escaped c) = Utf8.ofChar c := by
        rw [hself, Utf8.ofChars, List.flatMap_singleton]
      rw [hone, List.length_append] at hfuel
      have hlonger : ∀ b ∈ plain ++ Utf8.ofChar c, isPlain b = true := by
        intro b hb
        exact (List.mem_append.1 hb).elim (hplain b) (hbytes b)
      obtain ⟨read, after, hread, hflat⟩ := ih hlonger pieces index fuel (by omega)
      refine ⟨read, after, ?_, ?_⟩
      · rw [hone, List.append_assoc, ← List.append_assoc plain]
        exact hread
      · rw [hflat, Utf8.ofChars_cons]
        simp
    · have hslash : Utf8.ofChars (escaped c) = Ascii.byte '\\' :: Utf8.ofChars behind := by
        rw [hbehind]
        rfl
      rw [hslash, List.length_append, List.length_cons] at hfuel
      obtain ⟨middle, hmiddle⟩ := hescape
        (Utf8.ofChars (others.flatMap escaped) ++ Ascii.byte '"' :: rest) (index + plain.length + 1)
      obtain ⟨fuel, rfl⟩ : ∃ left, fuel = left + 1 := Nat.exists_eq_succ_of_ne_zero (by omega)
      obtain ⟨read, after, hread, hflat⟩ := ih (List.forall_mem_nil _)
        (Utf8.ofChar c :: plain :: pieces) middle fuel (by omega)
      refine ⟨read, after, ?_, ?_⟩
      · rw [hslash, List.cons_append, List.cons_append, List.append_assoc,
          stringPieces_backslash hplain hmiddle]
        exact hread
      · rw [hflat, Utf8.ofChars_cons]
        simp

/-- The bytes of a string behind its opening quote. -/
theorem stringBytes_escaped (cs : List Char) (rest : List UInt8) (index : Nat) :
    ∃ after : Nat,
      stringBytes false
          ⟨Utf8.ofChars (cs.flatMap escaped) ++ Ascii.byte '"' :: rest, index⟩
        = .ok (Utf8.ofChars cs, ⟨rest, after⟩) := by
  have hfuel : (Utf8.ofChars (cs.flatMap escaped)).length
      < (Utf8.ofChars (cs.flatMap escaped) ++ Ascii.byte '"' :: rest).length + 1 := by
    rw [List.length_append]
    omega
  obtain ⟨read, after, hread, hflat⟩ :=
    stringPieces_escaped cs (List.forall_mem_nil _) hfuel [] rest index
  refine ⟨after, ?_⟩
  change (stringPieces false _ [] >>= fun pieces => pure pieces.reverse.flatten) _ = _
  refine (bind_of_ok hread).trans ?_
  rw [hflat]
  rfl

theorem ofString_quote (s : String) :
    Utf8.ofString (quote s)
      = Ascii.byte '"' :: (Utf8.ofChars (s.toList.flatMap escaped) ++ [Ascii.byte '"']) := by
  rw [Utf8.ofString, quote, String.toList_ofList, Utf8.ofChars_append]
  rfl

/-- A text that starts with a quote starts a string. -/
theorem valueStart_quote (more : List UInt8) (index : Nat) :
    valueStart ⟨Ascii.byte '"' :: more, index⟩
      = .ok (Ascii.byte '"', ⟨Ascii.byte '"' :: more, index⟩) := rfl

/-- **A string written as JSON is read back.** -/
theorem run_text_quote (label s : String) :
    run (text label) (Utf8.ofString (quote s)) = .ok s := by
  obtain ⟨after, hbytes⟩ := stringBytes_escaped s.toList [] (0 + 1)
  have htext : text label ⟨Utf8.ofString (quote s), 0⟩ = .ok (s, ⟨[], after⟩) := by
    rw [ofString_quote, text, bind_of_ok (valueStart_quote _ 0), if_pos rfl, quotedText,
      bind_of_ok (advance_cons _ _ 0), bind_of_ok hbytes, Lossy.text, Lossy.chars_ofChars,
      String.ofList_toList]
    rfl
  unfold run
  dsimp only
  rw [bind_of_ok htext]
  rfl

end Json
end SyntaxTree
