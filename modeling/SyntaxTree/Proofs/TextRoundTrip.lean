/-
# Written text is read back

The reader of bytes replaces what is ill-formed.  This file proves that it never touches what
the writer of characters wrote: `Lossy.chars` after `Utf8.ofChars` gives the characters back
(`chars_ofChars`).

The argument follows the reader through one character.  Its first byte names the length and
leaves the reader inside a sequence, with the range of the second byte narrowed where an
overlong form, a surrogate or a value past the last character would start (`start_lead2`,
`start_lead3`, `start_lead4`).  A character is none of these, which is where its validity
enters; each later byte then brings six more bits (`run_inside`).

A node pads its text with zero bytes, and reading it drops all zero bytes at the end, those of
the text included.  On written text this drops the trailing NUL characters and nothing else
(`text_trimZeros_ofString`), since no other character ends in a zero byte.
-/
import SyntaxTree.Tree.Decode

namespace SyntaxTree

/-! ## 1. The bytes of one character -/

namespace Utf8

theorem ofChar_one {c : Char} (h : c.toNat < 0x80) : ofChar c = [UInt8.ofNat c.toNat] := by
  simp [ofChar, encode, encodedLength, h, sequence, leadMarker, continuations]

theorem ofChar_two {c : Char} (hlow : 0x80 ≤ c.toNat) (hhigh : c.toNat < 0x800) :
    ofChar c = [UInt8.ofNat (0xC0 + c.toNat / 64), UInt8.ofNat (0x80 + c.toNat % 64)] := by
  have h1 : ¬ c.toNat < 0x80 := by omega
  simp [ofChar, encode, encodedLength, h1, hhigh, sequence, leadMarker, continuations,
    Nat.shiftRight_eq_div_pow]

theorem ofChar_three {c : Char} (hlow : 0x800 ≤ c.toNat) (hhigh : c.toNat < 0x10000) :
    ofChar c = [UInt8.ofNat (0xE0 + c.toNat / 4096), UInt8.ofNat (0x80 + c.toNat / 64 % 64),
      UInt8.ofNat (0x80 + c.toNat % 64)] := by
  have h1 : ¬ c.toNat < 0x80 := by omega
  have h2 : ¬ c.toNat < 0x800 := by omega
  simp [ofChar, encode, encodedLength, h1, h2, hhigh, sequence, leadMarker, continuations,
    Nat.shiftRight_eq_div_pow]

theorem ofChar_four {c : Char} (hlow : 0x10000 ≤ c.toNat) (hhigh : c.toNat < 0x200000) :
    ofChar c = [UInt8.ofNat (0xF0 + c.toNat / 262144), UInt8.ofNat (0x80 + c.toNat / 4096 % 64),
      UInt8.ofNat (0x80 + c.toNat / 64 % 64), UInt8.ofNat (0x80 + c.toNat % 64)] := by
  have h1 : ¬ c.toNat < 0x80 := by omega
  have h2 : ¬ c.toNat < 0x800 := by omega
  have h3 : ¬ c.toNat < 0x10000 := by omega
  simp [ofChar, encode, encodedLength, h1, h2, h3, hhigh, sequence, leadMarker, continuations,
    Nat.shiftRight_eq_div_pow]

end Utf8

/-! ## 2. Reading one character -/

namespace Lossy

/-- After the first byte of two. -/
theorem start_lead2 {k : Nat} (hlow : 2 ≤ k) (hhigh : k < 32) :
    start (UInt8.ofNat (0xC0 + k)) = ([], .inside ⟨k, 1, 0x80, 0xBF⟩) := by
  have h : ∀ k : Fin 32, 2 ≤ k.val →
      start (UInt8.ofNat (0xC0 + k.val)) = ([], .inside ⟨k.val, 1, 0x80, 0xBF⟩) := by decide
  exact h ⟨k, hhigh⟩ hlow

/-- After the first byte of three: no overlong form, and no surrogate. -/
theorem start_lead3 {k : Nat} (hhigh : k < 16) :
    start (UInt8.ofNat (0xE0 + k)) = ([], .inside
      ⟨k, 2, if k = 0 then 0xA0 else 0x80, if k = 13 then 0x9F else 0xBF⟩) := by
  have h : ∀ k : Fin 16, start (UInt8.ofNat (0xE0 + k.val)) = ([], .inside
      ⟨k.val, 2, if k.val = 0 then 0xA0 else 0x80, if k.val = 13 then 0x9F else 0xBF⟩) := by
    decide
  exact h ⟨k, hhigh⟩

/-- After the first byte of four: no overlong form, and nothing past the last character. -/
theorem start_lead4 {k : Nat} (hhigh : k < 5) :
    start (UInt8.ofNat (0xF0 + k)) = ([], .inside
      ⟨k, 3, if k = 0 then 0x90 else 0x80, if k = 4 then 0x8F else 0xBF⟩) := by
  have h : ∀ k : Fin 5, start (UInt8.ofNat (0xF0 + k.val)) = ([], .inside
      ⟨k.val, 3, if k.val = 0 then 0x90 else 0x80, if k.val = 4 then 0x8F else 0xBF⟩) := by
    decide
  exact h ⟨k, hhigh⟩

/-- A byte that leaves the reader inside a sequence. -/
theorem run_ready_of_start {byte : UInt8} {p : Pending} (h : start byte = ([], .inside p))
    (rest : List UInt8) : run .ready (byte :: rest) = run (.inside p) rest := by
  simp [run, step, h]

/-- **A later byte of a sequence, in its range, brings six more bits.**  The last one
completes the character. -/
theorem run_inside (p : Pending) {group : Nat} (hg : group < 64)
    (hlow : p.low.toNat ≤ 0x80 + group) (hhigh : 0x80 + group ≤ p.high.toNat)
    (rest : List UInt8) :
    run (.inside p) (UInt8.ofNat (0x80 + group) :: rest)
      = if p.missing ≤ 1 then Char.ofNat (p.bits * 64 + group) :: run .ready rest
        else run (.inside ⟨p.bits * 64 + group, p.missing - 1, 0x80, 0xBF⟩) rest := by
  have hbyte : (UInt8.ofNat (0x80 + group)).toNat = 0x80 + group := by
    rw [UInt8.toNat_ofNat']
    omega
  have hrange : p.low ≤ UInt8.ofNat (0x80 + group) ∧ UInt8.ofNat (0x80 + group) ≤ p.high := by
    rw [UInt8.le_iff_toNat_le, UInt8.le_iff_toNat_le, hbyte]
    exact ⟨hlow, hhigh⟩
  have hbits : (0x80 + group) % 64 = group := by omega
  simp only [run, step, if_pos hrange, hbyte, hbits]
  split <;> rfl

/-- The last byte of a sequence. -/
theorem run_inside_last (bits : Nat) {group : Nat} (hg : group < 64) (rest : List UInt8) :
    run (.inside ⟨bits, 1, 0x80, 0xBF⟩) (UInt8.ofNat (0x80 + group) :: rest)
      = Char.ofNat (bits * 64 + group) :: run .ready rest := by
  refine (run_inside _ hg ?_ ?_ rest).trans (if_pos (Nat.le_refl 1))
  · exact Nat.le_add_right 0x80 group
  · exact Nat.add_le_add_left (Nat.le_of_lt_succ hg) 0x80

/-- A byte in the middle of a sequence. -/
theorem run_inside_middle (bits missing : Nat) {group : Nat} (hg : group < 64)
    {low high : UInt8} (hlow : low.toNat ≤ 0x80 + group) (hhigh : 0x80 + group ≤ high.toNat)
    (rest : List UInt8) :
    run (.inside ⟨bits, missing + 2, low, high⟩) (UInt8.ofNat (0x80 + group) :: rest)
      = run (.inside ⟨bits * 64 + group, missing + 1, 0x80, 0xBF⟩) rest :=
  (run_inside _ hg hlow hhigh rest).trans (if_neg (by simp))

/-- A code point of a character is no surrogate and not past the last one. -/
theorem toNat_char_valid (c : Char) : c.toNat < 0xD800 ∨ 0xDFFF < c.toNat ∧ c.toNat < 0x110000 :=
  c.valid

/-- **One written character is read back**, whatever follows. -/
theorem run_ofChar_append (c : Char) (rest : List UInt8) :
    run .ready (Utf8.ofChar c ++ rest) = c :: run .ready rest := by
  have hvalid := toNat_char_valid c
  have hofNat {n : Nat} (h : n = c.toNat) : Char.ofNat n = c := by rw [h, Char.ofNat_toNat]
  by_cases h1 : c.toNat < 0x80
  · have hbyte : (UInt8.ofNat c.toNat).toNat = c.toNat := by
      rw [UInt8.toNat_ofNat']
      omega
    have hsmall : UInt8.ofNat c.toNat < 0x80 := by
      rw [UInt8.lt_iff_toNat_lt, hbyte]
      exact h1
    rw [Utf8.ofChar_one h1]
    simp only [List.singleton_append, run, step, start, if_pos hsmall, hbyte]
    rw [hofNat rfl]
  by_cases h2 : c.toNat < 0x800
  · rw [Utf8.ofChar_two (by omega) h2]
    simp only [List.cons_append, List.nil_append]
    rw [run_ready_of_start (start_lead2 (by omega) (by omega)),
      run_inside_last _ (by omega), hofNat (by omega)]
  by_cases h3 : c.toNat < 0x10000
  · rw [Utf8.ofChar_three (by omega) h3]
    simp only [List.cons_append, List.nil_append]
    rw [run_ready_of_start (start_lead3 (by omega)),
      run_inside_middle _ 0 (by omega) ?low ?high, run_inside_last _ (by omega),
      hofNat (by omega)]
    case low =>
      split <;> simp
      omega
    case high => split <;> simp <;> omega
  · rw [Utf8.ofChar_four (by omega) (by omega)]
    simp only [List.cons_append, List.nil_append]
    rw [run_ready_of_start (start_lead4 (by omega)),
      run_inside_middle _ 1 (by omega) ?low ?high,
      run_inside_middle _ 0 (by omega) (by simp) (by simp; omega),
      run_inside_last _ (by omega), hofNat (by omega)]
    case low =>
      split <;> simp
      omega
    case high => split <;> simp <;> omega

/-- **Written characters are read back.** -/
theorem chars_ofChars : ∀ cs : List Char, chars (Utf8.ofChars cs) = cs
  | [] => rfl
  | c :: rest => by
    have ih : run .ready (Utf8.ofChars rest) = rest := chars_ofChars rest
    rw [chars, Utf8.ofChars, List.flatMap_cons, run_ofChar_append]
    exact congrArg _ ih

end Lossy

/-! ## 3. Zero bytes at the end -/

/-- `cs` without the NUL characters it ends with. -/
def dropNulsEnd (cs : List Char) : List Char := (cs.reverse.dropWhile (· == Char.ofNat 0)).reverse

/-- A text without the NUL characters it ends with. -/
def trimNuls (s : String) : String := String.ofList (dropNulsEnd s.toList)

theorem trimZeros_append_zero (data : List UInt8) : trimZeros (data ++ [0]) = trimZeros data := by
  simp [trimZeros]

theorem trimZeros_append_replicate (data : List UInt8) :
    ∀ count : Nat, trimZeros (data ++ List.replicate count 0) = trimZeros data
  | 0 => by simp
  | count + 1 => by
    rw [List.replicate_succ', ← List.append_assoc, trimZeros_append_zero,
      trimZeros_append_replicate data count]

/-- The padding of a text is dropped with the zero bytes the text ends with. -/
theorem trimZeros_padded (data : List UInt8) : trimZeros (padded data) = trimZeros data :=
  trimZeros_append_replicate data _

theorem trimZeros_append_of_ne_zero (data : List UInt8) {b : UInt8} (h : b ≠ 0) :
    trimZeros (data ++ [b]) = data ++ [b] := by
  simp [trimZeros, h]

theorem dropNulsEnd_append_nul (cs : List Char) :
    dropNulsEnd (cs ++ [Char.ofNat 0]) = dropNulsEnd cs := by
  simp [dropNulsEnd]

theorem dropNulsEnd_append_of_ne_nul (cs : List Char) {c : Char} (h : c ≠ Char.ofNat 0) :
    dropNulsEnd (cs ++ [c]) = cs ++ [c] := by
  simp [dropNulsEnd, h]

/-- Text that does not end in a NUL keeps all its characters. -/
theorem trimNuls_of_getLast?_ne {s : String} (h : s.toList.getLast? ≠ some (Char.ofNat 0)) :
    trimNuls s = s := by
  have hlist : dropNulsEnd s.toList = s.toList := by
    rcases List.eq_nil_or_concat s.toList with hnil | ⟨front, last, hconcat⟩
    · rw [hnil]
      rfl
    · rw [hconcat, List.concat_eq_append] at h ⊢
      refine dropNulsEnd_append_of_ne_nul front ?_
      rintro rfl
      exact h List.getLast?_concat
  rw [trimNuls, hlist, String.ofList_toList]

/-- **Only a NUL ends in a zero byte.** -/
theorem Utf8.ofChar_getLast {c : Char} (h : c ≠ Char.ofNat 0) :
    ∃ front last, Utf8.ofChar c = front ++ [last] ∧ last ≠ 0 := by
  have hcont (n : Nat) : UInt8.ofNat (0x80 + n % 64) ≠ 0 := by
    intro he
    have hnat := congrArg UInt8.toNat he
    rw [UInt8.toNat_ofNat', UInt8.toNat_zero] at hnat
    omega
  have hvalid := Lossy.toNat_char_valid c
  by_cases h1 : c.toNat < 0x80
  · refine ⟨[], _, Utf8.ofChar_one h1, ?_⟩
    intro he
    have hzero : c.toNat = 0 := by
      have hnat := congrArg UInt8.toNat he
      rw [UInt8.toNat_ofNat', UInt8.toNat_zero] at hnat
      omega
    exact h (by rw [← hzero, Char.ofNat_toNat])
  by_cases h2 : c.toNat < 0x800
  · exact ⟨[_], _, Utf8.ofChar_two (by omega) h2, hcont _⟩
  by_cases h3 : c.toNat < 0x10000
  · exact ⟨[_, _], _, Utf8.ofChar_three (by omega) h3, hcont _⟩
  · exact ⟨[_, _, _], _, Utf8.ofChar_four (by omega) (by omega), hcont _⟩

theorem Utf8.ofChars_cons (c : Char) (cs : List Char) :
    Utf8.ofChars (c :: cs) = Utf8.ofChar c ++ Utf8.ofChars cs := List.flatMap_cons

theorem Utf8.ofChars_append (cs ds : List Char) :
    Utf8.ofChars (cs ++ ds) = Utf8.ofChars cs ++ Utf8.ofChars ds := List.flatMap_append

/-- Dropping zero bytes from written text drops NUL characters.  The induction takes
characters off the end, where the bytes are dropped. -/
theorem trimZeros_ofChars (cs : List Char) :
    trimZeros (Utf8.ofChars cs) = Utf8.ofChars (dropNulsEnd cs) := by
  obtain ⟨reversed, rfl⟩ : ∃ reversed : List Char, cs = reversed.reverse :=
    ⟨cs.reverse, (List.reverse_reverse cs).symm⟩
  induction reversed with
  | nil => rfl
  | cons c rest ih =>
    rw [List.reverse_cons]
    by_cases hc : c = Char.ofNat 0
    · have hzero : Utf8.ofChars [Char.ofNat 0] = [0] := by decide
      rw [hc, dropNulsEnd_append_nul, Utf8.ofChars_append, hzero, trimZeros_append_zero, ih]
    · obtain ⟨front, last, hbytes, hlast⟩ := Utf8.ofChar_getLast hc
      have hone : Utf8.ofChars [c] = front ++ [last] := by
        rw [Utf8.ofChars, List.flatMap_singleton, hbytes]
      rw [dropNulsEnd_append_of_ne_nul _ hc, Utf8.ofChars_append, hone, ← List.append_assoc,
        trimZeros_append_of_ne_zero _ hlast]

/-- **A stored text is read back without the NUL characters it ends with.** -/
theorem text_trimZeros_ofString (s : String) :
    Lossy.text (trimZeros (Utf8.ofString s)) = trimNuls s := by
  rw [Utf8.ofString, trimZeros_ofChars, Lossy.text, Lossy.chars_ofChars, trimNuls]

end SyntaxTree
