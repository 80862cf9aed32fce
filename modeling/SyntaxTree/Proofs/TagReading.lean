/-
# A name that is shown and read again

A tag is the first eight bytes of a name, so the last character of the name may be cut.  Showing
the tag replaces what is left of that character by one replacement character of three bytes, and
reading what was shown cuts it again.  Names are also padded with spaces and shown without them,
and a name may end in spaces of its own.

* Spaces at the end play no part: a tag is determined by its bytes without them
  (`ofBytes_eq_iff`), and they are read as themselves even behind a cut character
  (`chars_append_spaces`), so reading again comes to reading all eight bytes (`reread_eq`).
* If the cut falls between characters, the bytes are written text and nothing changes
  (`reread_of_written`).
* If it falls inside a character, one to three of its bytes are left, and they are read as one
  replacement (`run_of_cut`).  Of the replacement as many bytes remain after the next cut, and
  these are again read as one replacement (`reread_reread_of_cut`).  So the bytes may change once,
  and never again.

`reread_settles` puts this together with the reading from JSON, which is the same
(`ofJson_toJson`).
-/
import Mathlib.Data.List.DropRight
import Mathlib.Data.List.Infix
import SyntaxTree.Proofs.DumpLines
import SyntaxTree.Proofs.JsonStrings

namespace SyntaxTree

/-! ## 1. Bytes that end inside a character -/

namespace Utf8

theorem length_ofChar_le (c : Char) : (ofChar c).length ≤ 4 := by
  have hvalid := Lossy.toNat_char_valid c
  by_cases h1 : c.toNat < 0x80
  · simp [ofChar_one h1]
  by_cases h2 : c.toNat < 0x800
  · simp [ofChar_two (by omega) h2]
  by_cases h3 : c.toNat < 0x10000
  · simp [ofChar_three (by omega) h3]
  · simp [ofChar_four (c := c) (by omega) (by omega)]

/-- The first bytes of a character: at least one, and not all. -/
def CutShort (part : List UInt8) : Prop :=
  ∃ (c : Char) (back : List UInt8), part ≠ [] ∧ back ≠ [] ∧ ofChar c = part ++ back

/-- One to three bytes are left of a character that is cut. -/
theorem CutShort.length_le {part : List UInt8} (h : CutShort part) :
    1 ≤ part.length ∧ part.length ≤ 3 := by
  obtain ⟨c, back, hpart, hback, hbytes⟩ := h
  have hlength := length_ofChar_le c
  have hfront := List.length_pos_iff.2 hpart
  have hrest := List.length_pos_iff.2 hback
  rw [hbytes, List.length_append] at hlength
  omega

/-- **Written text that is cut ends with a character or inside one.**  In the second case the cut
leaves as many bytes as it says. -/
theorem take_ofChars (cs : List Char) (count : Nat) :
    ∃ front : List Char, front <+: cs
      ∧ ((ofChars cs).take count = ofChars front
        ∨ ∃ part : List UInt8, CutShort part ∧ (ofChars cs).take count = ofChars front ++ part
            ∧ count ≤ (ofChars cs).length) := by
  induction cs generalizing count with
  | nil => exact ⟨[], List.nil_prefix, .inl List.take_nil⟩
  | cons c rest ih =>
    rw [ofChars_cons, List.length_append]
    by_cases hfits : (ofChar c).length ≤ count
    · obtain ⟨front, hprefix, hcut⟩ := ih (count - (ofChar c).length)
      refine ⟨c :: front, (List.prefix_cons_inj c).2 hprefix, ?_⟩
      rw [List.take_append, List.take_of_length_le hfits, ofChars_cons]
      rcases hcut with hwhole | ⟨part, hpart, hcut, hcount⟩
      · exact .inl (by rw [hwhole])
      · exact .inr ⟨part, hpart, by rw [hcut, List.append_assoc], by omega⟩
    · refine ⟨[], List.nil_prefix, ?_⟩
      rw [List.take_append_of_le_length (by omega)]
      cases count with
      | zero => exact .inl rfl
      | succ count =>
        refine .inr ⟨_, ⟨c, (ofChar c).drop (count + 1), ?_, ?_, ?_⟩, rfl, by omega⟩
        · rw [← List.length_pos_iff, List.length_take]
          omega
        · rw [← List.length_pos_iff, List.length_drop]
          omega
        · exact (List.take_append_drop _ _).symm

end Utf8

/-! ## 2. Reading them -/

namespace Lossy

theorem run_cons (state : State) (byte : UInt8) (rest : List UInt8) :
    run state (byte :: rest) = (step state byte).1 ++ run (step state byte).2 rest := by
  cases state <;> rfl

/-- What a byte between characters can do: be read at once, or start a sequence. -/
inductive Begins : List Char × State → Prop where
  | whole (c : Char) : Begins ([c], .ready)
  | lead (p : Pending) : Begins ([], .inside p)

theorem begins_start (byte : UInt8) : Begins (start byte) := by
  unfold start
  split
  · exact .whole _
  split
  · exact .whole _
  -- the lead bytes, with a range of their own for the second byte or not
  split
  · exact .lead _
  split
  · exact .lead _
  split
  · exact .lead _
  split
  · exact .lead _
  split
  · exact .lead _
  split
  · exact .lead _
  split
  · exact .lead _
  · exact .whole _

/-- A byte that completes nothing leaves the reader inside a sequence. -/
theorem inside_of_step_nil {state : State} {byte : UInt8} (h : (step state byte).1 = []) :
    (step state byte).2 ≠ .ready := by
  cases state with
  | ready =>
    rw [step] at h ⊢
    have hbegins := begins_start byte
    generalize start byte = begun at h hbegins ⊢
    cases hbegins with
    | whole c => exact absurd h (List.cons_ne_nil _ _)
    | lead p => exact State.noConfusion
  | inside p =>
    rw [step] at h ⊢
    by_cases hrange : p.low ≤ byte ∧ byte ≤ p.high
    · rw [if_pos hrange] at h ⊢
      by_cases hlast : p.missing ≤ 1
      · simp [hlast] at h
      · simp [hlast]
    · rw [if_neg hrange] at h
      exact absurd h (List.cons_ne_nil _ _)

/-- Inside a sequence something is read, at the latest at the end. -/
theorem run_ne_nil_of_inside {state : State} (h : state ≠ .ready) (bytes : List UInt8) :
    run state bytes ≠ [] := by
  induction bytes generalizing state with
  | nil =>
    cases state with
    | ready => exact absurd rfl h
    | inside p => exact List.cons_ne_nil _ _
  | cons byte rest ih =>
    rw [run_cons]
    intro hnil
    obtain ⟨hstep, hrest⟩ := List.append_eq_nil_iff.1 hnil
    exact ih (inside_of_step_nil hstep) hrest

/-- Bytes are read as something. -/
theorem run_ne_nil {bytes : List UInt8} (h : bytes ≠ []) (state : State) :
    run state bytes ≠ [] := by
  obtain ⟨byte, rest, rfl⟩ := List.exists_cons_of_ne_nil h
  rw [run_cons]
  intro hnil
  obtain ⟨hstep, hrest⟩ := List.append_eq_nil_iff.1 hnil
  exact run_ne_nil_of_inside (inside_of_step_nil hstep) rest hrest

/-- **Bytes that end inside a character are read as one replacement.**  If all bytes together are
read as one character, then none is complete before the last, so the reader is still inside when
the bytes end. -/
theorem run_of_cut {state : State} {part back : List UInt8} (hback : back ≠ [])
    (hone : (run state (part ++ back)).length = 1) (hpart : part ≠ [] ∨ state ≠ .ready) :
    run state part = [replacement] := by
  induction part generalizing state with
  | nil =>
    cases state with
    | ready => exact absurd hpart (by simp)
    | inside p => rfl
  | cons byte rest ih =>
    rw [List.cons_append, run_cons, List.length_append] at hone
    have hpos : 0 < (run (step state byte).2 (rest ++ back)).length :=
      List.length_pos_iff.2 (run_ne_nil (by simp [hback]) _)
    have hstep : (step state byte).1 = [] := List.length_eq_zero_iff.1 (by omega)
    rw [hstep, List.length_nil, Nat.zero_add] at hone
    rw [run_cons, hstep, List.nil_append]
    exact ih hone (.inr (inside_of_step_nil hstep))

theorem run_ofChars_append (cs : List Char) (rest : List UInt8) :
    run .ready (Utf8.ofChars cs ++ rest) = cs ++ run .ready rest := by
  induction cs with
  | nil => rfl
  | cons c others ih =>
    rw [Utf8.ofChars_cons, List.append_assoc, run_ofChar_append, ih, List.cons_append]

/-- Written text with a cut character at its end. -/
theorem chars_append_cut (front : List Char) {part : List UInt8} (h : Utf8.CutShort part) :
    chars (Utf8.ofChars front ++ part) = front ++ [replacement] := by
  obtain ⟨c, back, hpart, hback, hbytes⟩ := h
  have hone : (run .ready (part ++ back)).length = 1 := by
    rw [← hbytes, ← List.append_nil (Utf8.ofChar c), run_ofChar_append]
    rfl
  rw [chars, run_ofChars_append, run_of_cut hback hone (.inl hpart)]

/-- An ASCII byte is read as itself, also where it ends a sequence that is not complete. -/
theorem run_append_ascii {state : State} (h : state.BeyondAscii) {byte : UInt8}
    (hbyte : byte < 0x80) (bytes rest : List UInt8) :
    run state (bytes ++ byte :: rest)
      = run state bytes ++ Char.ofNat byte.toNat :: run .ready rest := by
  have hstart : start byte = ([Char.ofNat byte.toNat], .ready) := by rw [start, if_pos hbyte]
  induction bytes generalizing state with
  | nil =>
    cases state with
    | ready =>
      rw [List.nil_append, run_cons, step, hstart]
      rfl
    | inside p =>
      have hlow : ¬ (p.low ≤ byte ∧ byte ≤ p.high) := by
        rintro ⟨hfrom, -⟩
        rw [UInt8.le_iff_toNat_le] at hfrom
        rw [UInt8.lt_iff_toNat_lt] at hbyte
        exact absurd (Nat.le_trans h.low hfrom) (Nat.not_le_of_lt hbyte)
      rw [List.nil_append, run_cons, step, if_neg hlow, hstart, run]
      rfl
  | cons first others ih =>
    rw [List.cons_append, run_cons, run_cons, ih (count_step h first).2, List.append_assoc]

/-- **Spaces at the end are read as spaces**, whatever stands in front of them. -/
theorem chars_append_spaces (bytes : List UInt8) (count : Nat) :
    chars (bytes ++ List.replicate count 0x20) = chars bytes ++ List.replicate count ' ' := by
  have hready : State.BeyondAscii .ready := trivial
  have hspace (front : List UInt8) : chars (front ++ [0x20]) = chars front ++ [' '] :=
    run_append_ascii hready (by decide) front []
  induction count with
  | zero => simp
  | succ count ih =>
    rw [List.replicate_succ', ← List.append_assoc, hspace, ih, List.replicate_succ',
      List.append_assoc]

end Lossy

/-! ## 3. Spaces at the end of a name -/

namespace Tag

/-- A byte string without the spaces it ends with. -/
def dropSpaces (bytes : List UInt8) : List UInt8 := bytes.rdropWhile (· == space)

/-- The tag of what a tag is shown as. -/
def reread (tag : Tag) : Tag := ofName tag.text

theorem eq_of_bytes {a b : Tag} (h : a.bytes = b.bytes) : a = b := by
  cases a
  cases b
  cases h
  rfl

/-- A byte string is what is left of it and spaces. -/
theorem exists_eq_append_spaces (bytes : List UInt8) :
    ∃ count : Nat, bytes = dropSpaces bytes ++ List.replicate count space := by
  refine ⟨(bytes.rtakeWhile (· == space)).length, ?_⟩
  have hspaces : bytes.rtakeWhile (· == space)
      = List.replicate (bytes.rtakeWhile (· == space)).length space := by
    apply List.eq_replicate_of_mem
    intro b hb
    have htest := List.mem_rtakeWhile_imp hb
    exact eq_of_beq htest
  rw [← hspaces, dropSpaces, List.rdropWhile_append_rtakeWhile]

theorem dropSpaces_append_spaces (bytes : List UInt8) (count : Nat) :
    dropSpaces (bytes ++ List.replicate count space) = dropSpaces bytes := by
  induction count with
  | zero => simp
  | succ count ih =>
    rw [List.replicate_succ', ← List.append_assoc, dropSpaces,
      List.rdropWhile_concat_pos _ _ _ (by decide)]
    exact ih

theorem bytes_ofBytes_eq (bytes : List UInt8) :
    (ofBytes bytes).bytes = bytes.take width ++ List.replicate (width - bytes.length) space := rfl

/-- Spaces at the end of a byte string are like the padding. -/
theorem ofBytes_append_spaces (bytes : List UInt8) (count : Nat) :
    ofBytes (bytes ++ List.replicate count space) = ofBytes bytes := by
  apply eq_of_bytes
  rw [bytes_ofBytes_eq, bytes_ofBytes_eq, List.take_append, List.take_replicate, List.append_assoc,
    List.replicate_append_replicate, List.length_append, List.length_replicate]
  congr 2
  omega

theorem ofBytes_dropSpaces (bytes : List UInt8) : ofBytes (dropSpaces bytes) = ofBytes bytes := by
  obtain ⟨count, hbytes⟩ := exists_eq_append_spaces bytes
  conv_rhs => rw [hbytes, ofBytes_append_spaces]

theorem ofBytes_take (bytes : List UInt8) : ofBytes (bytes.take width) = ofBytes bytes := by
  apply eq_of_bytes
  rw [bytes_ofBytes_eq, bytes_ofBytes_eq, List.take_take, Nat.min_self, List.length_take]
  congr 2
  omega

/-- **Two byte strings make one tag exactly if their first eight bytes are the same up to spaces at
the end.** -/
theorem ofBytes_eq_iff {a b : List UInt8} :
    ofBytes a = ofBytes b ↔ dropSpaces (a.take width) = dropSpaces (b.take width) := by
  have hdrop (bytes : List UInt8) :
      dropSpaces (ofBytes bytes).bytes = dropSpaces (bytes.take width) := by
    rw [bytes_ofBytes_eq, dropSpaces_append_spaces]
  constructor
  · intro h
    rw [← hdrop, ← hdrop, h]
  · intro h
    rw [← ofBytes_take a, ← ofBytes_take b, ← ofBytes_dropSpaces (a.take width), h,
      ofBytes_dropSpaces]

/-! ## 4. Reading again -/

theorem ofChars_spaces (count : Nat) :
    Utf8.ofChars (List.replicate count ' ') = List.replicate count space := by
  have hascii : ∀ c ∈ List.replicate count ' ', c.toNat < 0x80 := by
    intro c hc
    rw [List.eq_of_mem_replicate hc]
    decide
  rw [Utf8.ofChars_ascii hascii, List.map_replicate]
  rfl

/-- **Showing and reading is reading all eight bytes as text**: the spaces that are left out come
back with the padding. -/
theorem reread_eq (tag : Tag) : tag.reread = ofBytes (Utf8.ofChars (Lossy.chars tag.bytes)) := by
  obtain ⟨count, hbytes⟩ := exists_eq_append_spaces tag.bytes
  have hchars : Lossy.chars tag.bytes
      = Lossy.chars tag.trimmed ++ List.replicate count ' ' := by
    conv_lhs => rw [hbytes]
    exact Lossy.chars_append_spaces _ count
  rw [hchars, Utf8.ofChars_append, ofChars_spaces, ofBytes_append_spaces, reread, text, ofName,
    Utf8.ofString, Lossy.text, String.toList_ofList]

/-- A tag whose bytes are written text is read back. -/
theorem reread_of_written {tag : Tag} {cs : List Char} (h : tag.bytes = Utf8.ofChars cs) :
    tag.reread = tag := by
  rw [reread_eq, h, Lossy.chars_ofChars, ← h, ofBytes_bytes]

/-- The first bytes of the replacement character are read as one. -/
theorem run_take_replacement {count : Nat} (hone : 1 ≤ count) (hthree : count ≤ 3) :
    Lossy.run .ready ((Utf8.ofChar Lossy.replacement).take count) = [Lossy.replacement] := by
  have hall : ∀ count : Fin 4, 1 ≤ count.val →
      Lossy.run .ready ((Utf8.ofChar Lossy.replacement).take count) = [Lossy.replacement] := by
    decide
  exact hall ⟨count, by omega⟩ hone

/-- **Once a cut character is replaced, nothing changes any more.**  The replacement is cut to as
many bytes as were left of the character. -/
theorem reread_reread_of_cut {tag : Tag} {front : List Char} {part : List UInt8}
    (h : tag.bytes = Utf8.ofChars front ++ part) (hpart : Utf8.CutShort part) :
    tag.reread.reread = tag.reread := by
  obtain ⟨hone, hthree⟩ := hpart.length_le
  have hlength : (Utf8.ofChars front).length + part.length = width := by
    rw [← List.length_append, ← h, tag.length_bytes, width]
  have hreread : tag.reread = ofBytes (Utf8.ofChars (front ++ [Lossy.replacement])) := by
    rw [reread_eq, h, Lossy.chars_append_cut front hpart]
  have hreplacement : (Utf8.ofChar Lossy.replacement).length = 3 := by decide
  have hbytes : tag.reread.bytes
      = Utf8.ofChars front ++ (Utf8.ofChar Lossy.replacement).take part.length := by
    have hwhole : Utf8.ofChars (front ++ [Lossy.replacement])
        = Utf8.ofChars front ++ Utf8.ofChar Lossy.replacement := by
      rw [Utf8.ofChars_append, Utf8.ofChars, Utf8.ofChars, List.flatMap_singleton]
    rw [hreread, bytes_ofBytes_eq, hwhole, List.take_append, List.take_of_length_le (by omega),
      List.length_append, hreplacement, ← hlength, Nat.add_sub_cancel_left,
      Nat.sub_eq_zero_of_le (by omega), List.replicate_zero, List.append_nil]
  have hchars : Lossy.chars tag.reread.bytes = front ++ [Lossy.replacement] := by
    rw [hbytes, Lossy.chars, Lossy.run_ofChars_append, run_take_replacement hone hthree]
  rw [reread_eq tag.reread, hchars, hreread]

/-! ## 5. Names -/

/-- The cut of a name to eight bytes falls between two characters, or there is nothing to cut: what
is left is the bytes of its first characters. -/
def CutBetween (name : String) : Prop :=
  ∃ front ∈ name.toList.inits, Utf8.ofChars front = (Utf8.ofString name).take width

instance (name : String) : Decidable (CutBetween name) :=
  inferInstanceAs
    (Decidable (∃ front ∈ name.toList.inits, Utf8.ofChars front = (Utf8.ofString name).take width))

theorem cutBetween_of_length_le {name : String} (h : (Utf8.ofString name).length ≤ width) :
    CutBetween name :=
  ⟨name.toList, (List.mem_inits _ _).2 (List.prefix_refl _), (List.take_of_length_le h).symm⟩

theorem cutBetween_of_ascii {name : String} (h : ∀ c ∈ name.toList, c.toNat < 0x80) :
    CutBetween name := by
  refine ⟨name.toList.take width, (List.mem_inits _ _).2 (List.take_prefix _ _), ?_⟩
  rw [Utf8.ofString, Utf8.ofChars_ascii h, ← List.map_take]
  exact Utf8.ofChars_ascii fun c hc => h c (List.mem_of_mem_take hc)

/-- **A name that is cut between characters is read back**: with its padding it is written text. -/
theorem reread_of_cutBetween {name : String} (h : CutBetween name) :
    (ofName name).reread = ofName name := by
  obtain ⟨front, -, hfront⟩ := h
  have hbytes : (ofName name).bytes
      = Utf8.ofChars (front ++ List.replicate (width - (Utf8.ofString name).length) ' ') := by
    rw [ofName, bytes_ofBytes_eq, ← hfront, Utf8.ofChars_append, ofChars_spaces]
  exact reread_of_written hbytes

/-- **Reading a shown name twice is reading it once**, wherever the name was cut. -/
theorem reread_reread_ofName (name : String) :
    (ofName name).reread.reread = (ofName name).reread := by
  obtain ⟨front, hprefix, hwhole | ⟨part, hpart, hcut, hlength⟩⟩ :=
    Utf8.take_ofChars name.toList width
  · have hbetween : CutBetween name := ⟨front, (List.mem_inits _ _).2 hprefix, hwhole.symm⟩
    rw [reread_of_cutBetween hbetween, reread_of_cutBetween hbetween]
  · have hbytes : (ofName name).bytes = Utf8.ofChars front ++ part := by
      rw [ofName, bytes_ofBytes_eq, Utf8.ofString, hcut, Nat.sub_eq_zero_of_le hlength,
        List.replicate_zero, List.append_nil]
    exact reread_reread_of_cut hbytes hpart

/-- A tag read from its JSON text is the tag of what it is shown as. -/
theorem ofJson_toJson (tag : Tag) :
    ofJson (Utf8.ofString tag.toJson.compact) = .ok tag.reread := by
  rw [ofJson, toJson, Json.compact, Json.run_text_quote]
  rfl

/-- **Names survive being shown and read back.**

* Writing a tag as JSON and reading it is showing it and reading what is shown (`reread`).
* This gives the tag of a name back, if the name is cut to eight bytes between two characters;
  which it is if it is ASCII, and if it has at most eight bytes.
* In every case, also if a character is cut, doing so a second time changes nothing.
* Two names have one tag exactly if their first eight bytes are the same without the spaces at the
  end. -/
theorem reread_settles :
    (∀ tag : Tag, ofJson (Utf8.ofString tag.toJson.compact) = .ok tag.reread)
      ∧ (∀ name : String, CutBetween name → (ofName name).reread = ofName name)
      ∧ (∀ name : String, (∀ c ∈ name.toList, c.toNat < 0x80) → CutBetween name)
      ∧ (∀ name : String, (Utf8.ofString name).length ≤ width → CutBetween name)
      ∧ (∀ name : String, (ofName name).reread.reread = (ofName name).reread)
      ∧ ∀ a b : String, ofName a = ofName b
          ↔ dropSpaces ((Utf8.ofString a).take width)
            = dropSpaces ((Utf8.ofString b).take width) := by
  refine ⟨ofJson_toJson, ?_, ?_, ?_, reread_reread_ofName, ?_⟩
  · intro name hbetween
    exact reread_of_cutBetween hbetween
  · intro name hascii
    exact cutBetween_of_ascii hascii
  · intro name hlength
    exact cutBetween_of_length_le hlength
  · intro a b
    exact ofBytes_eq_iff

/-- A long name cut between characters, an ASCII name, a short one, a name cut inside a character
of four bytes, which changes once, and a name with spaces in front of the cut. -/
theorem reread_settles_names :
    (ofName "größe-übung").reread = ofName "größe-übung"
      ∧ CutBetween "identifier" ∧ CutBetween "naïve"
      ∧ (¬ CutBetween "abcdef😀" ∧ (ofName "abcdef😀").reread ≠ ofName "abcdef😀"
        ∧ (ofName "abcdef😀").reread.reread = (ofName "abcdef😀").reread)
      ∧ ofName "ab      c" = ofName "ab" := by
  obtain ⟨-, hcut, hascii, hshort, htwice, hsame⟩ := reread_settles
  exact ⟨hcut _ (by decide +kernel), hascii _ (by simp), hshort _ (by decide +kernel),
    ⟨by decide +kernel, by decide +kernel, htwice _⟩, (hsame _ _).2 (by decide +kernel)⟩

end Tag
end SyntaxTree
