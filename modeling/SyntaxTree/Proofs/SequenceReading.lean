/-
# Encoded code points can be told apart

Three descriptions of one scheme stand side by side: the encoder spreads the bits of a code point
over up to six bytes, the classes of bytes say from one byte what it is, and the cursor counts the
bytes that start something.  This file says that they agree (`encoding_uniquely_read`).

* The class of the first byte gives the length of a sequence, and all other bytes are continuations
  (`ofByte_lead`, `ofByte_continuation`).
* The payloads put together are the code point (`reassemble_sequence`).  Each continuation brings
  the next six bits (`foldl_continuations`), so the argument is a division with remainder.
* The first byte therefore says where a sequence ends, and two concatenations that are the same
  agree code point by code point (`encode_append_inj`).
* A sequence moves the cursor once, with its first byte (`advance_encode`), unless it is a control
  character.
-/
import Mathlib.Order.Bounds.Basic
import SyntaxTree.Proofs.CursorPath
import SyntaxTree.Proofs.EscapeReference

namespace SyntaxTree
namespace Utf8

/-! ## 1. Lengths and room -/

/-- The bits that so many bytes have room for. -/
def capacity : Nat → Nat
  | 1 => 7
  | 2 => 11
  | 3 => 16
  | 4 => 21
  | 5 => 26
  | 6 => 31
  | _ => 0

/-- The lengths of sequences that have room for a code point. -/
def fittingLengths (codePoint : Nat) : Set Nat :=
  {length | 1 ≤ length ∧ length ≤ 6 ∧ codePoint < 2 ^ capacity length}

theorem bounds_of_encodedLength {codePoint length : Nat}
    (h : encodedLength codePoint = some length) :
    1 ≤ length ∧ length ≤ 6 ∧ codePoint < 2 ^ capacity length
      ∧ (1 < length → 2 ^ capacity (length - 1) ≤ codePoint) := by
  unfold encodedLength at h
  split_ifs at h
  all_goals
    obtain rfl := Option.some.inj h
    simp only [capacity]
    omega

theorem capacity_mono {shorter longer : Nat} (hone : 1 ≤ shorter) (hle : shorter ≤ longer)
    (hsix : longer ≤ 6) : capacity shorter ≤ capacity longer := by
  have hall : ∀ longer shorter : Fin 7, 1 ≤ shorter.val → shorter ≤ longer →
      capacity shorter ≤ capacity longer := by decide
  exact hall ⟨longer, by omega⟩ ⟨shorter, by omega⟩ hone hle

/-- **The length is the least that has room.** -/
theorem isLeast_of_encodedLength {codePoint length : Nat}
    (h : encodedLength codePoint = some length) : IsLeast (fittingLengths codePoint) length := by
  obtain ⟨hone, hsix, hroom, hshorter⟩ := bounds_of_encodedLength h
  refine ⟨⟨hone, hsix, hroom⟩, ?_⟩
  rintro shorter ⟨hpos, -, hfits⟩
  by_contra hlt
  have hcapacity : capacity shorter ≤ capacity (length - 1) :=
    capacity_mono hpos (by omega) (by omega)
  have hpow : 2 ^ capacity shorter ≤ 2 ^ capacity (length - 1) :=
    Nat.pow_le_pow_right (by omega) hcapacity
  have hlarge := hshorter (by omega)
  omega

/-! ## 2. The classes of the bytes -/

/-- The first byte of the sequence of a code point has this many bits of it. -/
theorem lead_lt {codePoint length : Nat} (htwo : 2 ≤ length) (hsix : length ≤ 6)
    (hroom : codePoint < 2 ^ capacity length) :
    codePoint >>> (6 * (length - 1)) < 2 ^ (7 - length) := by
  have hcapacity : capacity length = 6 * (length - 1) + (7 - length) := by
    have hall : ∀ length : Fin 7, 2 ≤ length.val →
        capacity length = 6 * (length.val - 1) + (7 - length.val) := by decide
    exact hall ⟨length, by omega⟩ htwo
  rw [Nat.shiftRight_eq_div_pow]
  refine Nat.div_lt_of_lt_mul ?_
  rwa [← Nat.pow_add, ← hcapacity]

/-- The bits of a code point in the first byte of its sequence: all of a byte alone, and what a
marker leaves. -/
def leadBits (byte : UInt8) : Nat :=
  match ByteClass.ofByte byte with
  | .single byte => byte.toNat
  | .leading following => byte.toNat % 2 ^ (6 - following)
  | _ => 0

/-- The bits of a code point in a later byte. -/
def continuationBits (byte : UInt8) : Nat :=
  match ByteClass.ofByte byte with
  | .continuation payload => payload.toNat
  | _ => 0

/-- The code point that the bytes of a sequence hold. -/
def reassemble (first : UInt8) (others : List UInt8) : Nat :=
  others.foldl (fun bits byte => bits * 64 + continuationBits byte) (leadBits first)

/-- A marker names the length, and leaves the bits. -/
theorem ofByte_lead {length bits : Nat} (htwo : 2 ≤ length) (hsix : length ≤ 6)
    (hbits : bits < 2 ^ (7 - length)) :
    ByteClass.ofByte (UInt8.ofNat (leadMarker length + bits)) = .leading (length - 1)
      ∧ leadBits (UInt8.ofNat (leadMarker length + bits)) = bits := by
  have hall : ∀ length : Fin 7, 2 ≤ length.val → ∀ bits : Fin 32, bits.val < 2 ^ (7 - length.val) →
      ByteClass.ofByte (UInt8.ofNat (leadMarker length + bits)) = .leading (length - 1)
        ∧ leadBits (UInt8.ofNat (leadMarker length + bits)) = bits := by decide
  have hsmall : 2 ^ (7 - length) ≤ 2 ^ 5 := Nat.pow_le_pow_right (by omega) (by omega)
  exact hall ⟨length, by omega⟩ htwo ⟨bits, by omega⟩ hbits

theorem ofByte_single {codePoint : Nat} (h : codePoint < 0x80) :
    ByteClass.ofByte (UInt8.ofNat codePoint) = .single (UInt8.ofNat codePoint)
      ∧ leadBits (UInt8.ofNat codePoint) = codePoint := by
  have hall : ∀ codePoint : Fin 0x80,
      ByteClass.ofByte (UInt8.ofNat codePoint) = .single (UInt8.ofNat codePoint)
        ∧ leadBits (UInt8.ofNat codePoint) = codePoint := by decide
  exact hall ⟨codePoint, h⟩

theorem ofByte_continuation {group : Nat} (h : group < 64) :
    ByteClass.ofByte (UInt8.ofNat (0x80 + group)) = .continuation (UInt8.ofNat group)
      ∧ continuationBits (UInt8.ofNat (0x80 + group)) = group := by
  have hall : ∀ group : Fin 64,
      ByteClass.ofByte (UInt8.ofNat (0x80 + group)) = .continuation (UInt8.ofNat group)
        ∧ continuationBits (UInt8.ofNat (0x80 + group)) = group := by decide
  exact hall ⟨group, h⟩

/-- Every byte behind the first is a continuation. -/
theorem exists_payload_of_mem {count codePoint : Nat} {byte : UInt8}
    (h : byte ∈ continuations count codePoint) :
    ∃ payload : UInt8, ByteClass.ofByte byte = .continuation payload := by
  induction count with
  | zero => cases h
  | succ count ih =>
    rcases List.mem_cons.1 h with rfl | hrest
    · exact ⟨_, (ofByte_continuation (Nat.mod_lt _ (by decide))).1⟩
    · exact ih hrest

/-! ## 3. Putting the bits together -/

/-- **Each continuation brings the next six bits.** -/
theorem foldl_continuations (count codePoint total : Nat) :
    (continuations count codePoint).foldl (fun bits byte => bits * 64 + continuationBits byte) total
      = total * 64 ^ count + codePoint % 64 ^ count := by
  induction count generalizing total with
  | zero => simp [continuations, Nat.mod_one]
  | succ count ih =>
    have hpow : 2 ^ (6 * count) = 64 ^ count := by rw [Nat.pow_mul]
    have hgroup := (ofByte_continuation (Nat.mod_lt (codePoint >>> (6 * count)) (by decide))).2
    rw [continuations, List.foldl_cons, ih, hgroup, Nat.shiftRight_eq_div_pow, hpow,
      Nat.pow_succ, Nat.mod_mul]
    ring

/-- The sequence of a code point: its first byte, and the class that this has. -/
theorem lead_of_encodedLength {codePoint length : Nat} (h : encodedLength codePoint = some length) :
    ByteClass.ofByte (UInt8.ofNat (leadMarker length + codePoint >>> (6 * (length - 1))))
        = (if length = 1
            then .single (UInt8.ofNat (leadMarker length + codePoint >>> (6 * (length - 1))))
            else .leading (length - 1))
      ∧ leadBits (UInt8.ofNat (leadMarker length + codePoint >>> (6 * (length - 1))))
        = codePoint >>> (6 * (length - 1)) := by
  obtain ⟨hone, hsix, hroom, -⟩ := bounds_of_encodedLength h
  by_cases hlength : length = 1
  · subst hlength
    simpa [leadMarker] using ofByte_single hroom
  · rw [if_neg hlength]
    exact ofByte_lead (by omega) hsix (lead_lt (by omega) hsix hroom)

/-- **What an encoding looks like**: the first byte has the class of the length, the others are
continuations, and together they hold the code point. -/
theorem exists_encode {codePoint : Nat} (h : codePoint ≤ 0x7FFFFFFF) :
    ∃ (length : Nat) (first : UInt8) (others : List UInt8),
      encodedLength codePoint = some length
        ∧ encode codePoint = some (first :: others)
        ∧ (first :: others).length = length
        ∧ ByteClass.ofByte first = (if length = 1 then .single first else .leading (length - 1))
        ∧ (∀ byte ∈ others, ∃ payload : UInt8, ByteClass.ofByte byte = .continuation payload)
        ∧ reassemble first others = codePoint := by
  have hsome : encode codePoint ≠ none := by
    rw [ne_eq, Literal.encode_eq_none_iff]
    omega
  obtain ⟨bytes, hbytes⟩ := Option.ne_none_iff_exists'.1 hsome
  obtain ⟨length, hlength, rfl⟩ := Option.map_eq_some_iff.1 hbytes
  obtain ⟨hclass, hbits⟩ := lead_of_encodedLength hlength
  refine ⟨length, _, _, hlength, hbytes, ?_, hclass, fun byte => exists_payload_of_mem, ?_⟩
  · exact Option.some.inj ((length_of_encode hbytes).symm.trans hlength)
  · have hpow : 2 ^ (6 * (length - 1)) = 64 ^ (length - 1) := by rw [Nat.pow_mul]
    rw [reassemble, hbits, foldl_continuations, Nat.shiftRight_eq_div_pow, hpow]
    exact Nat.div_add_mod' codePoint _

/-! ## 4. Concatenations -/

/-- The encodings of code points one after another. -/
def encodeAll (codePoints : List Nat) : List UInt8 :=
  codePoints.flatMap fun codePoint => (encode codePoint).getD []

theorem encodeAll_cons {codePoint : Nat} {bytes : List UInt8} (h : encode codePoint = some bytes)
    (rest : List Nat) : encodeAll (codePoint :: rest) = bytes ++ encodeAll rest := by
  rw [encodeAll, List.flatMap_cons, h]
  rfl

/-- **The first byte of a sequence says where it ends**, so equal concatenations have the same code
point in front. -/
theorem encode_append_inj {codePoint other : Nat} {bytes others rest more : List UInt8}
    (hle : codePoint ≤ 0x7FFFFFFF) (hle' : other ≤ 0x7FFFFFFF)
    (h : encode codePoint = some bytes) (h' : encode other = some others)
    (happend : bytes ++ rest = others ++ more) : codePoint = other ∧ rest = more := by
  obtain ⟨length, first, later, -, hencode, hlength, hclass, -, hcode⟩ := exists_encode hle
  obtain ⟨length', first', later', -, hencode', hlength', hclass', -, hcode'⟩ := exists_encode hle'
  obtain rfl := Option.some.inj (h.symm.trans hencode)
  obtain rfl := Option.some.inj (h'.symm.trans hencode')
  obtain ⟨rfl, htail⟩ := List.cons_eq_cons.1 happend
  have hsame : length = length' := by
    rw [hclass] at hclass'
    rw [List.length_cons] at hlength hlength'
    split_ifs at hclass'
    · omega
    · have := ByteClass.leading.inj hclass'
      omega
  have hcount : later.length = later'.length := by
    rw [List.length_cons] at hlength hlength'
    omega
  obtain ⟨rfl, hrest⟩ := List.append_inj htail hcount
  exact ⟨hcode.symm.trans hcode', hrest⟩

theorem encodeAll_eq_nil_iff {codePoints : List Nat}
    (h : ∀ codePoint ∈ codePoints, codePoint ≤ 0x7FFFFFFF) :
    encodeAll codePoints = [] ↔ codePoints = [] := by
  cases codePoints with
  | nil => exact iff_of_true rfl rfl
  | cons codePoint rest =>
    obtain ⟨_, first, later, -, hencode, -⟩ := exists_encode (h codePoint List.mem_cons_self)
    simp [encodeAll_cons hencode]

/-- **Different lists of code points have different encodings.** -/
theorem encodeAll_inj {codePoints others : List Nat}
    (h : ∀ codePoint ∈ codePoints, codePoint ≤ 0x7FFFFFFF)
    (h' : ∀ codePoint ∈ others, codePoint ≤ 0x7FFFFFFF)
    (heq : encodeAll codePoints = encodeAll others) : codePoints = others := by
  induction codePoints generalizing others with
  | nil => exact ((encodeAll_eq_nil_iff h').1 heq.symm).symm
  | cons codePoint rest ih =>
    cases others with
    | nil => exact (encodeAll_eq_nil_iff h).1 heq
    | cons other more =>
      obtain ⟨hle, hrest⟩ := List.forall_mem_cons.1 h
      obtain ⟨hle', hmore⟩ := List.forall_mem_cons.1 h'
      obtain ⟨_, _, _, -, hencode, -⟩ := exists_encode hle
      obtain ⟨_, _, _, -, hencode', -⟩ := exists_encode hle'
      rw [encodeAll_cons hencode, encodeAll_cons hencode'] at heq
      obtain ⟨rfl, htail⟩ := encode_append_inj hle hle' hencode hencode' heq
      rw [ih hrest hmore htail]

end Utf8

/-! ## 5. The cursor -/

namespace Cursor

/-- Past the controls only the class of a byte counts. -/
theorem step_of_le (width : Nat) (cursor : Cursor) {byte : UInt8} (h : 0x20 ≤ byte) :
    (cursor.step width byte).line = cursor.line
      ∧ (cursor.step width byte).column
        = if (Utf8.ByteClass.ofByte byte).advancesColumn then addCapped cursor.column 1
          else cursor.column := by
  have hfeed : byte ≠ 0x0A := by grind
  have hreturn : byte ≠ 0x0D := by grind
  have htab : byte ≠ 0x09 := by grind
  refine ⟨if_neg hfeed, ?_⟩
  show columnAfter width cursor.column byte = _
  rw [columnAfter, if_neg (by simp [hfeed, hreturn]), if_neg htab]

/-- A byte that starts something shown moves the cursor by one. -/
theorem step_of_advancesColumn (width : Nat) (cursor : Cursor) {byte : UInt8}
    (h : (Utf8.ByteClass.ofByte byte).advancesColumn = true) :
    (cursor.step width byte).line = cursor.line
      ∧ (cursor.step width byte).column = addCapped cursor.column 1 := by
  have hle : 0x20 ≤ byte := by
    rw [Column.advancesColumn_ofByte, Column.isShown] at h
    grind
  simpa only [if_pos h] using step_of_le width cursor hle

/-- A continuation leaves line and column alone. -/
theorem step_of_continuation (width : Nat) (cursor : Cursor) {byte payload : UInt8}
    (h : Utf8.ByteClass.ofByte byte = .continuation payload) :
    (cursor.step width byte).line = cursor.line
      ∧ (cursor.step width byte).column = cursor.column := by
  have hle : 0x20 ≤ byte := by
    unfold Utf8.ByteClass.ofByte at h
    split_ifs at h
    grind
  obtain ⟨hline, hcolumn⟩ := step_of_le width cursor hle
  rw [h] at hcolumn
  exact ⟨hline, hcolumn⟩

theorem advance_continuations (width : Nat) (bytes : List UInt8) (cursor : Cursor)
    (h : ∀ byte ∈ bytes, ∃ payload : UInt8, Utf8.ByteClass.ofByte byte = .continuation payload) :
    (cursor.advance width bytes).line = cursor.line
      ∧ (cursor.advance width bytes).column = cursor.column := by
  induction bytes generalizing cursor with
  | nil => exact ⟨rfl, rfl⟩
  | cons byte rest ih =>
    obtain ⟨⟨payload, hbyte⟩, hrest⟩ := List.forall_mem_cons.1 h
    obtain ⟨hline, hcolumn⟩ := step_of_continuation width cursor hbyte
    rw [advance_cons, ← hline, ← hcolumn]
    exact ih (cursor.step width byte) hrest

/-- **The encoding of a code point that is no control character moves the cursor by one column.** -/
theorem advance_encode (width : Nat) (cursor : Cursor) {codePoint : Nat} {bytes : List UInt8}
    (hlow : 0x20 ≤ codePoint) (hdelete : codePoint ≠ 0x7F) (hhigh : codePoint ≤ 0x7FFFFFFF)
    (h : Utf8.encode codePoint = some bytes) :
    (cursor.advance width bytes).line = cursor.line
      ∧ (cursor.advance width bytes).column = addCapped cursor.column 1 := by
  obtain ⟨length, first, others, hlength, hencode, hcount, hclass, hothers, hcode⟩ :=
    Utf8.exists_encode hhigh
  obtain rfl := Option.some.inj (h.symm.trans hencode)
  have hshown : (Utf8.ByteClass.ofByte first).advancesColumn = true := by
    rw [hclass]
    split_ifs with hone
    · -- a byte alone is the code point, and so it is printable
      have hnil : others = [] := by
        rw [List.length_cons] at hcount
        exact List.eq_nil_of_length_eq_zero (by omega)
      have hbits : first.toNat = codePoint := by
        simpa [hnil, Utf8.reassemble, Utf8.leadBits, hclass, hone] using hcode
      have hsmall : codePoint < 0x80 := by
        obtain ⟨-, -, hroom, -⟩ := Utf8.bounds_of_encodedLength hlength
        rw [hone] at hroom
        exact hroom
      simp only [Utf8.ByteClass.advancesColumn, Bool.and_eq_true, decide_eq_true_eq,
        UInt8.le_iff_toNat_le, hbits]
      exact ⟨hlow, by simp; omega⟩
    · rfl
  obtain ⟨hline, hcolumn⟩ := step_of_advancesColumn width cursor hshown
  rw [advance_cons, ← hline, ← hcolumn]
  exact advance_continuations width others _ hothers

/-- **Encoded code points move the cursor by one column each**, up to the limit. -/
theorem advance_encodeAll (width : Nat) (codePoints : List Nat) (cursor : Cursor)
    (h : ∀ codePoint ∈ codePoints,
      0x20 ≤ codePoint ∧ codePoint ≠ 0x7F ∧ codePoint ≤ 0x7FFFFFFF) :
    (cursor.advance width (Utf8.encodeAll codePoints)).line = cursor.line
      ∧ (cursor.advance width (Utf8.encodeAll codePoints)).column.toNat
        = min (cursor.column.toNat + codePoints.length) countLimit := by
  induction codePoints generalizing cursor with
  | nil => exact ⟨rfl, (Nat.min_eq_left (toNat_le_countLimit cursor.column)).symm⟩
  | cons codePoint rest ih =>
    obtain ⟨⟨hlow, hdelete, hhigh⟩, hrest⟩ := List.forall_mem_cons.1 h
    obtain ⟨_, _, _, -, hencode, -⟩ := Utf8.exists_encode hhigh
    obtain ⟨hline, hcolumn⟩ := advance_encode width cursor hlow hdelete hhigh hencode
    obtain ⟨ihLine, ihColumn⟩ := ih (cursor.advance width _) hrest
    rw [Utf8.encodeAll_cons hencode, advance_append, ihLine, ihColumn, hline, hcolumn,
      toNat_addCapped, List.length_cons]
    exact ⟨rfl, by omega⟩

end Cursor

/-! ## 6. The three agree -/

/-- **Encoded code points can be told apart, and each takes one column.**

* A code point of at most 31 bits is encoded in the least number of bytes that has room for it.  Its
  first byte is a byte alone or leads as many bytes as follow, these are all continuations, and the
  bits in them are the code point.
* A larger one is not encoded.
* Lists of code points with the same encodings one after another are the same.
* Reading the encodings of code points that are no control characters moves the column of any
  tracker by their number, up to the limit, and leaves the line alone. -/
theorem encoding_uniquely_read :
    (∀ codePoint : Nat, codePoint ≤ 0x7FFFFFFF →
      ∃ (length : Nat) (first : UInt8) (others : List UInt8),
        Utf8.encodedLength codePoint = some length
          ∧ IsLeast (Utf8.fittingLengths codePoint) length
          ∧ Utf8.encode codePoint = some (first :: others)
          ∧ (first :: others).length = length
          ∧ Utf8.ByteClass.ofByte first
              = (if length = 1 then .single first else .leading (length - 1))
          ∧ (∀ byte ∈ others, ∃ payload : UInt8,
              Utf8.ByteClass.ofByte byte = .continuation payload)
          ∧ Utf8.reassemble first others = codePoint)
    ∧ (∀ codePoint : Nat, 0x7FFFFFFF < codePoint →
        Utf8.encodedLength codePoint = none ∧ Utf8.encode codePoint = none)
    ∧ (∀ codePoints others : List Nat,
        (∀ codePoint ∈ codePoints, codePoint ≤ 0x7FFFFFFF) →
        (∀ codePoint ∈ others, codePoint ≤ 0x7FFFFFFF) →
        codePoints ≠ others → Utf8.encodeAll codePoints ≠ Utf8.encodeAll others)
    ∧ ∀ (tracker : Tracker) (codePoints : List Nat),
        (∀ codePoint ∈ codePoints,
          0x20 ≤ codePoint ∧ codePoint ≠ 0x7F ∧ codePoint ≤ 0x7FFFFFFF) →
        (tracker.advance (Utf8.encodeAll codePoints)).current.line = tracker.current.line
          ∧ (tracker.advance (Utf8.encodeAll codePoints)).current.column.toNat
              = min (tracker.current.column.toNat + codePoints.length) (2 ^ 32 - 1) := by
  refine ⟨?_, ?_, ?_, ?_⟩
  · intro codePoint hle
    obtain ⟨length, first, others, hlength, hencode, hrest⟩ := Utf8.exists_encode hle
    exact ⟨length, first, others, hlength, Utf8.isLeast_of_encodedLength hlength, hencode, hrest⟩
  · intro codePoint hlt
    have hnone := Literal.encode_eq_none_iff.2 hlt
    exact ⟨Option.map_eq_none_iff.1 hnone, hnone⟩
  · intro codePoints others h h' hne heq
    exact hne (Utf8.encodeAll_inj h h' heq)
  · intro tracker codePoints h
    exact Cursor.advance_encodeAll tracker.tabWidth codePoints tracker.current h

/-- Code points of one, three and six bytes. -/
def mixedWidths : List Nat := [0x41, 0x20AC, 0x7FFFFFFF]

theorem encoding_uniquely_read_mixed :
    Utf8.encodeAll [0x41, 0x20AC] ≠ Utf8.encodeAll mixedWidths
      ∧ ((Tracker.ofSettings .standard).advance (Utf8.encodeAll mixedWidths)).current.column.toNat
        = 3 := by
  obtain ⟨-, -, hdiffer, hcolumns⟩ := encoding_uniquely_read
  refine ⟨hdiffer _ _ (by decide) (by decide) (by decide), ?_⟩
  exact (hcolumns (Tracker.ofSettings .standard) mixedWidths (by decide)).2

end SyntaxTree
