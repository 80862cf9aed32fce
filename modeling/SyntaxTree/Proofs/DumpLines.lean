/-
# The lines of a dump

A dump is meant to have one line for each node.  Most of what a line holds can not break it:
positions and sizes are digits, texts are quoted, and bytes that are no number are written in
hexadecimal (`oneLine_of_render`).  A name is written as it stands, and a name is any eight bytes of
a file.  So the line feeds of a dump are one for each node and one for each line feed in a name
(`lineFeeds_entries`).

* `dump_lines_of_names` says this of the bytes of the dump, and that its lines are the entries of
  the nodes in preorder where no name has a line feed.
* `dump_breaks_at_name` is a leaf that takes two lines.

A name is read from bytes that need not be well-formed, and each ill-formed piece is replaced.  A
line feed byte still is a line feed and nothing else becomes one (`Lossy.count_chars`): it is no
later byte of any sequence, and what an unfinished sequence can come to at least is no ASCII
character (`Pending.least`).
-/
import Mathlib.Algebra.GroupWithZero.Nat
import SyntaxTree.Proofs.DumpOrder
import SyntaxTree.Proofs.NodeSites
import SyntaxTree.Proofs.Spelling

namespace SyntaxTree

/-! ## 1. Line feeds of read bytes -/

namespace Lossy

/-- The least value that an unfinished sequence can come to. -/
def Pending.least (p : Pending) : Nat :=
  (p.bits * 64 + (p.low.toNat - 0x80)) * 64 ^ (p.missing - 1)

/-- No later byte of an unfinished sequence is ASCII, and neither is what it comes to. -/
structure Pending.BeyondAscii (p : Pending) : Prop where
  low : 0x80 ≤ p.low.toNat
  high : p.high.toNat ≤ 0xBF
  least : 0x80 ≤ p.least

/-- Between characters, or inside a sequence beyond ASCII. -/
def State.BeyondAscii : State → Prop
  | .ready => True
  | .inside p => p.BeyondAscii

/-- Where any later byte may follow, the bits so far decide. -/
theorem Pending.beyondAscii_of_bits {bits missing : Nat} (h : 2 ≤ bits * 64 ^ (missing - 1)) :
    BeyondAscii ⟨bits, missing, 0x80, 0xBF⟩ := by
  refine ⟨Nat.le_refl _, Nat.le_refl _, ?_⟩
  have hlow : (0x80 : UInt8).toNat - 0x80 = 0 := rfl
  rw [least, hlow, Nat.add_zero, Nat.mul_right_comm]
  exact Nat.mul_le_mul_right 64 h

theorem ofNat_ne_newline {n : Nat} (h : n ≠ 10) : Char.ofNat n ≠ '\n' := by
  intro heq
  by_cases hvalid : n.isValidChar
  · rw [Char.ofNat, dif_pos hvalid] at heq
    exact h (congrArg Char.toNat heq)
  · rw [Char.ofNat, dif_neg hvalid] at heq
    exact absurd heq (by decide)

theorem count_of_le {byte : UInt8} (h : 0x80 ≤ byte.toNat) : [byte].count 0x0A = 0 := by
  rw [List.count_eq_zero, List.mem_singleton]
  rintro rfl
  exact absurd h (by decide)

/-- The first byte of a character is a line feed or brings none. -/
theorem count_start (byte : UInt8) :
    (start byte).1.count '\n' = [byte].count 0x0A ∧ (start byte).2.BeyondAscii := by
  by_cases hascii : byte < 0x80
  · rw [start, if_pos hascii]
    refine ⟨?_, trivial⟩
    by_cases hfeed : byte = 0x0A
    · subst hfeed
      rfl
    · have hchar : Char.ofNat byte.toNat ≠ '\n' := by
        apply ofNat_ne_newline
        intro hcode
        exact hfeed (UInt8.toNat_inj.1 hcode)
      rw [List.count_singleton, List.count_singleton]
      simp [hchar, hfeed]
  · rw [start, if_neg hascii]
    simp only [UInt8.lt_iff_toNat_lt, ← UInt8.toNat_inj, UInt8.reduceToNat] at hascii ⊢
    rw [count_of_le (Nat.le_of_not_lt hascii)]
    -- the lead bytes in their order; where the second byte has a range of its own, it decides
    split
    · exact ⟨rfl, trivial⟩
    split
    · exact ⟨rfl, Pending.beyondAscii_of_bits (by omega)⟩
    split
    · exact ⟨rfl, by decide, by decide, by decide⟩
    split
    · exact ⟨rfl, by decide, by decide, by decide⟩
    split
    · exact ⟨rfl, Pending.beyondAscii_of_bits (by omega)⟩
    split
    · exact ⟨rfl, by decide, by decide, by decide⟩
    split
    · exact ⟨rfl, Pending.beyondAscii_of_bits (by omega)⟩
    split
    · exact ⟨rfl, by decide, by decide, by decide⟩
    · exact ⟨rfl, trivial⟩

/-- A byte inside a sequence goes on with it, or ends it and is read again. -/
theorem count_step {state : State} (h : state.BeyondAscii) (byte : UInt8) :
    (step state byte).1.count '\n' = [byte].count 0x0A ∧ (step state byte).2.BeyondAscii := by
  cases state with
  | ready => exact count_start byte
  | inside p =>
    obtain ⟨hlow, hhigh, hleast⟩ := h
    rw [step]
    split
    · rename_i hrange
      obtain ⟨hfrom, hto⟩ := hrange
      rw [UInt8.le_iff_toNat_le] at hfrom hto
      have hbits : 0x80 ≤ (p.bits * 64 + byte.toNat % 64) * 64 ^ (p.missing - 1) := by
        refine Nat.le_trans hleast (Nat.mul_le_mul_right _ ?_)
        omega
      rw [count_of_le (Nat.le_trans hlow hfrom)]
      split
      · rename_i hlast
        have hone : 64 ^ (p.missing - 1) = 1 := by
          rw [Nat.sub_eq_zero_of_le hlast]
          rfl
        have hchar : Char.ofNat (p.bits * 64 + byte.toNat % 64) ≠ '\n' := by
          apply ofNat_ne_newline
          rw [hone] at hbits
          omega
        refine ⟨?_, trivial⟩
        simp [hchar]
      · have hpower : 64 ^ (p.missing - 1) = 64 ^ (p.missing - 1 - 1) * 64 :=
          (Nat.pow_pred_mul (by omega)).symm
        refine ⟨rfl, Pending.beyondAscii_of_bits ?_⟩
        rw [hpower, ← Nat.mul_assoc] at hbits
        omega
    · obtain ⟨hcount, hnext⟩ := count_start byte
      refine ⟨?_, hnext⟩
      rw [← hcount]
      exact List.count_cons_of_ne (by decide)

theorem count_run {state : State} (h : state.BeyondAscii) (bytes : List UInt8) :
    (run state bytes).count '\n' = bytes.count 0x0A := by
  induction bytes generalizing state with
  | nil =>
    cases state with
    | ready => rfl
    | inside p => rfl
  | cons byte rest ih =>
    obtain ⟨hcount, hnext⟩ := count_step h byte
    have hrun : run state (byte :: rest) = (step state byte).1 ++ run (step state byte).2 rest := by
      cases state <;> rfl
    rw [hrun, List.count_append, hcount, ih hnext, ← List.count_append, List.singleton_append]

/-- **Reading bytes as text keeps the line feeds**, and makes no others. -/
theorem count_chars (bytes : List UInt8) : (chars bytes).count '\n' = bytes.count 0x0A := by
  have hready : State.BeyondAscii .ready := trivial
  exact count_run hready bytes

end Lossy

/-! ## 2. Texts of one line -/

/-- The line feeds of a text. -/
def lineFeeds (s : String) : Nat := s.toList.count '\n'

/-- A text without a line feed. -/
def OneLine (s : String) : Prop := '\n' ∉ s.toList

instance (s : String) : Decidable (OneLine s) := inferInstanceAs (Decidable ('\n' ∉ s.toList))

theorem lineFeeds_append (s t : String) : lineFeeds (s ++ t) = lineFeeds s + lineFeeds t := by
  rw [lineFeeds, String.toList_append, List.count_append]
  rfl

theorem lineFeeds_eq_zero_iff {s : String} : lineFeeds s = 0 ↔ OneLine s := List.count_eq_zero

theorem oneLine_ofList {cs : List Char} (h : '\n' ∉ cs) : OneLine (String.ofList cs) := by
  rw [OneLine, String.toList_ofList]
  exact h

theorem OneLine.append {s t : String} (hs : OneLine s) (ht : OneLine t) : OneLine (s ++ t) := by
  rw [← lineFeeds_eq_zero_iff] at hs ht ⊢
  rw [lineFeeds_append, hs, ht]

/-- The line feed bytes of a written text are its line feeds. -/
theorem count_ofString (s : String) : (Utf8.ofString s).count 0x0A = lineFeeds s := by
  rw [Utf8.ofString, lineFeeds]
  induction s.toList with
  | nil => rfl
  | cons c rest ih =>
    rw [Utf8.ofChars, List.flatMap_cons, List.count_append, List.count_cons, Nat.add_comm, ← ih]
    congr 1
    by_cases hc : c = '\n'
    · subst hc
      rfl
    · have hbytes : (0x0A : UInt8) ∉ Utf8.ofChar c := by
        intro hmem
        exact Utf8.ne_byte_of_mem_ofChar (by decide) hc _ hmem rfl
      simp [List.count_eq_zero.2 hbytes, hc]

/-- A numeral of any base is made of its digits. -/
theorem newline_not_mem_numeral {base : Nat} {digit : Nat → Char} {digits : Nat → List Char}
    (hbase : 1 < base) (hdigit : ∀ n < base, digit n ≠ '\n')
    (hdigits : ∀ n, digits n
      = if n < base then [digit n] else digits (n / base) ++ [digit (n % base)])
    (n : Nat) : '\n' ∉ digits n := by
  induction n using Nat.strongRecOn with
  | ind n ih =>
    rw [hdigits]
    split
    · rename_i hone
      rw [List.mem_singleton]
      exact (hdigit n hone).symm
    · rename_i hmore
      rw [List.mem_append, List.mem_singleton, not_or]
      exact ⟨ih _ (Nat.div_lt_self (by omega) hbase),
        (hdigit _ (Nat.mod_lt n (by omega))).symm⟩

namespace Decimal

theorem digit_ne_newline : ∀ n < 10, digit n ≠ '\n' := by decide

theorem newline_not_mem_digits (n : Nat) : '\n' ∉ digits n := by
  refine newline_not_mem_numeral (by decide) digit_ne_newline (fun n => ?_) n
  rw [digits]

theorem oneLine_text (n : Nat) : OneLine (text n) := oneLine_ofList (newline_not_mem_digits n)

end Decimal

namespace Hex

theorem digit_ne_newline : ∀ n < 16, digit n ≠ '\n' := by decide

theorem newline_not_mem_digits (n : Nat) : '\n' ∉ digits n := by
  refine newline_not_mem_numeral (by decide) digit_ne_newline (fun n => ?_) n
  rw [digits]

theorem oneLine_ofBytes (bytes : List UInt8) : OneLine (ofBytes bytes) := by
  apply oneLine_ofList
  intro hmem
  obtain ⟨b, -, hb⟩ := List.mem_flatMap.1 hmem
  have hbyte := b.toNat_lt
  rcases List.mem_pair.1 hb with hb | hb
  · exact digit_ne_newline _ (by omega) hb.symm
  · exact digit_ne_newline _ (by omega) hb.symm

end Hex

namespace Quoted

/-- The line feed has a letter of its own, and what else is not printed as itself is written by
digits. -/
theorem newline_not_mem_escaped (c : Char) : '\n' ∉ escaped c := by
  unfold escaped
  split
  · decide
  · decide
  · decide
  · decide
  · decide
  · decide
  · rename_i hfeed _ _ _
    split
    · rw [List.mem_singleton]
      exact fun heq => hfeed heq.symm
    · have hdigits := Hex.newline_not_mem_digits c.toNat
      simp [hdigits]

theorem oneLine_ofString (s : String) : OneLine (ofString s) := by
  apply oneLine_ofList
  have hinside : '\n' ∉ s.toList.flatMap escaped := by
    intro hmem
    obtain ⟨c, -, hc⟩ := List.mem_flatMap.1 hmem
    exact newline_not_mem_escaped c hc
  simp [hinside]

end Quoted

namespace FloatLayout

theorem newline_not_mem_positional {digits : List Char} (h : '\n' ∉ digits) (power : Int) :
    '\n' ∉ positional digits power := by
  have htake : ∀ count : Nat, '\n' ∉ digits.take count := fun _ hmem => h (List.mem_of_mem_take hmem)
  have hdrop : ∀ count : Nat, '\n' ∉ digits.drop count := fun _ hmem => h (List.mem_of_mem_drop hmem)
  unfold positional
  split
  · simp [h]
  · dsimp only
    split
    · simp [h]
    · simp [htake, hdrop]

theorem newline_not_mem_scientific (layout : FloatLayout) {digits : List Char} (h : '\n' ∉ digits)
    (power : Int) : '\n' ∉ layout.scientific digits power := by
  have hexponent := Decimal.newline_not_mem_digits power.natAbs
  have hsign : '\n' ∉ (if power < 0 then ['-'] else if layout.plusSign then ['+'] else []) := by
    split
    · decide
    · split <;> decide
  unfold scientific
  simp only [List.mem_append, not_or]
  refine ⟨⟨⟨?_, by decide⟩, hsign⟩, hexponent⟩
  split
  · exact h
  · exact h
  · rename_i first rest _
    rw [List.mem_cons, not_or] at h ⊢
    refine ⟨h.1, ?_⟩
    simp [h.2]

theorem newline_not_mem_positive (layout : FloatLayout) (x : Binary64) :
    '\n' ∉ layout.positive x := by
  have hdigits := Decimal.newline_not_mem_digits (Decimal.shortest layout.tie x).digits
  unfold positive
  dsimp only
  split
  · exact newline_not_mem_positional hdigits _
  · exact newline_not_mem_scientific layout hdigits _

/-- A double is on one line if the words of its format are. -/
theorem oneLine_text {layout : FloatLayout} (hnan : OneLine layout.nan)
    (hinfinity : OneLine layout.infinity) (hnegative : OneLine layout.negativeInfinity)
    (x : Binary64) : OneLine (layout.text x) := by
  have hunsigned : '\n' ∉ (if x.isZero then ['0', '.', '0'] else layout.positive x) := by
    split
    · decide
    · exact newline_not_mem_positive layout x
  unfold text
  split
  · exact hnan
  split
  · split
    · exact hnegative
    · exact hinfinity
  · apply oneLine_ofList
    split
    · rw [List.mem_cons, not_or]
      exact ⟨by decide, hunsigned⟩
    · exact hunsigned

end FloatLayout

/-! ## 3. The parts of a line -/

theorem Position.oneLine_text (p : Position) : OneLine p.text := by
  have hline := Decimal.oneLine_text p.line.toNat
  have hcolumn := Decimal.oneLine_text p.column.toNat
  unfold text
  split
  · decide
  split
  · exact hline.append (by decide)
  · exact (hline.append (by decide)).append hcolumn

theorem oneLine_spaces (width : Nat) : OneLine (String.ofList (List.replicate width ' ')) := by
  apply oneLine_ofList
  intro hmem
  exact absurd (List.eq_of_mem_replicate hmem) (by decide)

theorem oneLine_alignRight {s : String} (h : OneLine s) (width : Nat) :
    OneLine (alignRight width s) := (oneLine_spaces _).append h

theorem Literal.Sign.oneLine_spell (sign : Literal.Sign) (magnitude : Nat) :
    OneLine (sign.spell magnitude) := by
  have hmagnitude := Decimal.oneLine_text magnitude
  cases sign with
  | positive => exact hmagnitude
  | negative => exact OneLine.append (by decide) hmagnitude

theorem Kind.oneLine_label (kind : Kind) : OneLine kind.label := by
  cases kind <;> decide

/-- **No value breaks a line**, whatever its text or its bytes are. -/
theorem Scalar.oneLine_of_render {header : Header} {value : Scalar} {s : String}
    (h : value.render header = some s) : OneLine s := by
  cases value with
  | null =>
    obtain rfl := Option.some.inj h
    decide
  | leaf => cases h
  | text value =>
    obtain rfl := Option.some.inj h
    exact Quoted.oneLine_ofString value
  | integer sign magnitude =>
    obtain rfl := Option.some.inj h
    exact sign.oneLine_spell magnitude
  | real value =>
    obtain rfl := Option.some.inj h
    exact FloatLayout.oneLine_text (by decide) (by decide) (by decide) value
  | raw kind bytes =>
    simp only [render] at h
    split at h
    · obtain rfl := Option.some.inj h
      exact Literal.Sign.oneLine_spell _ _
    split at h
    · obtain rfl := Option.some.inj h
      exact Literal.Sign.oneLine_spell _ _
    · obtain rfl := Option.some.inj h
      have hlabel : OneLine ("<" ++ kind.label) := OneLine.append (by decide) kind.oneLine_label
      have hbytes := Hex.oneLine_ofBytes bytes
      exact ((hlabel.append (by decide)).append hbytes).append (by decide)
  | unknown bytes =>
    obtain rfl := Option.some.inj h
    have hcode : OneLine ("<type " ++ Decimal.text header.typeCode.toNat) :=
      OneLine.append (by decide) (Decimal.oneLine_text _)
    have hbytes := Hex.oneLine_ofBytes bytes
    exact ((hcode.append (by decide)).append hbytes).append (by decide)

theorem Tag.count_trimmed (tag : Tag) : tag.trimmed.count 0x0A = tag.bytes.count 0x0A := by
  have hspaces : (tag.bytes.reverse.takeWhile (· == space)).count 0x0A = 0 := by
    rw [List.count_eq_zero]
    intro hmem
    exact absurd (List.all_eq_true.1 List.all_takeWhile _ hmem) (by decide)
  calc tag.trimmed.count 0x0A
    _ = (tag.bytes.reverse.dropWhile (· == space)).count 0x0A := List.count_reverse
    _ = (tag.bytes.reverse.takeWhile (· == space)
          ++ tag.bytes.reverse.dropWhile (· == space)).count 0x0A := by
        rw [List.count_append, hspaces, Nat.zero_add]
    _ = tag.bytes.reverse.count 0x0A := by rw [List.takeWhile_append_dropWhile]
    _ = tag.bytes.count 0x0A := List.count_reverse

/-- **A name has the line feeds of its bytes.** -/
theorem Tag.lineFeeds_text (tag : Tag) : lineFeeds tag.text = tag.bytes.count 0x0A := by
  rw [lineFeeds, text, Lossy.text, String.toList_ofList, Lossy.count_chars, count_trimmed]

/-! ## 4. The lines -/

namespace Tree

theorem oneLine_of_render {tree : Tree} {s : String} (h : tree.render = some s) : OneLine s := by
  cases tree with
  | scalar header value => exact Scalar.oneLine_of_render h
  | branch header children => cases h

/-- **Only the name of a node has line feeds.** -/
theorem lineFeeds_entry (tree : Tree) (level : Nat) :
    lineFeeds (tree.entry level) = tree.header.name.bytes.count 0x0A := by
  have hposition := oneLine_alignRight tree.header.position.oneLine_text 7
  have hsize := oneLine_alignRight (Decimal.oneLine_text tree.header.size.toNat) 6
  have hstart : OneLine (alignRight 7 tree.header.position.text
      ++ " (" ++ alignRight 6 (Decimal.text tree.header.size.toNat) ++ ") "
      ++ String.ofList (List.replicate (2 * level) ' ')) :=
    (((hposition.append (by decide)).append hsize).append (by decide)).append (oneLine_spaces _)
  have hvalue : OneLine (tree.render.elim "" (" " ++ ·)) := by
    cases hrender : tree.render with
    | none => decide
    | some value => exact OneLine.append (by decide) (oneLine_of_render hrender)
  rw [entry, lineFeeds_append, lineFeeds_append, lineFeeds_eq_zero_iff.2 hstart,
    lineFeeds_eq_zero_iff.2 hvalue, Tag.lineFeeds_text, Nat.zero_add, Nat.add_zero]

theorem toList_entries (nodes : List (Tree × Nat)) :
    (entries nodes).toList
      = (nodes.map fun node => (node.1.entry node.2).toList).flatMap (· ++ ['\n']) := by
  rw [entries, String.toList_join]
  simp only [List.flatMap_map, String.toList_append]
  rfl

/-- **Entries have a line feed for each node, and those in the names.** -/
theorem lineFeeds_entries (nodes : List (Tree × Nat)) :
    lineFeeds (entries nodes) = nodes.length
      + (nodes.map fun node => node.1.header.name.bytes.count 0x0A).sum := by
  induction nodes with
  | nil => rfl
  | cons node rest ih =>
    have hend : lineFeeds "\n" = 1 := rfl
    rw [entries_cons, lineFeeds_append, lineFeeds_append, lineFeeds_entry, hend, ih, List.map_cons,
      List.sum_cons, List.length_cons]
    omega

/-- Texts of one line that are each ended by a line feed are the lines, with nothing behind the
last one. -/
theorem splitOn_ended {texts : List (List Char)} (h : ∀ text ∈ texts, '\n' ∉ text) :
    (texts.flatMap (· ++ ['\n'])).splitOn '\n' = texts ++ [[]] := by
  have hended : texts.flatMap (· ++ ['\n']) = ['\n'].intercalate (texts ++ [[]]) := by
    induction texts with
    | nil => rfl
    | cons text rest ih =>
      rw [List.flatMap_cons, ih fun text hmem => h text (List.mem_cons_of_mem _ hmem)]
      cases rest with
      | nil => simp
      | cons next rest => simp [List.intercalate_cons_cons]
  rw [hended]
  refine List.splitOn_intercalate '\n' ?_ (by simp)
  intro text hmem
  rcases List.mem_append.1 hmem with hmem | hmem
  · exact h text hmem
  · obtain rfl := List.mem_singleton.1 hmem
    exact List.not_mem_nil

/-- **The lines of a dump are those of its nodes where the names allow it.**  Every tree of up to
32768 levels has a dump, and

* it is the entries of the nodes in preorder, each ended by a line feed;
* its line feed bytes are one for each node and those in the names, whatever the other contents of
  the nodes are;
* so there are as many as nodes exactly if no name has one;
* and then the dump split at the line feeds is the entries, with nothing behind the last one. -/
theorem dump_lines_of_names (tree : Tree) (hlevels : tree.height ≤ 32768) :
    ∃ text : String, tree.dump = .ok text
      ∧ text.toList
          = (tree.preorder.map fun node => (node.1.entry node.2).toList).flatMap (· ++ ['\n'])
      ∧ (Utf8.ofString text).count 0x0A = tree.nodeCount
          + (tree.preorder.map fun node => node.1.header.name.bytes.count 0x0A).sum
      ∧ ((Utf8.ofString text).count 0x0A = tree.nodeCount
          ↔ ∀ node ∈ tree.preorder, 0x0A ∉ node.1.header.name.bytes)
      ∧ ((∀ node ∈ tree.preorder, 0x0A ∉ node.1.header.name.bytes) →
          text.toList.splitOn '\n'
            = (tree.preorder.map fun node => (node.1.entry node.2).toList) ++ [[]]) := by
  have hcount : (Utf8.ofString (entries tree.preorder)).count 0x0A = tree.nodeCount
      + (tree.preorder.map fun node => node.1.header.name.bytes.count 0x0A).sum := by
    rw [count_ofString, lineFeeds_entries, length_preorder]
  refine ⟨_, dump_eq_entries hlevels, toList_entries _, hcount, ?_, ?_⟩
  · rw [hcount, Nat.add_eq_left, List.sum_eq_zero_iff_forall_eq_nat, List.forall_mem_map]
    simp only [List.count_eq_zero]
  · intro hnames
    rw [toList_entries]
    apply splitOn_ended
    rw [List.forall_mem_map]
    intro node hnode
    have hentry := lineFeeds_entry node.1 node.2
    rw [List.count_eq_zero.2 (hnames node hnode)] at hentry
    exact lineFeeds_eq_zero_iff.1 hentry

/-- A branch with a text of two lines. -/
def twoLineText : Tree :=
  branch ⟨.ofName "poem", 72, .unknown, Kind.branch.code⟩
    [scalar ⟨.ofName "#text", 35, .unknown, Kind.text.code⟩ (.text "a\nb")]

/-- The line feed of the text is escaped, so that there is a line for each of the two nodes. -/
theorem dump_lines_of_twoLineText :
    ∃ text : String, twoLineText.dump = .ok text
      ∧ (Utf8.ofString text).count 0x0A = 2
      ∧ text.toList.splitOn '\n'
        = ["    ?:? (    72) poem".toList, "    ?:? (    35)   #text \"a\\nb\"".toList, []] := by
  have hpreorder : twoLineText.preorder = [(twoLineText, 0),
      (scalar ⟨.ofName "#text", 35, .unknown, Kind.text.code⟩ (.text "a\nb"), 1)] := by
    simp [preorder, walk, twoLineText, childrenAt, children]
  have hnames : ∀ node ∈ twoLineText.preorder, 0x0A ∉ node.1.header.name.bytes := by
    rw [hpreorder]
    decide +kernel
  obtain ⟨text, hdump, -, -, hcount, hsplit⟩ := dump_lines_of_names twoLineText (by decide)
  refine ⟨text, hdump, hcount.2 hnames, ?_⟩
  rw [hsplit hnames, hpreorder]
  decide +kernel

/-- The header of a leaf with a line feed in its name. -/
def twoLineName : Header := ⟨.ofName "a\nb", 32, .unknown, Kind.leaf.code⟩

theorem decode_twoLineName :
    (decode twoLineName.encode).result = .ok (scalar twoLineName .leaf, 32) := by
  have hheader : (Frame.cut twoLineName.encode).header = twoLineName := by decide +kernel
  rw [decode_eq_ok_iff, ← hheader]
  refine ⟨⟨?_, ?_⟩, ?_, ofFrame_of_scalar ?_⟩
  all_goals decide +kernel

/-- **A name can break its line**: a leaf with a line feed in its name is read, has no children, and
takes two lines. -/
theorem dump_breaks_at_name :
    (decode twoLineName.encode).result = .ok (scalar twoLineName .leaf, 32)
      ∧ (scalar twoLineName .leaf).nodeCount = 1
      ∧ (scalar twoLineName .leaf).dump = .ok "    ?:? (    32) a\nb\n"
      ∧ (Utf8.ofString "    ?:? (    32) a\nb\n").count 0x0A = 2 := by
  have hdump : (scalar twoLineName .leaf).dump = .ok "    ?:? (    32) a\nb\n" := by
    rw [dump_eq_entries (by decide)]
    congr 1
    simp only [preorder, walk, childrenAt, children, List.map_nil, List.append_nil]
    decide +kernel
  refine ⟨decode_twoLineName, rfl, hdump, ?_⟩
  decide +kernel

end Tree
end SyntaxTree
