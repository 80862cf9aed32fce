/-
# What following a line directive does

A directive that has the parts of the grammar is followed, and any other changes nothing at all
(`perform_reposition_directs`).  Following one moves the cursor to the start of the line before
the one it says, since the line feed behind the directive is still to come, and makes the named
file the current one if it names one (`Tracker.Follows`).

The one step that could still go wrong is the name.  It is taken from the characters between the
quotes by way of their bytes: these are decoded as a raw literal, and what comes out is read as
UTF-8 again.  Neither way changes anything but escaped quotes (`fileName_eq`).  A backslash and
the character behind it are a pair to the grammar; to the decoder the pair is the backslash and
the first byte of that character, and the bytes that are left hold no backslash
(`unescape_pair`).
-/
import SyntaxTree.Proofs.CursorPath
import SyntaxTree.Proofs.DirectiveGrammar
import SyntaxTree.Proofs.EscapeReference
import SyntaxTree.Proofs.FileTable

namespace SyntaxTree

/-! ## 1. The name of a file -/

namespace LineDirective

/-- A quoted text without the backslashes of its escaped quotes.  Pairs are read from the left, so
that a backslash behind another one escapes nothing. -/
def unquote : List Char → List Char
  | [] => []
  | ['\\'] => ['\\']
  | '\\' :: c :: rest =>
    if c = '"' then '"' :: unquote rest else '\\' :: c :: unquote rest
  | c :: rest => c :: unquote rest

theorem ofChar_ne_nil (c : Char) : Utf8.ofChar c ≠ [] := by
  intro hnil
  have hlength := Utf8.length_of_encode (Utf8.encode_toNat c)
  rw [hnil, Utf8.encodedLength] at hlength
  grind

/-- **A pair that escapes no quote is copied.** -/
theorem unescape_pair {c : Char} (h : c ≠ '"') (rest : List UInt8) :
    Literal.unescape .raw (Ascii.byte '\\' :: (Utf8.ofChar c ++ rest))
      = (Literal.unescape .raw rest).map ((Ascii.byte '\\' :: Utf8.ofChar c) ++ ·) := by
  obtain ⟨first, more, hbytes⟩ := List.exists_cons_of_ne_nil (ofChar_ne_nil c)
  have hfirst : first ∉ Literal.escapeBytes .raw := by
    have hne : first ≠ Ascii.byte '"' :=
      Utf8.ne_byte_of_mem_ofChar (by decide) h first (hbytes ▸ List.mem_cons_self)
    exact fun hmem => hne (List.mem_singleton.1 hmem)
  have hmore : ∀ b ∈ more, b ≠ Ascii.byte '\\' := by
    by_cases hslash : c = '\\'
    · -- a backslash is its first byte and nothing else
      subst hslash
      obtain ⟨-, rfl⟩ := List.cons.inj (hbytes.symm.trans (Utf8.ofChar_one (by decide)))
      exact List.forall_mem_nil _
    · intro b hb
      exact Utf8.ne_byte_of_mem_ofChar (by decide) hslash b (hbytes ▸ List.mem_cons_of_mem first hb)
  rw [hbytes, List.cons_append,
    Literal.unescape_of_headPiece (Literal.headPiece_verbatim hfirst (more ++ rest)),
    List.drop_succ_cons, List.drop_zero, Literal.unescape_append hmore]
  cases Literal.unescape .raw rest <;> rfl

/-- **Decoding drops the backslash of each escaped quote**, and nothing else. -/
theorem unescape_ofChars (cs : List Char) :
    Literal.unescape .raw (Utf8.ofChars cs) = .ok (Utf8.ofChars (unquote cs)) := by
  fun_induction unquote cs with
  | case1 => exact Literal.unescape.eq_1 .raw
  | case2 => exact Literal.unescape_of_decodes .lone
  | case3 rest ih =>
    have hquote : ('"', '"') ∈ Literal.shortEscapesOf .raw := List.mem_singleton.2 rfl
    exact Literal.unescape_of_decodes (.short hquote (Literal.decodes_iff.2 ih))
  | case4 c rest hc ih =>
    refine (unescape_pair hc (Utf8.ofChars rest)).trans ?_
    rw [ih]
    rfl
  | case5 c rest hlone hpair ih =>
    have hc : c ≠ '\\' := by
      intro hslash
      cases rest with
      | nil => exact hlone hslash rfl
      | cons next more => exact hpair next more hslash rfl
    have hplain := Utf8.ne_byte_of_mem_ofChar (by decide) hc
    refine (Literal.unescape_append hplain .raw (Utf8.ofChars rest)).trans ?_
    rw [ih]
    rfl

/-- **The name of a file is the quoted text without the backslashes of its escaped quotes.** -/
theorem fileName_eq (quoted : List Char) :
    fileName quoted = .ok (String.ofList (unquote quoted)) := by
  rw [fileName, Literal.decodeEscapes_eq_unescape, unescape_ofChars]
  exact congrArg Except.ok (congrArg String.ofList (Lossy.chars_ofChars (unquote quoted)))

end LineDirective

/-! ## 2. Reading a directive -/

namespace Tracker

theorem readDirective_of_directs {text : String} {line : Nat} {quoted : Option (List Char)}
    (h : LineDirective.Directs line quoted text.toList) :
    readDirective text = some (UInt32.ofNat line,
      quoted.map fun body => String.ofList (LineDirective.unquote body)) := by
  rw [readDirective, LineDirective.parse?_of_directs h]
  cases quoted with
  | none => rfl
  | some body => simp only [LineDirective.fileName_eq, Option.map_some]

theorem readDirective_eq_none {text : String}
    (h : ¬ ∃ (line : Nat) (quoted : Option (List Char)),
      LineDirective.Directs line quoted text.toList) : readDirective text = none := by
  cases hparse : LineDirective.parse? text.toList with
  | none => simp only [readDirective, hparse]
  | some directive =>
    exact absurd ⟨_, _, LineDirective.directs_of_parse? hparse⟩ h

/-! ## 3. Following a directive -/

/-- The tracker `later` is the one of before, after a directive for a line, with the text between
quotes if it has one. -/
structure Follows (tracker : Tracker) (line : Nat) (quoted : Option (List Char))
    (later : Tracker) : Prop where
  line_eq : later.current.line.toNat = line - 1
  column_eq : later.current.column = 0
  offset_eq : later.current.offset = tracker.current.offset
  previous_eq : later.previous = tracker.previous
  tabWidth_eq : later.tabWidth = tracker.tabWidth
  /-- Without a name the file stays. -/
  unnamed : quoted = none → later.current.file = tracker.current.file ∧ later.files = tracker.files
  /-- A name is interned, and its index is the file. -/
  named : ∀ body : List Char, quoted = some body →
    (later.current.file, later.files)
      = tracker.files.intern (String.ofList (LineDirective.unquote body))
  /-- The index is that of the name, unless the table had no room for it. -/
  get?_file : tracker.files.Coherent → ∀ body : List Char, quoted = some body →
    later.current.file = Position.tableFull
      ∨ later.files.get? later.current.file = some (String.ofList (LineDirective.unquote body))
  /-- No index changes its name. -/
  extends_files : tracker.files.Extends later.files

/-- **A directive with the parts is followed.** -/
theorem reposition_of_directs {tracker : Tracker} {text : String} {line : Nat}
    {quoted : Option (List Char)} (h : LineDirective.Directs line quoted text.toList) :
    ∃ later : Tracker, (tracker.reposition text).result = .ok later
      ∧ tracker.Follows line quoted later := by
  have hsmall := h.lt_size
  have hline : (UInt32.ofNat ((UInt32.ofNat line).toNat - 1)).toNat = line - 1 := by
    rw [UInt32.toNat_ofNat_of_lt' hsmall, UInt32.toNat_ofNat_of_lt' (by omega)]
  rw [reposition, readDirective_of_directs h]
  cases quoted with
  | none =>
    refine ⟨_, rfl, hline, rfl, rfl, rfl, rfl, fun _ => ⟨rfl, rfl⟩, ?_, ?_, .refl tracker.files⟩
    · intro body hbody
      cases hbody
    · intro _ body hbody
      cases hbody
  | some name =>
    refine ⟨_, rfl, hline, rfl, rfl, rfl, rfl, ?_, ?_, ?_,
      FileTable.extends_intern tracker.files _⟩
    · intro hnone
      cases hnone
    · intro body hbody
      obtain rfl := Option.some.inj hbody
      rfl
    · intro hcoherent body hbody
      obtain rfl := Option.some.inj hbody
      exact FileTable.get?_intern hcoherent _

/-- A directive without the parts is refused. -/
theorem reposition_of_not_directs {tracker : Tracker} {text : String}
    (h : ¬ ∃ (line : Nat) (quoted : Option (List Char)),
      LineDirective.Directs line quoted text.toList) :
    tracker.reposition text = .fail (.directive tracker.currentPosition text) := by
  rw [reposition, readDirective_eq_none h]

/-- Reading on behind a directive: lines are counted from the one before its line, and columns from
the start of the line. -/
theorem Follows.advance {tracker later : Tracker} {line : Nat} {quoted : Option (List Char)}
    (h : tracker.Follows line quoted later) (hwidth : 0 < tracker.tabWidth) (text : List UInt8) :
    (later.advance text).current.line.toNat = min (line - 1 + text.count 0x0A) countLimit
      ∧ (later.advance text).current.column.toNat
          = min (Column.after tracker.tabWidth 0 (Column.lastPart text)) countLimit
      ∧ (later.advance text).current.offset = tracker.current.offset + text.length
      ∧ (later.advance text).current.file = later.current.file
      ∧ (later.advance text).files = later.files := by
  have hstart : later.current.columnStart text = 0 := by
    rw [Cursor.columnStart, h.column_eq]
    split <;> rfl
  refine ⟨?_, ?_, ?_, Cursor.file_advance _ _ _, rfl⟩
  · rw [← h.line_eq]
    exact Cursor.toNat_line_advance later.tabWidth text later.current
  · rw [← hstart, ← h.tabWidth_eq]
    exact Cursor.toNat_column_advance (h.tabWidth_eq ▸ hwidth) later.current text
  · rw [← h.offset_eq]
    exact Cursor.offset_advance later.tabWidth text later.current

end Tracker

/-! ## 4. Sessions -/

namespace Session

theorem perform_reposition_of_ok {session : Session} {text : String} {later : Tracker}
    (h : (session.builder.tracker.reposition text).result = .ok later) :
    (session.perform (.reposition text)).1.result = .ok .done
      ∧ (session.perform (.reposition text)).2 = session.withTracker later := by
  simp only [perform, moving, Outcome.bind_of_ok h]
  exact ⟨rfl, rfl⟩

theorem perform_reposition_of_fail {session : Session} {text : String} {cause : Error}
    (h : session.builder.tracker.reposition text = .fail cause) :
    session.perform (.reposition text) = (.fail cause, session) := by
  simp only [perform, moving, h, Outcome.fail_bind]
  rfl

end Session

/-- **A line directive is followed exactly if it has the parts of one, and else nothing happens.**
In any state of a tracker:

* a directive is taken without a fault exactly if it has the parts;
* then only the tracker changes, and in it only the line, the column and, if a name is given, the
  file and the table, in which no index changes its name; and whatever is read next is counted
  from the line before the one that was said, so that the line feed behind the directive brings
  the cursor to that line;
* else the fault says where the cursor is and quotes the directive, no notice is given, and the
  session is as it was. -/
theorem perform_reposition_directs (settings : Settings) (previous current : Cursor)
    (files : FileTable) (slots : Slots Value) (text : String) :
    let session := Session.ofState settings previous current files slots
    let performed := session.perform (.reposition text)
    ((∃ answer : Answer, performed.1.result = .ok answer)
        ↔ ∃ (line : Nat) (quoted : Option (List Char)),
            LineDirective.Directs line quoted text.toList)
    ∧ (∀ (line : Nat) (quoted : Option (List Char)),
        LineDirective.Directs line quoted text.toList →
          ∃ later : Tracker, performed.2 = session.withTracker later
            ∧ session.builder.tracker.Follows line quoted later
            ∧ ∀ next : List UInt8,
                (later.advance next).current.line.toNat
                    = min (line - 1 + next.count 0x0A) countLimit
                ∧ (later.advance next).current.column.toNat
                    = min (Column.after (max settings.tabWidth.toNat 1) 0 (Column.lastPart next))
                        countLimit
                ∧ (later.advance next).current.offset = current.offset + next.length
                ∧ (later.advance next).current.file = later.current.file
                ∧ (later.advance next).files = later.files)
    ∧ ((¬ ∃ (line : Nat) (quoted : Option (List Char)),
          LineDirective.Directs line quoted text.toList) →
        performed = (.fail (.directive current.position text), session)) := by
  intro session performed
  have hwidth : 0 < session.builder.tracker.tabWidth :=
    Nat.lt_of_lt_of_le Nat.one_pos (Nat.le_max_right _ 1)
  have hrefused (h : ¬ ∃ (line : Nat) (quoted : Option (List Char)),
      LineDirective.Directs line quoted text.toList) :
      performed = (.fail (.directive current.position text), session) :=
    Session.perform_reposition_of_fail (Tracker.reposition_of_not_directs h)
  refine ⟨⟨?_, ?_⟩, ?_, hrefused⟩
  · rintro ⟨answer, hanswer⟩
    by_contra h
    rw [hrefused h] at hanswer
    cases hanswer
  · rintro ⟨line, quoted, h⟩
    obtain ⟨later, hlater, -⟩ := Tracker.reposition_of_directs h
    exact ⟨.done, (Session.perform_reposition_of_ok hlater).1⟩
  · intro line quoted h
    obtain ⟨later, hlater, hfollows⟩ := Tracker.reposition_of_directs h
    exact ⟨later, (Session.perform_reposition_of_ok hlater).2, hfollows,
      fun next => hfollows.advance hwidth next⟩

/-- A name with an escaped quote, and a backslash that escapes the one before the end. -/
def oddName : List Char := "we\\\"ird\\\\".toList

/-- A directive with zeros in front of the line, a tab, digits of two scripts and a last blank. -/
def oddDirective : String := "\t007 \"we\\\"ird\\\\\" 1 ٣ "

/-- A name that is not in quotes. -/
def unquotedDirective : String := "12 foo.y"

theorem directs_oddDirective : LineDirective.Directs 7 (some oddName) oddDirective.toList := by
  have hparse : LineDirective.parse? oddDirective.toList = some ⟨7, some oddName⟩ := by
    decide +kernel
  exact LineDirective.parse?_eq_some_iff.1 hparse

theorem not_directs_unquotedDirective : ¬ ∃ (line : Nat) (quoted : Option (List Char)),
    LineDirective.Directs line quoted unquotedDirective.toList := by
  rintro ⟨line, quoted, h⟩
  have hnone : LineDirective.parse? unquotedDirective.toList = none := by decide +kernel
  rw [LineDirective.parse?_of_directs h] at hnone
  cases hnone

/-- A session at the start of an unknown file, with room for one name. -/
def freshSession : Session := .ofState .standard .start .start (.ofCapacity 1) .empty

theorem perform_reposition_odd :
    LineDirective.Directs 7 (some oddName) oddDirective.toList
      ∧ (∃ later : Tracker,
          (freshSession.perform (.reposition oddDirective)).2 = freshSession.withTracker later
            ∧ later.current.line.toNat = 6
            ∧ (later.current.file, later.files)
                = freshSession.builder.tracker.files.intern "we\"ird\\\\"
            ∧ (later.advance [0x0A]).current.line.toNat = 7)
      ∧ (¬ ∃ (line : Nat) (quoted : Option (List Char)),
          LineDirective.Directs line quoted unquotedDirective.toList)
      ∧ freshSession.perform (.reposition unquotedDirective)
          = (.fail (.directive Cursor.start.position unquotedDirective), freshSession) := by
  obtain ⟨-, hfollowed, -⟩ :=
    perform_reposition_directs .standard .start .start (.ofCapacity 1) .empty oddDirective
  obtain ⟨-, -, hrefused⟩ :=
    perform_reposition_directs .standard .start .start (.ofCapacity 1) .empty unquotedDirective
  obtain ⟨later, hlater, hfollows, hnext⟩ := hfollowed 7 (some oddName) directs_oddDirective
  exact ⟨directs_oddDirective, ⟨later, hlater, hfollows.line_eq, hfollows.named oddName rfl,
    (hnext [0x0A]).1⟩, not_directs_unquotedDirective, hrefused not_directs_unquotedDirective⟩

end SyntaxTree
