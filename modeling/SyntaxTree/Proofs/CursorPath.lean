/-
# Where the cursor is after a text

The cursor is moved one byte at a time and is kept from call to call.  This file says where it
is without following it (`cursor_run_calls`): lines are line feeds, the column is counted from
the last line feed or carriage return on, and both stop at the largest number.  Only the whole
text counts, so the tokens that it came in are of no account, be they cut inside a character.

* `Column.after` counts without a limit.  Stopping at the limit once, at the end, is the same
  as stopping there after every byte: no byte of a line moves a column back, so a column past
  the limit stays past it (`min_step_min`).
* `Column.lastPart` is what is behind the last break.  A break sets the column to zero, and so
  what stands in front of it is forgotten (`toNat_column_advance`).
* `Reading` is a call that reads a text, for its token or for its coordinates.  One call moves
  the cursor over its text and answers with the positions before and after (`builder_performInto`,
  `span?_performInto`); from this follow both what a sequence of calls reads and that the answers
  join up.
-/
import Mathlib.Algebra.Group.Nat.Defs
import Mathlib.Data.List.DropRight
import SyntaxTree.Session

namespace SyntaxTree

/-! ## 1. Columns without a limit -/

/-- The largest line and the largest column. -/
def countLimit : Nat := 2 ^ 32 - 1

theorem toNat_addCapped (n : UInt32) (amount : Nat) :
    (addCapped n amount).toNat = min (n.toNat + amount) countLimit := by
  rw [addCapped, UInt32.toNat_ofNat', countLimit]
  omega

theorem toNat_le_countLimit (n : UInt32) : n.toNat ≤ countLimit :=
  Nat.le_of_lt_succ n.toNat_lt

namespace Column

/-- Whether a byte starts the column again: a line feed or a carriage return. -/
def isBreak (byte : UInt8) : Bool := byte == 0x0A || byte == 0x0D

/-- What is behind the last break, and all of a text without one. -/
def lastPart (text : List UInt8) : List UInt8 := text.rtakeWhile fun byte => !isBreak byte

/-- Whether a byte is shown: printable ASCII and every byte from 0xC0 on. -/
def isShown (byte : UInt8) : Bool := (0x20 ≤ byte && byte ≤ 0x7E) || 0xC0 ≤ byte

/-- The first multiple of the width past a column. -/
def nextStop (width column : Nat) : Nat := (column / width + 1) * width

/-- The column after one byte that is no break. -/
def step (width column : Nat) (byte : UInt8) : Nat :=
  if byte = 0x09 then nextStop width column
  else if isShown byte then column + 1
  else column

/-- The column after bytes that are no breaks. -/
def after (width column : Nat) (bytes : List UInt8) : Nat := bytes.foldl (step width) column

theorem nextStop_eq {width : Nat} (hwidth : 0 < width) (column : Nat) :
    column + (width - column % width) = nextStop width column := by
  have hmod := Nat.mod_lt column hwidth
  have hdiv := Nat.div_add_mod' column width
  rw [nextStop, Nat.add_mul]
  omega

/-- No byte of a line moves a column back. -/
theorem le_step {width : Nat} (hwidth : 0 < width) (column : Nat) (byte : UInt8) :
    column ≤ step width column byte := by
  unfold step
  split
  · rw [← nextStop_eq hwidth]
    omega
  · split <;> omega

/-- **A limit on the way makes no difference**: a column past the limit stays past it, and any
other is not touched. -/
theorem min_step_min {width : Nat} (hwidth : 0 < width) (column limit : Nat) (byte : UInt8) :
    min (step width (min column limit) byte) limit = min (step width column byte) limit := by
  rcases Nat.le_total column limit with hle | hge
  · rw [Nat.min_eq_left hle]
  · have hpast := le_step hwidth column byte
    have hstays := le_step hwidth limit byte
    rw [Nat.min_eq_right hge]
    omega

theorem lastPart_append_break (front : List UInt8) {byte : UInt8} (h : isBreak byte = true) :
    lastPart (front ++ [byte]) = [] :=
  List.rtakeWhile_concat_neg _ _ _ (by simp [h])

theorem lastPart_append_other (front : List UInt8) {byte : UInt8} (h : isBreak byte = false) :
    lastPart (front ++ [byte]) = lastPart front ++ [byte] :=
  List.rtakeWhile_concat_pos _ _ _ (by simp [h])

theorem after_append (width column : Nat) (bytes : List UInt8) (byte : UInt8) :
    after width column (bytes ++ [byte]) = step width (after width column bytes) byte := by
  rw [after, List.foldl_append]
  rfl

/-- The bytes that show are those whose class starts a character. -/
theorem advancesColumn_ofByte (byte : UInt8) :
    (Utf8.ByteClass.ofByte byte).advancesColumn = isShown byte := by
  unfold Utf8.ByteClass.ofByte isShown
  split
  · simp only [Utf8.ByteClass.advancesColumn]
    grind
  · repeat' split
    all_goals
      simp only [Utf8.ByteClass.advancesColumn]
      grind

end Column

/-! ## 2. The cursor after a text -/

namespace Cursor

theorem columnAfter_break (width : Nat) (column : UInt32) {byte : UInt8}
    (h : Column.isBreak byte = true) : columnAfter width column byte = 0 := by
  refine if_pos ?_
  simpa [Column.isBreak] using h

/-- A byte that is no break moves the column as counted, up to the limit. -/
theorem toNat_columnAfter {width : Nat} (hwidth : 0 < width) (column : UInt32) {byte : UInt8}
    (h : Column.isBreak byte = false) :
    (columnAfter width column byte).toNat
      = min (Column.step width column.toNat byte) countLimit := by
  have hbreak : ¬ (byte = 0x0A ∨ byte = 0x0D) := by
    simpa [Column.isBreak] using h
  have hstay : column.toNat = min column.toNat countLimit :=
    (Nat.min_eq_left (toNat_le_countLimit column)).symm
  rw [columnAfter, if_neg hbreak, Column.advancesColumn_ofByte, Column.step]
  split
  · rw [toNat_addCapped, Column.nextStop_eq hwidth]
  · split
    · rw [toNat_addCapped]
    · exact hstay

theorem offset_advance (width : Nat) (text : List UInt8) (cursor : Cursor) :
    (cursor.advance width text).offset = cursor.offset + text.length := by
  induction text generalizing cursor with
  | nil => rfl
  | cons byte rest ih =>
    have hstep : (cursor.step width byte).offset = cursor.offset + 1 := rfl
    rw [advance_cons, ih, hstep, List.length_cons]
    omega

/-- **The line is the number of line feeds**, up to the limit. -/
theorem toNat_line_advance (width : Nat) (text : List UInt8) (cursor : Cursor) :
    (cursor.advance width text).line.toNat
      = min (cursor.line.toNat + text.count 0x0A) countLimit := by
  induction text generalizing cursor with
  | nil => exact (Nat.min_eq_left (toNat_le_countLimit cursor.line)).symm
  | cons byte rest ih =>
    rw [advance_cons, ih, List.count_cons]
    by_cases hfeed : byte = 0x0A
    · have hline : (cursor.step width byte).line = addCapped cursor.line 1 := if_pos hfeed
      rw [hline, toNat_addCapped, if_pos (beq_iff_eq.2 hfeed)]
      omega
    · have hline : (cursor.step width byte).line = cursor.line := if_neg hfeed
      rw [hline, if_neg (by simpa using hfeed), Nat.add_zero]

/-- Where the column of a text is counted from: from zero behind a break, and else from where
the cursor stood. -/
def columnStart (cursor : Cursor) (text : List UInt8) : Nat :=
  if text.any Column.isBreak then 0 else cursor.column.toNat

/-- **The column is counted from the last break on**, up to the limit.  The induction takes
bytes off the end, since a break there leaves nothing to count. -/
theorem toNat_column_advance {width : Nat} (hwidth : 0 < width) (cursor : Cursor)
    (text : List UInt8) :
    (cursor.advance width text).column.toNat
      = min (Column.after width (cursor.columnStart text) (Column.lastPart text)) countLimit := by
  induction text using List.reverseRecOn with
  | nil => exact (Nat.min_eq_left (toNat_le_countLimit cursor.column)).symm
  | append_singleton front byte ih =>
    have hlast : (cursor.advance width (front ++ [byte])).column
        = columnAfter width (cursor.advance width front).column byte := by
      rw [advance_append]
      rfl
    rw [hlast]
    cases hbreak : Column.isBreak byte with
    | true =>
      have hstart : cursor.columnStart (front ++ [byte]) = 0 := by
        simp [columnStart, hbreak]
      rw [columnAfter_break width _ hbreak, Column.lastPart_append_break front hbreak, hstart]
      rfl
    | false =>
      have hstart : cursor.columnStart (front ++ [byte]) = cursor.columnStart front := by
        simp [columnStart, hbreak]
      rw [toNat_columnAfter hwidth _ hbreak, ih, Column.min_step_min hwidth,
        Column.lastPart_append_other front hbreak, Column.after_append, hstart]

end Cursor

/-! ## 3. Calls that read -/

/-- A call that reads a text: for its token, or for its coordinates as a value. -/
inductive Reading where
  | token (text : List UInt8)
  | coordinates (text : List UInt8)

namespace Reading

/-- What the call reads. -/
def text : Reading → List UInt8
  | token text => text
  | coordinates text => text

/-- The call as an action. -/
def action : Reading → Action
  | token text => .advance text
  | coordinates text => .count text

/-- The calls as steps of a run; values may be kept in slots. -/
def steps (readings : List (Reading × Option String)) : List (Action × Option String) :=
  readings.map fun reading => (reading.1.action, reading.2)

/-- All that the calls read. -/
def texts (readings : List (Reading × Option String)) : List UInt8 :=
  readings.flatMap fun reading => reading.1.text

end Reading

/-- Spans that lead from one position to another: the first starts at the former, each later one
where the one before it ended, and the last ends at the latter. -/
def Leads : Position → List (Position × Position) → Position → Prop
  | start, [], stop => start = stop
  | start, span :: rest, stop => span.1 = start ∧ Leads span.2 rest stop

/-- The two positions in an answer that has them. -/
def Answer.span? : Answer → Option (Position × Position)
  | .span start stop => some (start, stop)
  | .value (.count start stop) => some (start, stop)
  | _ => none

namespace Session

/-- The answers of a run, one for each step. -/
def answers (session : Session) : List (Action × Option String) → List (Outcome Error Answer)
  | [] => []
  | (action, slot) :: rest =>
    let (outcome, after) := session.performInto action slot
    outcome :: after.answers rest

/-- The positions in the answers of a run. -/
def spans (session : Session) (steps : List (Action × Option String)) :
    List (Option (Position × Position)) :=
  (session.answers steps).map fun outcome => outcome.value?.bind Answer.span?

/-- One call moves the tracker over its text, whatever becomes of its answer. -/
theorem builder_performInto (session : Session) (reading : Reading) (slot : Option String) :
    (session.performInto reading.action slot).2.builder = session.builder.advance reading.text := by
  cases reading <;> rfl

/-- One call answers with where the cursor was and where it is. -/
theorem span?_performInto (session : Session) (reading : Reading) (slot : Option String) :
    (session.performInto reading.action slot).1.value?.bind Answer.span?
      = some (session.builder.tracker.currentPosition,
        (session.performInto reading.action slot).2.builder.tracker.currentPosition) := by
  cases reading <;> rfl

/-- **Calls that read move the cursor over all they read**, and nothing else counts. -/
theorem cursor_run_steps : ∀ (readings : List (Reading × Option String)) (session : Session),
    (session.run (Reading.steps readings)).builder.tracker.current
      = session.builder.tracker.current.advance session.builder.tracker.tabWidth
          (Reading.texts readings)
  | [], _ => rfl
  | (reading, slot) :: rest, session => by
    have hstep : session.run (Reading.steps ((reading, slot) :: rest))
        = (session.performInto reading.action slot).2.run (Reading.steps rest) := rfl
    have htext : Reading.texts ((reading, slot) :: rest) = reading.text ++ Reading.texts rest :=
      rfl
    rw [hstep, cursor_run_steps rest, builder_performInto, htext, Cursor.advance_append]
    rfl

/-- **The answers of calls that read join up**, from the cursor before to the cursor after. -/
theorem spans_run_steps (readings : List (Reading × Option String)) (session : Session) :
    ∃ spans : List (Position × Position),
      session.spans (Reading.steps readings) = spans.map some
        ∧ Leads session.builder.tracker.currentPosition spans
            (session.run (Reading.steps readings)).builder.tracker.currentPosition := by
  induction readings generalizing session with
  | nil => exact ⟨[], rfl, rfl⟩
  | cons entry rest ih =>
    obtain ⟨reading, slot⟩ := entry
    obtain ⟨spans, hspans, hleads⟩ := ih (session.performInto reading.action slot).2
    have hone := span?_performInto session reading slot
    exact ⟨_ :: spans, List.cons_eq_cons.2 ⟨hone, hspans⟩, rfl, hleads⟩

end Session

/-! ## 4. The cursor after any calls -/

/-- A session in any state that a tracker of some settings can be in. -/
def Session.ofState (settings : Settings) (previous current : Cursor) (files : FileTable)
    (slots : Slots Value) : Session :=
  ⟨⟨{ Tracker.ofSettings settings with previous, current, files }, settings⟩, slots⟩

/-- **The cursor is a function of the text that was read.**  In any state of a tracker, after any
calls that read, the offset has grown by the length of the whole text and the file is the same;
the line has grown by the line feeds in it; and the column is what is counted from the last
break on, or from the old column if there is none, with tab stops at least one apart.  Both stop
at the largest number.  The answers of the calls join up. -/
theorem cursor_run_calls (settings : Settings) (previous current : Cursor) (files : FileTable)
    (slots : Slots Value) (readings : List (Reading × Option String)) :
    let session := Session.ofState settings previous current files slots
    let after := (session.run (Reading.steps readings)).builder.tracker
    let text := Reading.texts readings
    after.current.offset = current.offset + text.length
      ∧ after.current.file = current.file
      ∧ after.current.line.toNat = min (current.line.toNat + text.count 0x0A) countLimit
      ∧ after.current.column.toNat
          = min (Column.after (max settings.tabWidth.toNat 1)
              (if text.any Column.isBreak then 0 else current.column.toNat)
              (Column.lastPart text)) countLimit
      ∧ ∃ spans : List (Position × Position),
          session.spans (Reading.steps readings) = spans.map some
            ∧ Leads current.position spans after.current.position := by
  intro session after text
  have hwidth : 0 < max settings.tabWidth.toNat 1 := by omega
  have hcursor : after.current = current.advance (max settings.tabWidth.toNat 1) text :=
    session.cursor_run_steps readings
  refine ⟨?_, ?_, ?_, ?_, session.spans_run_steps readings⟩
  · rw [hcursor, Cursor.offset_advance]
  · rw [hcursor, Cursor.file_advance]
  · rw [hcursor, Cursor.toNat_line_advance]
  · rw [hcursor, Cursor.toNat_column_advance hwidth]
    rfl

end SyntaxTree
