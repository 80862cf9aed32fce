/-
# The tracker

The tracker follows a scanner through its input.  Each token moves the cursor; the tracker
keeps where the last token started and where the cursor is now, and the names of the files
it has heard of.
-/
import SyntaxTree.Cursor
import SyntaxTree.Error
import SyntaxTree.FileTable
import SyntaxTree.LineDirective
import SyntaxTree.Outcome
import SyntaxTree.Settings

namespace SyntaxTree

/-- The start of the last token, the cursor, and the known files. -/
structure Tracker where
  previous : Cursor
  current : Cursor
  files : FileTable
  tabWidth : Nat

namespace Tracker

/-- A tracker at the start of an unknown file.  Tab stops are at least one column apart. -/
def ofSettings (settings : Settings) : Tracker where
  previous := Cursor.start
  current := Cursor.start
  files := FileTable.ofCapacity settings.fileCapacity.toNat
  tabWidth := max settings.tabWidth.toNat 1

/-- Where the last token started. -/
def previousPosition (tracker : Tracker) : Position := tracker.previous.position

/-- Where the cursor is. -/
def currentPosition (tracker : Tracker) : Position := tracker.current.position

/-- Reads a token. -/
def advance (tracker : Tracker) (text : List UInt8) : Tracker :=
  { tracker with
    previous := tracker.current
    current := tracker.current.advance tracker.tabWidth text }

/-- Gives a file name an index, without changing the current file. -/
def intern {ε : Type} (tracker : Tracker) (name : String) : Outcome ε (UInt32 × Tracker) :=
  let (index, files) := tracker.files.intern name
  ⟨tracker.files.noticesFor name, .ok (index, { tracker with files })⟩

/-- Makes a file the current one, for the last token as well. -/
def setInput {ε : Type} (tracker : Tracker) (name : String) : Outcome ε (UInt32 × Tracker) := do
  let (index, tracker) ← tracker.intern name
  return (index,
    { tracker with
      current := { tracker.current with file := index }
      previous := { tracker.previous with file := index } })

/-- Makes a file the current one, if a name is given. -/
def enter {ε : Type} (tracker : Tracker) : Option String → Outcome ε Tracker
  | none => .ok tracker
  | some name => do
    let (index, tracker) ← tracker.intern name
    return { tracker with current := { tracker.current with file := index } }

/-- The line number and file name of a directive. -/
def readDirective (text : String) : Option (UInt32 × Option String) :=
  match LineDirective.parse? text.toList with
  | none => none
  | some directive =>
    match directive.quoted with
    | none => some (directive.line, none)
    | some quoted =>
      match LineDirective.fileName quoted with
      | .ok name => some (directive.line, some name)
      | .error _ => none

/-- Follows a line directive.  The line is set to the one before, since the line feed behind
the directive is still to come. -/
def reposition (tracker : Tracker) (text : String) : Outcome Error Tracker :=
  match readDirective text with
  | none => .fail (.directive tracker.currentPosition text)
  | some (line, file) => do
    let tracker ← tracker.enter file
    let tracker := { tracker with
      current := { tracker.current with line := UInt32.ofNat (line.toNat - 1), column := 0 } }
    .note (.repositioned line.toNat (tracker.files.get? tracker.current.file))
    return tracker

end Tracker
end SyntaxTree
