/-
# Notices

What the library has to say while it works: a level and a message for each event.  Notices
are values; whoever runs an operation decides which levels to show.
-/
import SyntaxTree.Kind
import SyntaxTree.Position
import SyntaxTree.Tag

namespace SyntaxTree

/-! ## 1. Levels -/

/-- How much to show, from nothing to everything. -/
inductive Level where
  | off
  | error
  | warn
  | info
  | debug
  | trace
  deriving DecidableEq, Repr

namespace Level

/-- Levels by increasing detail. -/
def all : List Level := [off, error, warn, info, debug, trace]

/-- The place of a level among all of them. -/
def rank : Level → Nat
  | off => 0
  | error => 1
  | warn => 2
  | info => 3
  | debug => 4
  | trace => 5

/-- The level at a place; places past the end are the most detailed one. -/
def ofRank : Nat → Level
  | 0 => off
  | 1 => error
  | 2 => warn
  | 3 => info
  | 4 => debug
  | _ => trace

/-- The name of a level. -/
def label : Level → String
  | off => "OFF"
  | error => "ERROR"
  | warn => "WARN"
  | info => "INFO"
  | debug => "DEBUG"
  | trace => "TRACE"

end Level

/-! ## 2. Events -/

/-- Something worth saying. -/
inductive Notice where
  /-- A file name found no room in the table. -/
  | tableFull (capacity : Nat) (name : String)
  /-- The three unused bytes of a header were not all zero. -/
  | reservedBytes (name : Tag)
  /-- A node of an encoded tree has a type that does not belong there. -/
  | strayType (name : Tag) (code : UInt8)
  /-- A line directive moved the cursor. -/
  | repositioned (line : Nat) (file : Option String)
  /-- A literal node was built. -/
  | literal (kind : Kind) (name : Tag) (position : Position)
  /-- Nodes were merged into one. -/
  | merged (count : Nat) (kind : Kind) (name : Tag) (position : Position)
  /-- A tree was saved. -/
  | wrote (size : Nat) (path : String)
  /-- A source file was compiled. -/
  | compiled (input output : String)
  /-- A file goes on behind its root node. -/
  | trailingBytes (path : String) (count : Nat)
  deriving DecidableEq

namespace Notice

/-- The level at which a notice is shown. -/
def level : Notice → Level
  | tableFull _ _ => .warn
  | reservedBytes _ => .warn
  | strayType _ _ => .warn
  | repositioned _ _ => .debug
  | literal _ _ _ => .debug
  | merged _ _ _ _ => .trace
  | wrote _ _ => .info
  | compiled _ _ => .debug
  | trailingBytes _ _ => .warn

/-- The words of a notice. -/
def message : Notice → String
  | tableFull capacity name =>
    "file table is full (" ++ Decimal.text capacity ++ " entries), '" ++ name
      ++ "' is recorded as an unknown file"
  | reservedBytes name => "node '" ++ name.text ++ "' has nonzero reserved header bytes"
  | strayType name code =>
    "node '" ++ name.text ++ "' has type code " ++ Decimal.text code.toNat
      ++ " which does not belong in an encoded tree"
  | repositioned line file =>
    "repositioned to line " ++ Decimal.text line ++ " of file " ++ file.getD "?"
  | literal kind name position =>
    kind.label ++ " node '" ++ name.text ++ "' at " ++ position.text
  | merged count kind name position =>
    "merged " ++ Decimal.text count ++ " bytes into " ++ kind.label ++ " '" ++ name.text
      ++ "' at " ++ position.text
  | wrote size path => "wrote " ++ Decimal.text size ++ " bytes to " ++ path
  | compiled input output => "compiled " ++ input ++ " into " ++ output
  | trailingBytes path count =>
    path ++ " has " ++ Decimal.text count ++ " bytes after the root node"

/-- Whether a notice is shown under a threshold. -/
def visibleAt (threshold : Level) (notice : Notice) : Bool :=
  notice.level.rank ≤ threshold.rank

end Notice
end SyntaxTree
