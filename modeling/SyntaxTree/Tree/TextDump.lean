/-
# Trees as indented text

One line for each node in preorder: its position and size in columns, then its name, two
spaces deeper than its parent, then its value.  A value never contains a line feed of its
own; a name is written as it stands.

The width of the blanks in front of a name is a number of 16 bits.  A node that is too deep for it
has no line, and the dump stops there with the lines before it written.

`writeText` writes the lines from a list of pending nodes; `writeAt` does so by recursion.
-/
import SyntaxTree.Decimal.Layout
import SyntaxTree.Tree.Decode

namespace SyntaxTree

/-! ## 1. Values -/

/-- Doubles are positional from 0.0001 up to 10^16, and a tie goes up. -/
def TextDump.floats : FloatLayout where
  positionalFrom := -4
  positionalBelow := 16
  plusSign := false
  tie := .up
  nan := "NaN"
  infinity := "inf"
  negativeInfinity := "-inf"

/-- The sign of an integer and its magnitude. -/
def Literal.Sign.spell : Literal.Sign → Nat → String
  | .positive, magnitude => Decimal.text magnitude
  | .negative, magnitude => "-" ++ Decimal.text magnitude

/-- A value as one line of text; a leaf has none beside its name. -/
def Scalar.render (header : Header) : Scalar → Option String
  | null => some "null"
  | leaf => none
  | text value => some (Quoted.ofString value)
  | integer sign magnitude => some (sign.spell magnitude)
  | real value => some (TextDump.floats.text value)
  | raw kind bytes =>
    if kind = .positiveInteger ∧ bytes.length = 16 then
      some (Literal.Sign.positive.spell (BigEndian.decode bytes))
    else if kind = .negativeInteger ∧ bytes.length = 16 then
      some (Literal.Sign.negative.spell (BigEndian.decode bytes))
    else some ("<" ++ kind.label ++ " " ++ Hex.ofBytes bytes ++ ">")
  | unknown bytes =>
    some ("<type " ++ Decimal.text header.typeCode.toNat ++ " " ++ Hex.ofBytes bytes ++ ">")

/-! ## 2. Lines -/

/-- A text with blanks in front, at least `width` characters. -/
def alignRight (width : Nat) (s : String) : String :=
  String.ofList (List.replicate (width - s.length) ' ') ++ s

namespace Tree

/-- The widest run of blanks in front of a name. -/
def maxIndent : Nat := 65535

/-- A node too deep for a line of its own. -/
structure TooWide where
  deriving DecidableEq, Repr

/-- The words for a node that is too deep. -/
def TooWide.message (_ : TooWide) : String := "Formatting argument out of range"

/-- The value of a node that has one. -/
def render : Tree → Option String
  | scalar header value => value.render header
  | branch _ _ => none

/-- The blanks in front of a name at a level, two for each. -/
def indent (level : Nat) : Except TooWide String :=
  if maxIndent < 2 * level then .error {}
  else .ok (String.ofList (List.replicate (2 * level) ' '))

/-- The line of one node. -/
def line (tree : Tree) (level : Nat) : Except TooWide String := do
  let header := tree.header
  let blanks ← indent level
  let start :=
    alignRight 7 header.position.text
      ++ " (" ++ alignRight 6 (Decimal.text header.size.toNat) ++ ") "
      ++ blanks ++ header.name.text
  match tree.render with
  | none => return start ++ "\n"
  | some value => return start ++ " " ++ value ++ "\n"

/-! ## 3. Dumps -/

/-- Adds the line of one node to an output, or nothing if there is no such line. -/
def writeLine (tree : Tree) (level : Nat) : ExceptT TooWide (StateM String) Unit :=
  match tree.line level with
  | .error fault => throw fault
  | .ok text => modify (· ++ text)

/-- Writes the pending nodes and everything below them. -/
def writePending : List (Tree × Nat) → ExceptT TooWide (StateM String) Unit
  | [] => pure ()
  | (tree, level) :: rest => do
    tree.writeLine level
    writePending (tree.childrenAt level ++ rest)
termination_by pending => pendingCount pending
decreasing_by exact pendingCount_childrenAt_append tree level rest

mutual

/-- Writes the line of a node at a level, and then its children one level deeper. -/
def writeAt (level : Nat) : Tree → ExceptT TooWide (StateM String) Unit
  | scalar header value => (scalar header value).writeLine level
  | branch header children => do
    (branch header children).writeLine level
    writeAllAt (level + 1) children

/-- Writes several trees at one level. -/
def writeAllAt (level : Nat) : List Tree → ExceptT TooWide (StateM String) Unit
  | [] => pure ()
  | tree :: rest => do
    writeAt level tree
    writeAllAt level rest

end

/-- Adds the text of a tree to an output.  What was written before a failure stays written. -/
def writeText (tree : Tree) : ExceptT TooWide (StateM String) Unit := writePending [(tree, 0)]

/-- The text of a tree that is not too deep. -/
def dump (tree : Tree) : Except TooWide String :=
  let (result, output) := tree.writeText.run.run ""
  result.map fun _ => output

end Tree
end SyntaxTree
