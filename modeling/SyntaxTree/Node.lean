/-
# Encoded nodes and values

A node is kept encoded: its name, kind and position, and its data padded to whole words.
Its bytes are the header and the data, so a parent is built by putting the bytes of its
children one after another.

A value is what a grammar passes around: a node, nothing, or the coordinates of a token that
has yet to become a literal.
-/
import SyntaxTree.Bytes.Align
import SyntaxTree.Header

namespace SyntaxTree

/-! ## 1. Nodes -/

/-- An encoded node. -/
structure Node where
  name : Tag
  kind : Kind
  position : Position
  /-- What follows the header, padding included. -/
  data : List UInt8
  deriving DecidableEq

namespace Node

/-- The node around some data, which is padded. -/
def assemble (name : Tag) (kind : Kind) (position : Position) (data : List UInt8) : Node :=
  ⟨name, kind, position, padded data⟩

/-- The number of bytes of the node, header and padding included. -/
def size (node : Node) : Nat := Header.width + node.data.length

/-- The header of the node. -/
def header (node : Node) : Header := .ofKind node.name node.kind node.position node.size

/-- All the bytes of the node. -/
def bytes (node : Node) : List UInt8 := node.header.encode ++ node.data

/-- What the node contributes to the data of a parent: a list its children, any other node
itself. -/
def contribution (node : Node) : List UInt8 :=
  if node.kind = .list then node.data else node.bytes

/-- The bytes of a finished tree.  Nodes that exist only while building can not be
written. -/
def write (node : Node) : Except Misuse (List UInt8) :=
  if node.kind.isTransient then .error (.notWritable node.kind node.name) else .ok node.bytes

end Node

/-! ## 2. Values -/

/-- What a grammar passes around. -/
inductive Value where
  /-- Nothing. -/
  | pass
  /-- The coordinates of a token. -/
  | count (start stop : Position)
  | node (node : Node)
  deriving DecidableEq

namespace Value

/-- Where the value starts; a pass is nowhere. -/
def position : Value → Position
  | pass => .unknown
  | count start _ => start
  | node n => n.position

/-- The kind of the value; a pass has none. -/
def kind? : Value → Option Kind
  | pass => none
  | count _ _ => some .count
  | node n => some n.kind

/-- The number of bytes of a node, and zero for all else. -/
def size : Value → Nat
  | node n => n.size
  | _ => 0

/-- The node, if the value is one. -/
def node? : Value → Option Node
  | node n => some n
  | _ => none

/-- The node, which the value must be. -/
def toNode : Value → Except Misuse Node
  | node n => .ok n
  | pass => .error .passForNode
  | count start _ => .error (.countForNode start)

end Value

/-! ## 3. Descriptions -/

/-- A position with the names of its fields. -/
def Position.describe (p : Position) : String :=
  "Position \x7b file: " ++ Decimal.text p.file.toNat ++ ", line: " ++ Decimal.text p.line.toNat
    ++ ", column: " ++ Decimal.text p.column.toNat ++ " \x7d"

/-- A node with the names of its fields, its size in place of its data. -/
def Node.describe (n : Node) : String :=
  "Node \x7b name: " ++ n.name.quoted ++ ", node_type: " ++ n.kind.constructorName
    ++ ", position: " ++ n.position.describe ++ ", size: " ++ Decimal.text n.size ++ " \x7d"

/-- A value with the names of its fields. -/
def Value.describe : Value → String
  | .pass => "Pass"
  | .count start stop =>
    "Count \x7b start: " ++ start.describe ++ ", end: " ++ stop.describe ++ " \x7d"
  | .node n => "Node(" ++ n.describe ++ ")"

end SyntaxTree
