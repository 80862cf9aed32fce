/-
# Trees as JSON

Each node is an object of its name, position, size, type code and payload; the payload is
tagged with its kind.  Trees of more than 512 levels are refused before anything is written.
-/
import SyntaxTree.Json.Basic
import SyntaxTree.Tree.Decode

namespace SyntaxTree

/-! ## 1. Parts -/

/-- The name as a string. -/
def Tag.toJson (tag : Tag) : Json := .string tag.text

/-- The three numbers by name. -/
def Position.toJson (p : Position) : Json :=
  .object [("file", .nat p.file.toNat), ("line", .nat p.line.toNat),
    ("column", .nat p.column.toNat)]

/-- The kind as a string. -/
def Kind.toJson (kind : Kind) : Json := .string kind.key

/-- An array of numbers. -/
def Json.ofBytes (bytes : List UInt8) : Json := .array (bytes.map fun b => .nat b.toNat)

/-- A payload tagged with its kind. -/
def JsonDump.payload (kind : String) (value : Json) : Json :=
  .object [("kind", .string kind), ("value", value)]

/-- The payload of a scalar. -/
def Scalar.toJson (header : Header) : Scalar → Json
  | null => .object [("kind", .string "null")]
  | leaf => .object [("kind", .string "leaf")]
  | text value => JsonDump.payload "text" (.string value)
  | integer sign magnitude => JsonDump.payload sign.kind.key (.nat magnitude)
  | real value => JsonDump.payload "binary_float" (.number (Json.floats.text value))
  | raw kind bytes =>
    JsonDump.payload "raw" (.object [("node_type", kind.toJson), ("bytes", .ofBytes bytes)])
  | unknown bytes =>
    JsonDump.payload "unknown"
      (.object [("type_code", .nat header.typeCode.toNat), ("bytes", .ofBytes bytes)])

/-! ## 2. Trees -/

/-- The object of a node with a given payload. -/
def Header.toJson (header : Header) (payload : Json) : Json :=
  .object [("name", header.name.toJson), ("position", header.position.toJson),
    ("size", .nat header.size.toNat), ("type_code", .nat header.typeCode.toNat),
    ("payload", payload)]

namespace Tree

mutual

/-- The object of a tree. -/
def toJson : Tree → Json
  | scalar header value => header.toJson (value.toJson header)
  | branch header children =>
    header.toJson (JsonDump.payload "branch" (.array (toJsons children)))

/-- The objects of several trees. -/
def toJsons : List Tree → List Json
  | [] => []
  | tree :: rest => toJson tree :: toJsons rest

end

/-- The deepest tree that is written as JSON. -/
def maxJsonDepth : Nat := 512

/-- A tree too deep for JSON, by its depth. -/
structure TooDeep where
  depth : Nat
  deriving DecidableEq, Repr

/-- The words for a tree that is too deep. -/
def TooDeep.message (fault : TooDeep) : String :=
  "tree is " ++ Decimal.text fault.depth ++ " levels deep, JSON output is limited to "
    ++ Decimal.text maxJsonDepth

/-- Adds a tree as JSON to an output, and a line feed.  The depth is looked at first, and what
was written before a failure stays written. -/
def writeJson (tree : Tree) : ExceptT TooDeep (StateM String) Unit := do
  if maxJsonDepth < tree.depth then throw ⟨tree.depth⟩
  modify (· ++ tree.toJson.pretty)
  modify (· ++ "\n")

/-- The JSON text of a tree that is not too deep. -/
def dumpJson (tree : Tree) : Except TooDeep String :=
  let (result, output) := tree.writeJson.run.run ""
  result.map fun _ => output

end Tree
end SyntaxTree
