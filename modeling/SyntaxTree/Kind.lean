/-
# Kinds of nodes

The last byte of a header says what the data of the node is.  Two kinds exist only while a
tree is being built: a list, whose children are spliced into whatever it is merged into, and
a count, the coordinates of a token that has not become a literal yet.
-/
namespace SyntaxTree

/-- What the data of a node is. -/
inductive Kind where
  /-- No data. -/
  | null
  /-- No data; the name is the value. -/
  | leaf
  /-- Child nodes. -/
  | branch
  /-- UTF-8 text. -/
  | text
  /-- A big-endian magnitude. -/
  | positiveInteger
  /-- The big-endian magnitude of a negative number. -/
  | negativeInteger
  /-- A big-endian double. -/
  | binaryFloat
  /-- Children to be spliced into the parent. -/
  | list
  /-- Coordinates of a token. -/
  | count
  deriving DecidableEq, Repr

namespace Kind

/-- Every kind. -/
def all : List Kind :=
  [null, leaf, branch, text, positiveInteger, negativeInteger, binaryFloat, list, count]

/-- The header byte of a kind. -/
def code : Kind → UInt8
  | null => 0
  | leaf => 1
  | branch => 2
  | text => 3
  | positiveInteger => 4
  | negativeInteger => 5
  | binaryFloat => 6
  | list => 254
  | count => 255

/-- The kind a header byte stands for. -/
def ofCode? (code : UInt8) : Option Kind := all.find? fun kind => kind.code == code

/-- Whether a kind exists only while building. -/
def isTransient : Kind → Bool
  | list => true
  | count => true
  | _ => false

/-- The kind in words. -/
def label : Kind → String
  | null => "null"
  | leaf => "leaf"
  | branch => "branch"
  | text => "text"
  | positiveInteger => "positive integer"
  | negativeInteger => "negative integer"
  | binaryFloat => "binary float"
  | list => "list"
  | count => "count"

/-- The kind as one lower-case word, as JSON spells it. -/
def key : Kind → String
  | null => "null"
  | leaf => "leaf"
  | branch => "branch"
  | text => "text"
  | positiveInteger => "positive_integer"
  | negativeInteger => "negative_integer"
  | binaryFloat => "binary_float"
  | list => "list"
  | count => "count"

/-- The kind as a constructor name, as descriptions of values spell it. -/
def constructorName : Kind → String
  | null => "Null"
  | leaf => "Leaf"
  | branch => "Branch"
  | text => "Text"
  | positiveInteger => "PositiveInteger"
  | negativeInteger => "NegativeInteger"
  | binaryFloat => "BinaryFloat"
  | list => "List"
  | count => "Count"

end Kind
end SyntaxTree
