/-
# Trees

A tree read back from its bytes: each node has its header, and either a scalar or children.

`depth` walks the tree with a list of pending nodes, so that it does not use the stack on
deep trees; `height` is the same number by recursion.
-/
import SyntaxTree.Decimal.Binary64
import SyntaxTree.Header
import SyntaxTree.Literal.Integer

namespace SyntaxTree

/-! ## 1. The types -/

/-- The data of a node without children. -/
inductive Scalar where
  | null
  | leaf
  /-- A text without its padding. -/
  | text (value : String)
  /-- An integer whose magnitude fits in 64 bits. -/
  | integer (sign : Literal.Sign) (magnitude : Nat)
  | real (value : Binary64)
  /-- A number whose data is not eight bytes, padding included. -/
  | raw (kind : Kind) (bytes : List UInt8)
  /-- A node of a type that does not belong in a tree, padding included. -/
  | unknown (bytes : List UInt8)
  deriving DecidableEq

/-- A decoded node. -/
inductive Tree where
  | scalar (header : Header) (value : Scalar)
  | branch (header : Header) (children : List Tree)

namespace Tree

/-- The header of the root. -/
def header : Tree → Header
  | scalar header _ => header
  | branch header _ => header

/-- The children of the root. -/
def children : Tree → List Tree
  | scalar _ _ => []
  | branch _ children => children

/-- The first child of a name. -/
def child? (tree : Tree) (name : String) : Option Tree :=
  tree.children.find? fun child => child.header.name == Tag.ofName name

/-! ## 2. Counting nodes -/

mutual

/-- The number of nodes of a tree. -/
def nodeCount : Tree → Nat
  | scalar _ _ => 1
  | branch _ children => nodeCounts children + 1

/-- The number of nodes of several trees. -/
def nodeCounts : List Tree → Nat
  | [] => 0
  | tree :: rest => nodeCount tree + nodeCounts rest

end

theorem nodeCounts_append (ts us : List Tree) :
    nodeCounts (ts ++ us) = nodeCounts ts + nodeCounts us := by
  induction ts with
  | nil => simp [nodeCounts]
  | cons t rest ih =>
    simp only [List.cons_append, nodeCounts, ih]
    omega

theorem nodeCount_eq (tree : Tree) : tree.nodeCount = nodeCounts tree.children + 1 := by
  cases tree <;> simp [nodeCount, nodeCounts, children]

/-! ## 3. Nodes with their levels -/

/-- The children of a node, one level below it. -/
def childrenAt (tree : Tree) (level : Nat) : List (Tree × Nat) :=
  tree.children.map fun child => (child, level + 1)

/-- The number of nodes of all pending trees. -/
def pendingCount (pending : List (Tree × Nat)) : Nat := nodeCounts (pending.map Prod.fst)

theorem map_fst_childrenAt (tree : Tree) (level : Nat) :
    (tree.childrenAt level).map Prod.fst = tree.children := by
  simp [childrenAt, Function.comp_def]

/-- A node is one more than its children. -/
theorem pendingCount_cons (tree : Tree) (level : Nat) (rest : List (Tree × Nat)) :
    pendingCount ((tree, level) :: rest) = pendingCount (tree.childrenAt level ++ rest) + 1 := by
  simp only [pendingCount, List.map_append, List.map_cons, nodeCounts_append, map_fst_childrenAt,
    nodeCounts]
  have := nodeCount_eq tree
  omega

theorem pendingCount_childrenAt_append (tree : Tree) (level : Nat) (rest : List (Tree × Nat)) :
    pendingCount (tree.childrenAt level ++ rest) < pendingCount ((tree, level) :: rest) := by
  rw [pendingCount_cons]
  omega

/-- The pending nodes and everything below them in preorder, each with its level. -/
def walk : List (Tree × Nat) → List (Tree × Nat)
  | [] => []
  | (tree, level) :: rest => (tree, level) :: walk (tree.childrenAt level ++ rest)
termination_by pending => pendingCount pending
decreasing_by exact pendingCount_childrenAt_append tree level rest

/-- The nodes of a tree in preorder, each with its level. -/
def preorder (tree : Tree) : List (Tree × Nat) := walk [(tree, 0)]

/-! ## 4. Depth -/

/-- The deepest level of the pending nodes and everything below them. -/
def deepest : List (Tree × Nat) → Nat → Nat
  | [], found => found
  | (tree, level) :: rest, found => deepest (tree.childrenAt level ++ rest) (max found level)
termination_by pending => pendingCount pending
decreasing_by exact pendingCount_childrenAt_append tree level rest

/-- The number of nodes on the longest way from the root down. -/
def depth (tree : Tree) : Nat := deepest [(tree, 1)] 0

mutual

/-- One more than the largest height of a child. -/
def height : Tree → Nat
  | scalar _ _ => 1
  | branch _ children => heights children + 1

/-- The largest height of several trees. -/
def heights : List Tree → Nat
  | [] => 0
  | tree :: rest => max (height tree) (heights rest)

end

end Tree
end SyntaxTree
