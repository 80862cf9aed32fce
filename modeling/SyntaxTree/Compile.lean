/-
# Compiling

A grammar turns the bytes of a source into a value, driving a builder.  `compile` runs it on
a named source and wraps the result in the document node.
-/
import SyntaxTree.Builder

namespace SyntaxTree

/-- A parser that drives a builder. -/
abbrev Grammar := List UInt8 → Builder → Outcome Error (Value × Builder)

/-- The document of a source. -/
def Grammar.compile (grammar : Grammar) (source : List UInt8) (inputName : String)
    (settings : Settings) : Outcome Error Node := do
  let builder ← Builder.forInput settings inputName
  let (root, builder) ← grammar source builder
  builder.document root

end SyntaxTree
