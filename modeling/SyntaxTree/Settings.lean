/-
# Settings

What a grammar may choose about the trees it builds: the distance of tab stops, the number
of file names that are recorded, and the name of the document node.
-/
namespace SyntaxTree

/-- The choices for building one tree. -/
structure Settings where
  /-- Columns between tab stops. -/
  tabWidth : UInt32
  /-- The largest number of file names. -/
  fileCapacity : UInt64
  /-- The name of the node around the whole tree. -/
  documentName : String
  deriving DecidableEq, Repr

namespace Settings

/-- The settings of a grammar that chooses nothing. -/
def standard : Settings where
  tabWidth := 8
  fileCapacity := 65536
  documentName := "yyast"

instance : Inhabited Settings := ⟨standard⟩

end Settings
end SyntaxTree
