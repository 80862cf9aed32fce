/-
# The file table

File names get indices in the order in which they are first seen.  The table only grows;
when it has reached its capacity, a new name gets the index that means "no room" and leaves
the table as it is.  The capacity never reaches the two numbers with a meaning of their own.
-/
import Std.Data.HashMap
import SyntaxTree.Notice

namespace SyntaxTree

/-- The names seen so far, by index, and the index of each name. -/
structure FileTable where
  names : Array String
  indices : Std.HashMap String UInt32
  capacity : Nat

namespace FileTable

/-- The empty table for at most `capacity` names. -/
def ofCapacity (capacity : Nat) : FileTable :=
  ⟨#[], ∅, min capacity Position.tableFull.toNat⟩

/-- The number of names. -/
def size (table : FileTable) : Nat := table.names.size

/-- Whether there is no name yet. -/
def isEmpty (table : FileTable) : Bool := table.size == 0

/-- Whether there is no room for another name. -/
def isFull (table : FileTable) : Bool := table.capacity ≤ table.size

/-- The index of a name that has one. -/
def index? (table : FileTable) (name : String) : Option UInt32 := table.indices[name]?

/-- The name at an index. -/
def get? (table : FileTable) (index : UInt32) : Option String := table.names[index.toNat]?

/-- The names by index. -/
def toList (table : FileTable) : List String := table.names.toList

/-- The index of a name, which is entered if it is new and there is room. -/
def intern (table : FileTable) (name : String) : UInt32 × FileTable :=
  match table.index? name with
  | some index => (index, table)
  | none =>
    if table.isFull then (Position.tableFull, table)
    else
      let index := UInt32.ofNat table.size
      (index,
        { table with
          names := table.names.push name
          indices := table.indices.insert name index })

/-- What interning a name gives notice of: a new name that finds no room. -/
def noticesFor (table : FileTable) (name : String) : List Notice :=
  match table.index? name with
  | some _ => []
  | none => if table.isFull then [.tableFull table.capacity name] else []

end FileTable
end SyntaxTree
