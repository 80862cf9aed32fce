/-
# The dump tool

Prints a saved tree: the dump command on the real file system.
-/
import SyntaxTree.Command.Dump

namespace SyntaxTree

/-- A failure of the real file system. -/
def StorageError.ofIOError : IO.Error → StorageError
  | .noFileOrDirectory .. => .missing
  | .inappropriateType _ code _ => if code = 20 then .notDirectory else .isDirectory
  | error => .other (toString error)

/-- The real file system. -/
def Storage.real : Storage IO where
  read path := do
    try
      return .ok (← IO.FS.readBinFile path).toList
    catch error => return .error (.ofIOError error)
  write path content := do
    try
      IO.FS.writeBinFile path ⟨content.toArray⟩
      return .ok ()
    catch error => return .error (.ofIOError error)

end SyntaxTree

/-- Prints the tree that the arguments name. -/
def main (arguments : List String) : IO UInt32 := do
  let report ← SyntaxTree.Command.dumpReport SyntaxTree.Storage.real arguments
  IO.print report.output
  IO.eprint report.errors
  return UInt32.ofNat report.exit
