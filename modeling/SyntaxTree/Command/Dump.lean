/-
# The dump command

Reads a saved tree and prints it as indented text or as JSON.  Bytes behind the root are worth
a notice and otherwise ignored.
-/
import SyntaxTree.Command.Compile
import SyntaxTree.Tree.TextDump

namespace SyntaxTree
namespace Command

/-! ## 1. Arguments -/

/-- How a tree is printed. -/
inductive DumpFormat where
  | text
  | json
  deriving DecidableEq, Repr

/-- The format of a name. -/
def DumpFormat.ofName? (name : String) : Option DumpFormat :=
  if name = "text" then some .text else if name = "json" then some .json else none

/-- Which tree to print, and how. -/
structure DumpArguments where
  file : String
  format : DumpFormat
  level : Level
  deriving DecidableEq, Repr

/-- The options of the command. -/
def dumpGrammar : Arguments.Grammar where
  options := [⟨"format", some 'f', true, false⟩, .verbose, .quiet, .help]
  allows _ value := (DumpFormat.ofName? value).isSome

/-- The arguments of the command. -/
def DumpArguments.parse (list : List String) : Except ArgumentError DumpArguments := do
  let arguments ← Arguments.parse dumpGrammar list
  return {
    file := arguments.operand.getD ""
    format := ((arguments.value? "format").bind DumpFormat.ofName?).getD .text
    level := arguments.level }

/-! ## 2. Running -/

/-- Prints a tree in a format. -/
def DumpFormat.write (tree : Tree) : DumpFormat → ExceptT Failure (StateM String) Unit
  | text => tree.writeText.adapt .tooWide
  | json => tree.writeJson.adapt .tooDeep

/-- The tree in a saved file. -/
def loadTree (path : String) (bytes : List UInt8) : Outcome Failure Tree := do
  let (tree, used) ← (Tree.decode bytes).mapError (.undecodable path)
  if used ≠ bytes.length then .note (.trailingBytes path (bytes.length - used))
  return tree

/-- Runs the command from its arguments to its report.  What was printed before a failure is part
of it. -/
def dumpReport {m : Type → Type} [Monad m] (storage : Storage m) (list : List String) :
    m Report := do
  match DumpArguments.parse list with
  | .error _ => return .usage
  | .ok arguments =>
    match ← storage.read arguments.file with
    | .error cause =>
      return ⟨1, "", (Failure.unreadable arguments.file cause).message ++ "\n"⟩
    | .ok bytes =>
      let outcome := loadTree arguments.file bytes
      let notices := Report.noticesText arguments.level outcome.notices
      match outcome.result with
      | .error failure => return ⟨failure.exit, "", notices ++ failure.message ++ "\n"⟩
      | .ok tree =>
        let (result, output) := (arguments.format.write tree).run.run ""
        match result with
        | .ok () => return ⟨0, output, notices⟩
        | .error failure => return ⟨failure.exit, output, notices ++ failure.message ++ "\n"⟩

end Command
end SyntaxTree
