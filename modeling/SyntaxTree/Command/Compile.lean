/-
# The compile command

A grammar and this command make a compiler: it reads settings and a source, compiles the
source and saves the document, next to the source unless it is told otherwise.

The settings are read first, then the source.  Faults of the grammar end with a status of
their own.
-/
import SyntaxTree.Command.Arguments
import SyntaxTree.Command.Report
import SyntaxTree.Compile
import SyntaxTree.FileStore
import SyntaxTree.Json.Instances
import SyntaxTree.Path
import SyntaxTree.Tree.TextDump

namespace SyntaxTree
namespace Command

/-! ## 1. Arguments -/

/-- What to compile, and how. -/
structure CompileArguments where
  input : String
  output : Option String
  compile : Bool
  settings : Option String
  level : Level
  deriving DecidableEq, Repr

/-- The options of the command. -/
def compileGrammar : Arguments.Grammar where
  options :=
    [⟨"output", some 'o', true, false⟩, ⟨"compile", some 'c', false, false⟩,
      ⟨"config", none, true, false⟩, .verbose, .quiet, .help]
  allows _ value := !value.isEmpty

/-- The arguments of the command. -/
def CompileArguments.parse (list : List String) : Except ArgumentError CompileArguments := do
  let arguments ← Arguments.parse compileGrammar list
  return {
    input := arguments.operand.getD ""
    output := arguments.value? "output"
    compile := 0 < arguments.count "compile"
    settings := arguments.value? "config"
    level := arguments.level }

/-- Where the document of a source goes when nothing is said about it. -/
def defaultOutput (input : String) : String :=
  String.ofList (Path.withExtension input.toList "yyast".toList)

/-! ## 2. Failures -/

/-- Why a tool failed. -/
inductive Failure where
  | unreadable (path : String) (cause : StorageError)
  | badSettings (path : String) (text : List UInt8) (cause : Json.Fault)
  | failed (cause : Error)
  | unwritable (path : String) (cause : Error)
  | undecodable (path : String) (cause : DecodeError)
  | tooDeep (cause : Tree.TooDeep)
  | tooWide (cause : Tree.TooWide)

namespace Failure

/-- The words for a failure, with those of its causes. -/
def message : Failure → String
  | unreadable path cause => "Failed to read " ++ path ++ ": " ++ cause.message
  | badSettings path text cause =>
    "Invalid builder configuration in " ++ path ++ ": " ++ cause.message text
  | failed cause => cause.fullMessage
  | unwritable path cause => "Failed to write " ++ path ++ ": " ++ cause.fullMessage
  | undecodable path cause => "Failed to decode " ++ path ++ ": " ++ cause.message
  | tooDeep cause => cause.message
  | tooWide cause => cause.message

/-- The error of the library behind a failure. -/
def error? : Failure → Option Error
  | failed cause => some cause
  | unwritable _ cause => some cause
  | _ => none

/-- The exit status: 101 if the program itself gave up, 70 if the grammar is at fault, and 1
otherwise. -/
def exit : Failure → Nat
  | tooWide _ => 101
  | failure => if failure.error?.any Error.isInternal then 70 else 1

end Failure

/-! ## 3. Running -/

section

variable {m : Type → Type} [Monad m] (storage : Storage m)

/-- The settings in a file, or the standard ones. -/
def loadSettings : Option String → m (Except Failure Settings)
  | none => return .ok .standard
  | some path => do
    match ← storage.read path with
    | .error cause => return .error (.unreadable path cause)
    | .ok bytes =>
      match Lossy.text? bytes with
      | none => return .error (.unreadable path .notText)
      | some _ =>
        match Settings.ofJson bytes with
        | .ok settings => return .ok settings
        | .error cause => return .error (.badSettings path bytes cause)

/-- Saves a document. -/
def save (path : String) (document : Node) : m (Outcome Failure Unit) := do
  match document.write with
  | .error cause => return .fail (.unwritable path (.misuse cause))
  | .ok bytes =>
    match ← storage.write path bytes with
    | .error cause => return .fail (.unwritable path (.storage cause))
    | .ok () => return .note (.wrote document.size path)

/-- Compiles a source file and says where the document went. -/
def compileFile (grammar : Grammar) (input : String) (output : Option String)
    (settings : Settings) : m (Outcome Failure String) := do
  match ← storage.read input with
  | .error cause => return .fail (.unreadable input cause)
  | .ok source =>
    let compiled := grammar.compile source input settings
    match compiled.result with
    | .error cause => return ⟨compiled.notices, .error (.failed cause)⟩
    | .ok document =>
      let path := output.getD (defaultOutput input)
      let saved ← save storage path document
      return ⟨compiled.notices ++ saved.notices, saved.result.map fun _ => path⟩

/-- Runs the command. -/
def compile (grammar : Grammar) (arguments : CompileArguments) : m (Outcome Failure String) := do
  match ← loadSettings storage arguments.settings with
  | .error failure => return .fail failure
  | .ok settings => compileFile storage grammar arguments.input arguments.output settings

/-- Runs the command from its arguments to its report. -/
def compileReport (grammar : Grammar) (list : List String) : m Report := do
  match CompileArguments.parse list with
  | .error _ => return .usage
  | .ok arguments =>
    let outcome ← compile storage grammar arguments
    match outcome.result with
    | .ok output =>
      let notices := outcome.notices ++ [.compiled arguments.input output]
      return ⟨0, "", Report.noticesText arguments.level notices⟩
    | .error failure =>
      let notices := Report.noticesText arguments.level outcome.notices
      return ⟨failure.exit, "", notices ++ failure.message ++ "\n"⟩

end

end Command
end SyntaxTree
