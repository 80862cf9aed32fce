/-
# Command line arguments

Arguments are read from left to right.  An option is a letter behind one dash or a word behind
two.  Letters may be put together; an option with a value takes the rest of its argument, or
the next argument if that is no option itself.  All other arguments are operands, and behind
two dashes everything is.  A single dash is an operand.

An option that is still waiting for its value is settled before anything else is taken in, so
of several faults the one further left is reported, except that an argument nobody knows is
reported at once.
-/
import SyntaxTree.Notice

namespace SyntaxTree

/-! ## 1. Options -/

/-- How an option is written and used. -/
structure OptionShape where
  name : String
  letter : Option Char
  takesValue : Bool
  repeatable : Bool
  deriving DecidableEq, Repr

/-- What is wrong with arguments. -/
inductive ArgumentError where
  /-- The operand is missing. -/
  | missingOperand
  /-- An option that does not exist, or an operand too many. -/
  | unknownArgument
  /-- A value that is missing, empty or not allowed. -/
  | invalidValue
  /-- An option that comes twice, or together with one it excludes. -/
  | conflict
  /-- A value for an option that takes none. -/
  | unwantedValue
  /-- Help is wanted. -/
  | help
  deriving DecidableEq, Repr

/-- The option that asks for help. -/
def OptionShape.help : OptionShape := ⟨"help", some 'h', false, false⟩

/-- The option for more notices. -/
def OptionShape.verbose : OptionShape := ⟨"verbose", some 'v', false, true⟩

/-- The option for less notices. -/
def OptionShape.quiet : OptionShape := ⟨"quiet", some 'q', false, true⟩

/-- The arguments as taken in: the uses of options, in order, with their values, and the
operand. -/
structure Arguments where
  uses : List (String × String)
  operand : Option String
  deriving DecidableEq, Repr

namespace Arguments

/-- How often an option was used. -/
def count (arguments : Arguments) (name : String) : Nat :=
  (arguments.uses.filter fun entry => entry.1 == name).length

/-- The value of an option that was used. -/
def value? (arguments : Arguments) (name : String) : Option String :=
  arguments.uses.lookup name

/-- The level that the options for more and for less notices ask for. -/
def level (arguments : Arguments) : Level :=
  .ofRank (Level.warn.rank + arguments.count "verbose" - arguments.count "quiet")

/-! ## 2. Reading -/

/-- Something that has been read and not yet taken in. -/
inductive Pending where
  | nothing
  /-- An option that waits for its value. -/
  | waiting (option : OptionShape)
  /-- An option with its value. -/
  | valued (option : OptionShape) (value : String)
  | operand (value : String)

/-- The reader between two arguments. -/
structure State where
  arguments : Arguments
  pending : Pending
  /-- Whether everything is an operand from now on. -/
  trailing : Bool

/-- The rules of one command. -/
structure Grammar where
  options : List OptionShape
  /-- Which values an option allows. -/
  allows : OptionShape → String → Bool

/-- Takes in the use of an option. -/
def use (grammar : Grammar) (arguments : Arguments) (option : OptionShape) (value : String) :
    Except ArgumentError Arguments :=
  if option = .help then .error .help
  else if !option.repeatable && 0 < arguments.count option.name then .error .conflict
  else if option.takesValue && !grammar.allows option value then .error .invalidValue
  else .ok { arguments with uses := arguments.uses ++ [(option.name, value)] }

/-- Takes in what is pending. -/
def settle (grammar : Grammar) (state : State) : Except ArgumentError State := do
  match state.pending with
  | .nothing => return state
  | .waiting _ => .error .invalidValue
  | .valued option value =>
    let arguments ← use grammar state.arguments option value
    return { state with arguments, pending := .nothing }
  | .operand value =>
    if value.isEmpty then .error .invalidValue
    else
      return { state with
        arguments := { state.arguments with operand := some value }
        pending := .nothing }

/-- Settles what is pending and then takes in an option. -/
def useNow (grammar : Grammar) (state : State) (option : OptionShape) (value : String) :
    Except ArgumentError State := do
  let state ← settle grammar state
  let arguments ← use grammar state.arguments option value
  return { state with arguments }

/-- Settles what is pending and then waits for the value of an option. -/
def await (grammar : Grammar) (state : State) (option : OptionShape) :
    Except ArgumentError State := do
  let state ← settle grammar state
  return { state with pending := .waiting option }

/-- An option of several letters behind two dashes, with its value if it has one. -/
def long (grammar : Grammar) (state : State) (name : String) (value : Option String) :
    Except ArgumentError State :=
  match grammar.options.find? fun option => option.name == name, value with
  | none, _ => .error .unknownArgument
  | some option, none =>
    if option.takesValue then await grammar state option else useNow grammar state option ""
  | some option, some value =>
    if option.takesValue then useNow grammar state option value else .error .unwantedValue

/-- Options of one letter behind one dash. -/
def letters (grammar : Grammar) (state : State) : List Char → Except ArgumentError State
  | [] => .ok state
  | letter :: rest =>
    match grammar.options.find? fun option => option.letter == some letter with
    | none => .error .unknownArgument
    | some option =>
      if option.takesValue then
        match rest with
        | [] => await grammar state option
        | '=' :: value => useNow grammar state option (String.ofList value)
        | value => useNow grammar state option (String.ofList value)
      else
        match useNow grammar state option "" with
        | .error cause => .error cause
        | .ok state => letters grammar state rest

/-- An argument that is no option: a value that is waited for, or an operand. -/
def plain (grammar : Grammar) (state : State) (argument : String) : Except ArgumentError State :=
  match state.trailing, state.pending with
  | false, .waiting option => .ok { state with pending := .valued option argument }
  | _, pending =>
    let taken :=
      match pending with
      | .operand _ => true
      | _ => state.arguments.operand.isSome
    if taken then .error .unknownArgument
    else do
      let state ← settle grammar state
      return { state with pending := .operand argument }

/-- One argument. -/
def step (grammar : Grammar) (state : State) (argument : String) : Except ArgumentError State :=
  if state.trailing then plain grammar state argument
  else
    match argument.toList with
    | ['-', '-'] => .ok { state with trailing := true }
    | '-' :: '-' :: word =>
      let name := String.ofList (word.takeWhile (· != '='))
      match word.dropWhile (· != '=') with
      | [] => long grammar state name none
      | _ :: value => long grammar state name (some (String.ofList value))
    | '-' :: first :: rest => letters grammar state (first :: rest)
    | _ => plain grammar state argument

/-- Reads all arguments.  More and less notices exclude each other, and the operand must be
there. -/
def parse (grammar : Grammar) (list : List String) : Except ArgumentError Arguments := do
  let state ← list.foldlM (step grammar) ⟨⟨[], none⟩, .nothing, false⟩
  let state ← settle grammar state
  let arguments := state.arguments
  if 0 < arguments.count "verbose" ∧ 0 < arguments.count "quiet" then .error .conflict
  else if arguments.operand.isNone then .error .missingOperand
  else return arguments

end Arguments
end SyntaxTree
