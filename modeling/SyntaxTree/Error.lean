/-
# Errors

Everything that can go wrong while a tree is built, written or read, as causes; the words
are in the `message` functions.  Faults of the input carry the position that had been
reached.  A `Misuse` can only come from a grammar that handles values wrongly, and so can a
base that no alphabet covers: both count as internal.
-/
import SyntaxTree.Kind
import SyntaxTree.Literal.Error
import SyntaxTree.Position
import SyntaxTree.Tag

namespace SyntaxTree

/-! ## 1. Causes -/

/-- The broad class of an error. -/
inductive ErrorKind where
  | malformedLiteral
  | numericOverflow
  | numericUnderflow
  | malformedEscape
  | malformedDirective
  | internal
  | bufferTooShort
  | sizeMismatch
  | storage
  deriving DecidableEq, Repr

/-- Bytes that are not a well-formed node. -/
inductive DecodeError where
  /-- Fewer bytes than a header. -/
  | tooShort (available : Nat)
  /-- The declared size runs past the end. -/
  | sizeMismatch (declared available : Nat)
  /-- The declared size does not cover the header. -/
  | sizeTooSmall (declared : Nat)
  deriving DecidableEq, Repr

/-- A value handled in a way that only a wrong grammar can bring about. -/
inductive Misuse where
  /-- The coordinates of a token were merged. -/
  | countMerged (start : Position) (into : Tag)
  /-- A pass where a node is needed. -/
  | passForNode
  /-- The coordinates of a token where a node is needed. -/
  | countForNode (start : Position)
  /-- A node that exists only while building was to be written. -/
  | notWritable (kind : Kind) (name : Tag)
  deriving DecidableEq

/-- A failure of the file store. -/
inductive StorageError where
  /-- There is nothing at the path. -/
  | missing
  /-- A file stands where the path needs a directory. -/
  | notDirectory
  /-- A directory stands where the path needs a file. -/
  | isDirectory
  /-- The file is not UTF-8. -/
  | notText
  /-- Anything else, in the words of the system. -/
  | other (text : String)
  deriving DecidableEq, Repr

/-- An error of the library. -/
inductive Error where
  /-- A token could not become a literal. -/
  | literal (position : Position) (cause : LiteralError)
  /-- A line directive could not be read. -/
  | directive (position : Position) (text : String)
  /-- The grammar handled a value wrongly. -/
  | misuse (cause : Misuse)
  /-- Bytes are not a tree. -/
  | decode (cause : DecodeError)
  /-- The tree could not be stored. -/
  | storage (cause : StorageError)
  deriving DecidableEq

/-! ## 2. Classes -/

/-- The class of a fault in a literal. -/
def LiteralError.kind : LiteralError → ErrorKind
  | notAnInteger _ => .malformedLiteral
  | notAReal _ => .malformedLiteral
  | integerOverflow _ => .numericOverflow
  | realOverflow _ => .numericOverflow
  | realUnderflow _ => .numericUnderflow
  | badHexDigit _ => .malformedEscape
  | truncatedEscape _ => .malformedEscape
  | badCodePoint _ => .malformedEscape
  | unsupportedBase _ => .internal

/-- The class of ill-formed bytes. -/
def DecodeError.kind : DecodeError → ErrorKind
  | tooShort _ => .bufferTooShort
  | sizeMismatch _ _ => .sizeMismatch
  | sizeTooSmall _ => .sizeMismatch

namespace Error

/-- The class of an error. -/
def kind : Error → ErrorKind
  | literal _ cause => cause.kind
  | directive _ _ => .malformedDirective
  | misuse _ => .internal
  | decode cause => cause.kind
  | storage _ => .storage

/-- Where the error was found, if it is a fault of the input. -/
def position? : Error → Option Position
  | literal position _ => some position
  | directive position _ => some position
  | _ => none

/-- Whether the grammar is at fault rather than the input. -/
def isInternal (error : Error) : Bool := error.kind == .internal

end Error

/-! ## 3. Words -/

/-- The words for ill-formed bytes. -/
def DecodeError.message : DecodeError → String
  | tooShort available =>
    "buffer of " ++ Decimal.text available ++ " bytes is too short for a node header"
  | sizeMismatch declared available =>
    "node declares " ++ Decimal.text declared ++ " bytes but only " ++ Decimal.text available
      ++ " are available"
  | sizeTooSmall declared =>
    "node declares " ++ Decimal.text declared ++ " bytes, less than its own header"

/-- The words for a misuse. -/
def Misuse.message : Misuse → String
  | countMerged start into =>
    "token at " ++ start.text ++ " was merged into '" ++ into.text
      ++ "' before becoming a literal"
  | passForNode => "expected a node but got a pass value"
  | countForNode start =>
    "expected a node but got token coordinates from line " ++ start.text
  | notWritable kind name => kind.label ++ " node '" ++ name.text ++ "' can not be written"

/-- The words for a failure of the file store. -/
def StorageError.message : StorageError → String
  | missing => "No such file or directory (os error 2)"
  | notDirectory => "Not a directory (os error 20)"
  | isDirectory => "Is a directory (os error 21)"
  | notText => "stream did not contain valid UTF-8"
  | other text => text

namespace Error

/-- The words for an error. -/
def message : Error → String
  | literal position cause => "line " ++ position.text ++ ", " ++ cause.message
  | directive position text =>
    "line " ++ position.text ++ ", could not parse line directive '" ++ text ++ "'"
  | misuse cause => "internal consistency error: " ++ cause.message
  | decode cause => cause.message
  | storage cause => "I/O error: " ++ cause.message

/-- The words for an error and for each of its causes in turn.  A fault of a literal and a
failure of the store are causes of their own and are said again. -/
def fullMessage : Error → String
  | literal position cause => (literal position cause).message ++ ": " ++ cause.message
  | storage cause => (storage cause).message ++ ": " ++ cause.message
  | error => error.message

end Error
end SyntaxTree
