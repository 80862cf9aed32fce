/-
# The builder

A grammar drives a builder: it feeds every token to the tracker, turns tokens into literal
nodes, and merges nodes into branches and lists.  Literals are stamped with the start of the
last token.  A merged node starts where the earliest of its parts does, or at the cursor if
no part has a known file.

A merge puts its children behind a new header.  A list contributes its own children, a pass
nothing, and the coordinates of a token are a misuse.  The document is the file names
followed by the root.
-/
import SyntaxTree.Literal.Escape
import SyntaxTree.Literal.Integer
import SyntaxTree.Literal.Real
import SyntaxTree.Node
import SyntaxTree.Tracker

namespace SyntaxTree

/-- The tracker of one input and the settings for its tree. -/
structure Builder where
  tracker : Tracker
  settings : Settings

namespace Builder

/-! ## 1. Input -/

/-- A builder for an input without a name. -/
def ofSettings (settings : Settings) : Builder := ⟨.ofSettings settings, settings⟩

/-- A builder for a named input. -/
def forInput {ε : Type} (settings : Settings) (name : String) : Outcome ε Builder := do
  let (_, tracker) ← (Tracker.ofSettings settings).setInput name
  return ⟨tracker, settings⟩

/-- Reads a token. -/
def advance (builder : Builder) (text : List UInt8) : Builder :=
  { builder with tracker := builder.tracker.advance text }

/-- Where the last token started and where it ended, as a value. -/
def lastToken (builder : Builder) : Value :=
  .count builder.tracker.previousPosition builder.tracker.currentPosition

/-- Follows a line directive. -/
def reposition (builder : Builder) (directive : String) : Outcome Error Builder := do
  let tracker ← builder.tracker.reposition directive
  return { builder with tracker }

/-! ## 2. Literals -/

/-- A fault in a literal, found where the cursor is. -/
def literalResult {α : Type} (builder : Builder) (result : Except LiteralError α) :
    Outcome Error α :=
  match result with
  | .ok a => .ok a
  | .error cause => .fail (.literal builder.tracker.currentPosition cause)

/-- A literal node at the start of the last token. -/
def literal (builder : Builder) (name : Tag) (kind : Kind) (data : List UInt8) :
    Outcome Error Value := do
  let position := builder.tracker.previousPosition
  .note (.literal kind name position)
  return .node (.assemble name kind position data)

/-- A node without data. -/
def leaf (builder : Builder) (name : Tag) : Outcome Error Value :=
  builder.literal name .leaf []

/-- The null node. -/
def null (builder : Builder) : Outcome Error Value :=
  builder.literal (.ofName "#null") .null []

/-- A text node that holds a text as it is. -/
def text (builder : Builder) (name : Tag) (text : List UInt8) : Outcome Error Value :=
  builder.literal name .text text

/-- A text node that holds a text with its escapes decoded. -/
def escapedText (builder : Builder) (name : Tag) (text : List UInt8) (rawness : Rawness) :
    Outcome Error Value := do
  let decoded ← builder.literalResult (Literal.decodeEscapes rawness text)
  builder.text name decoded

/-- An integer of a sign, from the digits of its magnitude. -/
def integerNode (builder : Builder) (name : Tag) (sign : Literal.Sign) (digits : List UInt8)
    (base : Nat) : Outcome Error Value := do
  let magnitude ← builder.literalResult (Literal.integer base digits)
  builder.literal name sign.kind (Literal.integerPayload magnitude)

/-- A double from decimal text. -/
def realNode (builder : Builder) (name : Tag) (text : List UInt8) : Outcome Error Value := do
  let value ← builder.literalResult (Literal.real text)
  builder.literal name .binaryFloat (Literal.realPayload value)

/-! ## 3. Literals under their usual names -/

/-- An integer with an optional sign and base. -/
def integer (builder : Builder) (text : List UInt8) : Outcome Error Value := do
  let (sign, magnitude) ← builder.literalResult (Literal.signedInteger text)
  builder.literal (.ofName "#int") sign.kind (Literal.integerPayload magnitude)

/-- A real number. -/
def real (builder : Builder) (text : List UInt8) : Outcome Error Value :=
  builder.realNode (.ofName "#flt") text

/-- A string with all escapes decoded. -/
def string (builder : Builder) (text : List UInt8) : Outcome Error Value :=
  builder.escapedText (.ofName "#str") text .cooked

/-- A string with only escaped quotes decoded. -/
def rawString (builder : Builder) (text : List UInt8) : Outcome Error Value :=
  builder.escapedText (.ofName "#str") text .raw

/-- A regular expression. -/
def regex (builder : Builder) (text : List UInt8) : Outcome Error Value :=
  builder.escapedText (.ofName "#re") text .regex

/-- An identifier. -/
def identifier (builder : Builder) (text : List UInt8) : Outcome Error Value :=
  builder.escapedText (.ofName "#id") text .raw

/-- Inline assembly. -/
def assembly (builder : Builder) (text : List UInt8) : Outcome Error Value :=
  builder.escapedText (.ofName "#asm") text .raw

/-- A documentation comment. -/
def comment (builder : Builder) (text : List UInt8) : Outcome Error Value :=
  builder.escapedText (.ofName "#doc") text .raw

/-! ## 4. Merges -/

/-- The nodes among the children of a merge. -/
def parts (into : Tag) : List Value → Except Misuse (List Node)
  | [] => .ok []
  | .pass :: rest => parts into rest
  | .count start _ :: _ => .error (.countMerged start into)
  | .node n :: rest => (parts into rest).map (n :: ·)

/-- Where a merged node starts. -/
def mergedPosition (builder : Builder) (fixed : Option Position) (nodes : List Node) : Position :=
  match fixed, Position.earliest (nodes.map Node.position) with
  | some position, _ => position
  | none, some position => position
  | none, none => builder.tracker.currentPosition

/-- One node around the children, in order. -/
def merge (builder : Builder) (name : Tag) (kind : Kind) (children : List Value)
    (fixed : Option Position) : Outcome Error Node :=
  match parts name children with
  | .error cause => .fail (.misuse cause)
  | .ok nodes => do
    let data := nodes.flatMap Node.contribution
    let position := builder.mergedPosition fixed nodes
    .note (.merged data.length kind name position)
    return .assemble name kind position data

/-- A branch that holds the children. -/
def branch (builder : Builder) (name : Tag) (children : List Value) : Outcome Error Value := do
  let node ← builder.merge name .branch children none
  return .node node

/-- A list of the children, to be spliced into whatever it is merged into. -/
def list (builder : Builder) (children : List Value) : Outcome Error Value := do
  let node ← builder.merge (.ofName "#list") .list children none
  return .node node

/-- The node of one file name. -/
def fileNode (name : String) : Node :=
  .assemble (.ofName "#file") .text .unknown (Utf8.ofString name)

/-- The branch of all file names. -/
def fileNames (builder : Builder) : Node :=
  .assemble (.ofName "files") .branch .unknown
    (builder.tracker.files.toList.flatMap fun name => (fileNode name).bytes)

/-- The document: the file names and the root, at no position. -/
def document (builder : Builder) (root : Value) : Outcome Error Node :=
  builder.merge (.ofName builder.settings.documentName) .branch
    [.node builder.fileNames, root] (some .unknown)

/-- The bytes of a finished tree. -/
def write (root : Value) : Except Error (List UInt8) :=
  match root.toNode with
  | .error cause => .error (.misuse cause)
  | .ok node =>
    match node.write with
    | .error cause => .error (.misuse cause)
    | .ok bytes => .ok bytes

end Builder
end SyntaxTree
