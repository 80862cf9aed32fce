/-
# Sessions

A session is a builder together with named slots for the values it has made.  An action
drives the builder; the values it consumes are taken out of their slots, so every value is
used at most once, and the value it makes may be put into a slot.

Runs of a session are the runs of a builder: any sequence of actions, of which some may fail
without ending the session.
-/
import SyntaxTree.Builder
import SyntaxTree.Slots

namespace SyntaxTree

/-! ## 1. Actions and answers -/

/-- The literals that have a name of their own. -/
inductive UsualLiteral where
  | integer
  | real
  | string
  | rawString
  | regex
  | identifier
  | assembly
  | comment
  deriving DecidableEq, Repr

/-- The literal of a text under its usual name. -/
def Builder.usual (builder : Builder) : UsualLiteral → List UInt8 → Outcome Error Value
  | .integer => builder.integer
  | .real => builder.real
  | .string => builder.string
  | .rawString => builder.rawString
  | .regex => builder.regex
  | .identifier => builder.identifier
  | .assembly => builder.assembly
  | .comment => builder.comment

/-- Something to do with a builder.  Slots are given by name; none means a pass. -/
inductive Action where
  | advance (text : List UInt8)
  | reposition (directive : String)
  | setInput (file : String)
  | intern (file : String)
  | count (text : List UInt8)
  | pass
  | fileNames
  | null
  | leaf (name : Tag)
  | text (name : Tag) (text : List UInt8)
  | escapedText (name : Tag) (text : List UInt8) (rawness : Rawness)
  | integer (name : Tag) (sign : Literal.Sign) (digits : List UInt8) (base : Nat)
  | real (name : Tag) (text : List UInt8)
  | usual (literal : UsualLiteral) (text : List UInt8)
  | branch (name : Tag) (children : List (Option String))
  | list (children : List (Option String))
  | wrap (slot : Option String) (name : Tag) (times : Nat)
  | document (slot : Option String)
  | write (slot : Option String)

/-- What an action brings. -/
inductive Answer where
  | done
  /-- Where a token started and ended. -/
  | span (start stop : Position)
  /-- The index of a file. -/
  | index (index : UInt32)
  | value (value : Value)
  /-- The bytes of a finished tree. -/
  | written (bytes : List UInt8)

/-- The value in an answer that has one. -/
def Answer.value? : Answer → Option Value
  | .value v => some v
  | _ => none

/-! ## 2. The session -/

/-- A builder and the values in its slots. -/
structure Session where
  builder : Builder
  slots : Slots Value

namespace Session

/-- A session with a new builder and empty slots. -/
def ofBuilder (builder : Builder) : Session := ⟨builder, .empty⟩

/-- The value in a slot; an empty slot holds a pass. -/
def get (session : Session) (slot : Option String) : Value := session.slots.get .pass slot

/-- The session without the value in a slot. -/
def clear (session : Session) (slot : Option String) : Session :=
  { session with slots := session.slots.clear slot }

/-- The session with a value in a slot. -/
def store (session : Session) (value : Value) (slot : Option String) : Session :=
  { session with slots := session.slots.store value slot }

/-- Takes values out of slots, from left to right. -/
def takeAll (session : Session) (slots : List (Option String)) : List Value × Session :=
  let (values, rest) := session.slots.takeAll .pass slots
  (values, { session with slots := rest })

/-! ## 3. Performing actions -/

/-- Puts a value into branches, one inside the other. -/
def nest (builder : Builder) (name : Tag) : Nat → Value → Outcome Error Value
  | 0, value => .ok value
  | times + 1, value => do
    let wrapped ← builder.branch name [value]
    nest builder name times wrapped

/-- The session with another tracker. -/
def withTracker (session : Session) (tracker : Tracker) : Session :=
  { session with builder := { session.builder with tracker } }

/-- An action that changes the tracker; a failure leaves the session as it was. -/
def moving (session : Session) (outcome : Outcome Error (Answer × Tracker)) :
    Outcome Error Answer × Session :=
  match outcome.result with
  | .ok (answer, tracker) => (⟨outcome.notices, .ok answer⟩, session.withTracker tracker)
  | .error cause => (⟨outcome.notices, .error cause⟩, session)

/-- An action that makes a value. -/
def making (session : Session) (outcome : Outcome Error Value) : Outcome Error Answer × Session :=
  (do let value ← outcome; return .value value, session)

/-- Performs an action.  Slots whose values it takes are empty afterwards, even if it
fails. -/
def perform (session : Session) (action : Action) : Outcome Error Answer × Session :=
  let builder := session.builder
  let tracker := builder.tracker
  match action with
  | .advance text =>
    let moved := tracker.advance text
    session.moving (.ok (.span moved.previousPosition moved.currentPosition, moved))
  | .reposition directive =>
    session.moving do
      let moved ← tracker.reposition directive
      return (.done, moved)
  | .setInput file =>
    session.moving do
      let (index, moved) ← tracker.setInput file
      return (.index index, moved)
  | .intern file =>
    session.moving do
      let (index, moved) ← tracker.intern file
      return (.index index, moved)
  | .count text =>
    let moved := builder.advance text
    session.moving (.ok (.value moved.lastToken, moved.tracker))
  | .pass => session.making (.ok .pass)
  | .fileNames => session.making (.ok (.node builder.fileNames))
  | .null => session.making builder.null
  | .leaf name => session.making (builder.leaf name)
  | .text name text => session.making (builder.text name text)
  | .escapedText name text rawness => session.making (builder.escapedText name text rawness)
  | .integer name sign digits base => session.making (builder.integerNode name sign digits base)
  | .real name text => session.making (builder.realNode name text)
  | .usual literal text => session.making (builder.usual literal text)
  | .branch name children =>
    let (values, session) := session.takeAll children
    session.making (builder.branch name values)
  | .list children =>
    let (values, session) := session.takeAll children
    session.making (builder.list values)
  | .wrap slot name times =>
    (session.clear slot).making (nest builder name times (session.get slot))
  | .document slot =>
    (session.clear slot).making do
      let node ← builder.document (session.get slot)
      return .node node
  | .write slot =>
    (do let bytes ← .ofExcept (Builder.write (session.get slot)); return .written bytes,
      session.clear slot)

/-- Performs an action and puts the value it makes into a slot, if one is named. -/
def performInto (session : Session) (action : Action) (slot : Option String) :
    Outcome Error Answer × Session :=
  let (outcome, session) := session.perform action
  match outcome.result with
  | .ok (.value value) => (outcome, session.store value slot)
  | _ => (outcome, session)

/-- The session after a sequence of actions. -/
def run (session : Session) : List (Action × Option String) → Session
  | [] => session
  | (action, slot) :: rest => (session.performInto action slot).2.run rest

end Session
end SyntaxTree
