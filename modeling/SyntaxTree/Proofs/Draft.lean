/-
# Drafts: what a run of a session describes

A session turns actions into encoded values.  A draft performs the same actions and keeps what
they describe instead: a sketch for each value, with outlines for nodes and no byte in it.  It
says in one place what the tree of a run should be:

* a literal is stamped where the last token started and holds what its text spells;
* a branch or a list takes the outlines of its children in order, where a list stands for its
  own items and a pass for nothing, and is stamped at the earliest child, or at the cursor;
* the document is the branch of the file names and the root, at no position;
* a child that is the coordinates of a token spoils the merge.

The draft moves its builder as the session does (`Builder.after`), so the two agree on
positions by construction.  That they agree on everything else is the simulation of this file:
the session is the encoding of the draft after every action (`perform_session`) and hence after
every run (`run_session`).

The step behind it is that merging encoded children is encoding the merged sketch
(`value?_merge`).  A list that is merged gives up its header, and what is left is exactly the
encoding of its items, because whole nodes are whole words and nothing was padded.
-/
import SyntaxTree.Proofs.Outline
import SyntaxTree.Session

namespace SyntaxTree

/-! ## 1. Sketches -/

/-- A value as the calls describe it. -/
inductive Sketch where
  | pass
  | count (start stop : Position)
  | node (outline : Outline)
  | list (stamp : Stamp) (items : List Outline)

namespace Sketch

/-- The encoded value. -/
def value : Sketch → Value
  | pass => .pass
  | count start stop => .count start stop
  | node outline => .node outline.node
  | list stamp items =>
    .node (.assemble stamp.name .list stamp.position (Outline.bytesAll items))

/-- Whether the value is the coordinates of a token. -/
def isCount : Sketch → Bool
  | count _ _ => true
  | _ => false

/-- The stamp of a node or a list. -/
def stamp? : Sketch → Option Stamp
  | node outline => some outline.stamp
  | list stamp _ => some stamp
  | _ => none

/-- What the value adds to a merge: a node itself, a list its items. -/
def items : Sketch → List Outline
  | node outline => [outline]
  | list _ items => items
  | _ => []

/-- The encoded node of a sketch that has one. -/
def node? (sketch : Sketch) : Option Node := sketch.value.node?

end Sketch

/-! ## 2. What calls describe -/

namespace Builder

/-- A stamp of this moment. -/
def stamp (builder : Builder) (name : Tag) (position : Position) : Stamp :=
  ⟨name, position, builder.tracker.files.get? position.file⟩

/-- A literal at the start of the last token. -/
def sketchLiteral (builder : Builder) (name : Tag) (content : Content) : Sketch :=
  .node (.literal (builder.stamp name builder.tracker.previousPosition) content)

/-- Where a merge of some children starts: at the earliest of them, or at the cursor. -/
def sketchPosition (builder : Builder) (children : List Sketch) : Position :=
  (Position.earliest ((children.filterMap Sketch.stamp?).map Stamp.position)).getD
    builder.tracker.currentPosition

/-- A branch of some children. -/
def sketchBranch (builder : Builder) (name : Tag) (children : List Sketch) : Option Sketch :=
  if children.any Sketch.isCount then none
  else some (.node (.branch (builder.stamp name (builder.sketchPosition children))
    (children.flatMap Sketch.items)))

/-- A list of some children. -/
def sketchList (builder : Builder) (children : List Sketch) : Option Sketch :=
  if children.any Sketch.isCount then none
  else some (.list (builder.stamp (.ofName "#list") (builder.sketchPosition children))
    (children.flatMap Sketch.items))

/-- The text node of one file name. -/
def fileOutline (builder : Builder) (name : String) : Outline :=
  .literal (builder.stamp (.ofName "#file") .unknown) (.text (Utf8.ofString name))

/-- The branch of the file names. -/
def filesOutline (builder : Builder) : Outline :=
  .branch (builder.stamp (.ofName "files") .unknown)
    (builder.tracker.files.toList.map builder.fileOutline)

/-- The document around what a root adds. -/
def documentOutline (builder : Builder) (root : Sketch) : Outline :=
  .branch (builder.stamp (.ofName builder.settings.documentName) .unknown)
    (builder.filesOutline :: root.items)

/-- The document around a root. -/
def sketchDocument (builder : Builder) (root : Sketch) : Option Sketch :=
  if root.isCount then none else some (.node (builder.documentOutline root))

/-- A value in branches, one inside the other. -/
def sketchNest (builder : Builder) (name : Tag) : Nat → Sketch → Option Sketch
  | 0, sketch => some sketch
  | times + 1, sketch =>
    (builder.sketchBranch name [sketch]).bind (sketchNest builder name times)

end Builder

namespace UsualLiteral

/-- The usual name of a literal. -/
def name : UsualLiteral → Tag
  | integer => .ofName "#int"
  | real => .ofName "#flt"
  | string => .ofName "#str"
  | rawString => .ofName "#str"
  | regex => .ofName "#re"
  | identifier => .ofName "#id"
  | assembly => .ofName "#asm"
  | comment => .ofName "#doc"

/-- The text content of a literal with its escapes decoded. -/
def unescaped? (rawness : Rawness) (text : List UInt8) : Option Content :=
  (Literal.decodeEscapes rawness text).toOption.map .text

/-- What the text of a literal spells. -/
def content? : UsualLiteral → List UInt8 → Option Content
  | integer, text =>
    (Literal.signedInteger text).toOption.map fun (sign, magnitude) => .integer sign magnitude
  | real, text => (Literal.real text).toOption.map .real
  | string, text => unescaped? .cooked text
  | regex, text => unescaped? .regex text
  | rawString, text | identifier, text | assembly, text | comment, text => unescaped? .raw text

end UsualLiteral

namespace Action

/-- The slots whose values an action takes. -/
def takes : Action → List (Option String)
  | branch _ children => children
  | list children => children
  | wrap slot _ _ => [slot]
  | document slot => [slot]
  | write slot => [slot]
  | _ => []

end Action

namespace Builder

/-- The builder with the tracker that an operation gives, if it gives one. -/
def tracked {α : Type} (builder : Builder) (outcome : Outcome Error (α × Tracker)) : Builder :=
  match outcome.value? with
  | some (_, tracker) => { builder with tracker }
  | none => builder

/-- The builder after an action.  Only five actions move it, and a failure leaves it. -/
def after (builder : Builder) : Action → Builder
  | .advance text => builder.advance text
  | .count text => builder.advance text
  | .reposition directive => (builder.reposition directive).value?.getD builder
  | .setInput file => builder.tracked (builder.tracker.setInput file)
  | .intern file => builder.tracked (builder.tracker.intern file)
  | _ => builder

/-- The value an action describes, from the values it takes: none if it fails or makes none. -/
def describe (builder : Builder) (taken : List Sketch) : Action → Option Sketch
  | .advance _ | .reposition _ | .setInput _ | .intern _ | .write _ => none
  | .count text =>
    let moved := (builder.advance text).tracker
    some (.count moved.previousPosition moved.currentPosition)
  | .pass => some .pass
  | .fileNames => some (.node builder.filesOutline)
  | .null => some (builder.sketchLiteral (.ofName "#null") .null)
  | .leaf name => some (builder.sketchLiteral name .leaf)
  | .text name text => some (builder.sketchLiteral name (.text text))
  | .escapedText name text rawness =>
    (UsualLiteral.unescaped? rawness text).map (builder.sketchLiteral name)
  | .integer name sign digits base =>
    (Literal.integer base digits).toOption.map fun magnitude =>
      builder.sketchLiteral name (.integer sign magnitude)
  | .real name text =>
    (Literal.real text).toOption.map fun value => builder.sketchLiteral name (.real value)
  | .usual literal text => (literal.content? text).map (builder.sketchLiteral literal.name)
  | .branch name _ => builder.sketchBranch name taken
  | .list _ => builder.sketchList taken
  | .wrap _ name times => taken.head?.bind (builder.sketchNest name times)
  | .document _ => taken.head?.bind builder.sketchDocument

end Builder

/-! ## 3. Drafts -/

/-- A builder and the sketches in its slots. -/
structure Draft where
  builder : Builder
  slots : Slots Sketch

namespace Draft

/-- A draft with a new builder and empty slots. -/
def ofBuilder (builder : Builder) : Draft := ⟨builder, .empty⟩

/-- The sketch in a slot; an empty slot holds a pass. -/
def get (draft : Draft) (slot : Option String) : Sketch := draft.slots.get .pass slot

/-- Performs an action: the value it describes, and the draft after it. -/
def perform (draft : Draft) (action : Action) : Option Sketch × Draft :=
  let (taken, slots) := draft.slots.takeAll .pass action.takes
  (draft.builder.describe taken action, ⟨draft.builder.after action, slots⟩)

/-- Performs an action and puts the value it describes into a slot, if one is named. -/
def performInto (draft : Draft) (action : Action) (slot : Option String) : Draft :=
  let (made, after) := draft.perform action
  match made with
  | some sketch => { after with slots := after.slots.store sketch slot }
  | none => after

/-- The draft after a sequence of actions. -/
def run (draft : Draft) : List (Action × Option String) → Draft
  | [] => draft
  | (action, slot) :: rest => (draft.performInto action slot).run rest

/-- The session with the encoded values. -/
def session (draft : Draft) : Session := ⟨draft.builder, draft.slots.map Sketch.value⟩

end Draft

/-! ## 4. Merging encoded children -/

namespace Builder

/-- Any position given wins; else the earliest, else the cursor. -/
theorem mergedPosition_eq (builder : Builder) (fixed : Option Position) (nodes : List Node) :
    builder.mergedPosition fixed nodes
      = fixed.getD ((Position.earliest (nodes.map Node.position)).getD
          builder.tracker.currentPosition) := by
  unfold mergedPosition
  cases fixed with
  | some position => rfl
  | none => cases Position.earliest (nodes.map Node.position) <;> rfl

theorem parts_cons_node (into : Tag) (node : Node) (rest : List Value) :
    (parts into (.node node :: rest)).toOption = (parts into rest).toOption.map (node :: ·) := by
  rw [parts]
  cases parts into rest <;> rfl

/-- The nodes of a merge are those of its sketches, unless one is the coordinates of a
token. -/
theorem parts_map_value (into : Tag) : ∀ children : List Sketch,
    (parts into (children.map Sketch.value)).toOption
      = if children.any Sketch.isCount then none else some (children.filterMap Sketch.node?)
  | [] => rfl
  | .pass :: rest => parts_map_value into rest
  | .count _ _ :: _ => rfl
  | .node outline :: rest => by
    refine (parts_cons_node into outline.node (rest.map Sketch.value)).trans ?_
    rw [parts_map_value into rest]
    cases h : rest.any Sketch.isCount <;> simp [h, Sketch.isCount, Sketch.node?, Sketch.value,
      Value.node?]
  | .list stamp items :: rest => by
    refine (parts_cons_node into _ (rest.map Sketch.value)).trans ?_
    rw [parts_map_value into rest]
    cases h : rest.any Sketch.isCount <;> simp [h, Sketch.isCount, Sketch.node?, Sketch.value,
      Value.node?]

/-- The nodes of a merge are where the sketches say. -/
theorem map_position_node? : ∀ children : List Sketch,
    (children.filterMap Sketch.node?).map Node.position
      = (children.filterMap Sketch.stamp?).map Stamp.position
  | [] => rfl
  | .pass :: rest => map_position_node? rest
  | .count _ _ :: rest => map_position_node? rest
  | .node outline :: rest =>
    List.cons_eq_cons.2 ⟨outline.node_position, map_position_node? rest⟩
  | .list _ _ :: rest => congrArg _ (map_position_node? rest)

/-- **What encoded children contribute is the encoding of what the sketches contribute.**  A
list gives up its header, and its data is its items without padding. -/
theorem flatMap_contribution_node? : ∀ children : List Sketch,
    (children.filterMap Sketch.node?).flatMap Node.contribution
      = Outline.bytesAll (children.flatMap Sketch.items)
  | [] => rfl
  | .pass :: rest => flatMap_contribution_node? rest
  | .count _ _ :: rest => flatMap_contribution_node? rest
  | .node outline :: rest => by
    have hone : outline.node.contribution = outline.node.bytes :=
      if_neg (outline.node_kind ▸ outline.kind_ne_list)
    have ih := flatMap_contribution_node? rest
    simp only [List.filterMap_cons, Sketch.node?, Sketch.value, Value.node?, List.flatMap_cons,
      Sketch.items, List.singleton_append, Outline.bytesAll, hone] at ih ⊢
    rw [ih]
  | .list stamp items :: rest => by
    have hone : (Node.assemble stamp.name .list stamp.position
        (Outline.bytesAll items)).contribution = Outline.bytesAll items :=
      (if_pos rfl).trans (Outline.padded_bytesAll items)
    have ih := flatMap_contribution_node? rest
    simp only [List.filterMap_cons, Sketch.node?, Sketch.value, Value.node?, List.flatMap_cons,
      Sketch.items, hone] at ih ⊢
    rw [ih, Outline.bytesAll_append]

/-- **Merging encoded children is encoding the merged sketches.** -/
theorem value?_merge (builder : Builder) (name : Tag) (kind : Kind) (children : List Sketch)
    (fixed : Option Position) :
    (builder.merge name kind (children.map Sketch.value) fixed).value?
      = if children.any Sketch.isCount then none
        else some (.assemble name kind (fixed.getD (builder.sketchPosition children))
          (Outline.bytesAll (children.flatMap Sketch.items))) := by
  have hparts := parts_map_value name children
  unfold merge
  cases hp : parts name (children.map Sketch.value) with
  | error cause =>
    rw [hp] at hparts
    split at hparts
    · next hcount => rw [if_pos hcount]; rfl
    · exact absurd hparts (by simp [Except.toOption])
  | ok nodes =>
    rw [hp] at hparts
    split at hparts
    · exact absurd hparts (by simp [Except.toOption])
    · next hcount =>
      obtain rfl : nodes = children.filterMap Sketch.node? := by
        simpa [Except.toOption] using hparts
      rw [if_neg hcount, ← flatMap_contribution_node?, sketchPosition, ← map_position_node?,
        ← mergedPosition_eq]
      rfl

/-! ## 5. Calls on encoded values -/

theorem value?_branch (builder : Builder) (name : Tag) (children : List Sketch) :
    (builder.branch name (children.map Sketch.value)).value?
      = (builder.sketchBranch name children).map Sketch.value := by
  rw [branch, Outcome.value?_bind, value?_merge, sketchBranch]
  split <;> rfl

theorem value?_list (builder : Builder) (children : List Sketch) :
    (builder.list (children.map Sketch.value)).value?
      = (builder.sketchList children).map Sketch.value := by
  rw [list, Outcome.value?_bind, value?_merge, sketchList]
  split <;> rfl

/-- The branch of the file names is encoded as the builder encodes it. -/
theorem node_filesOutline (builder : Builder) : builder.filesOutline.node = builder.fileNames := by
  rw [filesOutline, Outline.node, Outline.bytesAll_eq_flatMap, List.flatMap_map]
  rfl

/-- A document is the encoding of its outline, unless the root is the coordinates of a
token. -/
theorem value?_document (builder : Builder) (root : Sketch) :
    (builder.document root.value).value?
      = if root.isCount then none else some (builder.documentOutline root).node := by
  have hchildren : [Value.node builder.fileNames, root.value]
      = [Sketch.node builder.filesOutline, root].map Sketch.value := by
    simp only [List.map_cons, List.map_nil, Sketch.value, node_filesOutline]
  have hany : [Sketch.node builder.filesOutline, root].any Sketch.isCount = root.isCount := by
    simp [Sketch.isCount]
  have hitems : [Sketch.node builder.filesOutline, root].flatMap Sketch.items
      = builder.filesOutline :: root.items := by
    simp [Sketch.items]
  rw [document, hchildren, value?_merge, hany, hitems]
  rfl

theorem value?_nest (builder : Builder) (name : Tag) : ∀ (times : Nat) (sketch : Sketch),
    (Session.nest builder name times sketch.value).value?
      = (builder.sketchNest name times sketch).map Sketch.value
  | 0, sketch => rfl
  | times + 1, sketch => by
    have hone : (builder.branch name [sketch.value]).value?
        = (builder.sketchBranch name [sketch]).map Sketch.value :=
      value?_branch builder name [sketch]
    rw [Session.nest, Outcome.value?_bind, hone, sketchNest]
    cases builder.sketchBranch name [sketch] with
    | none => rfl
    | some wrapped => exact value?_nest builder name times wrapped

theorem value?_literalResult {α : Type} (builder : Builder) (result : Except LiteralError α) :
    (builder.literalResult result).value? = result.toOption := by
  cases result <;> rfl

theorem value?_escapedText (builder : Builder) (name : Tag) (text : List UInt8)
    (rawness : Rawness) :
    (builder.escapedText name text rawness).value?
      = ((UsualLiteral.unescaped? rawness text).map (builder.sketchLiteral name)).map
          Sketch.value := by
  rw [escapedText, Outcome.value?_bind, value?_literalResult, UsualLiteral.unescaped?]
  cases Literal.decodeEscapes rawness text <;> rfl

theorem value?_integerNode (builder : Builder) (name : Tag) (sign : Literal.Sign)
    (digits : List UInt8) (base : Nat) :
    (builder.integerNode name sign digits base).value?
      = ((Literal.integer base digits).toOption.map fun magnitude =>
          builder.sketchLiteral name (.integer sign magnitude)).map Sketch.value := by
  rw [integerNode, Outcome.value?_bind, value?_literalResult]
  cases Literal.integer base digits <;> rfl

theorem value?_realNode (builder : Builder) (name : Tag) (text : List UInt8) :
    (builder.realNode name text).value?
      = ((Literal.real text).toOption.map fun value =>
          builder.sketchLiteral name (.real value)).map Sketch.value := by
  rw [realNode, Outcome.value?_bind, value?_literalResult]
  cases Literal.real text <;> rfl

theorem value?_usual (builder : Builder) (literal : UsualLiteral) (text : List UInt8) :
    (builder.usual literal text).value?
      = ((literal.content? text).map (builder.sketchLiteral literal.name)).map Sketch.value := by
  cases literal with
  | integer =>
    rw [usual, integer, Outcome.value?_bind, value?_literalResult, UsualLiteral.content?]
    cases Literal.signedInteger text <;> rfl
  | real =>
    refine (value?_realNode builder _ text).trans ?_
    rw [UsualLiteral.content?]
    cases Literal.real text <;> rfl
  | string => exact value?_escapedText builder _ text .cooked
  | rawString => exact value?_escapedText builder _ text .raw
  | regex => exact value?_escapedText builder _ text .regex
  | identifier => exact value?_escapedText builder _ text .raw
  | assembly => exact value?_escapedText builder _ text .raw
  | comment => exact value?_escapedText builder _ text .raw

end Builder

/-! ## 6. The simulation -/

namespace Session

/-- The value that a performed action made, if it made one. -/
def made (performed : Outcome Error Answer × Session) : Option Value :=
  performed.1.value?.bind Answer.value?

@[simp] theorem made_making (session : Session) (outcome : Outcome Error Value) :
    made (session.making outcome) = outcome.value? := by
  rw [made, making, Outcome.value?_bind]
  cases outcome.value? <;> rfl

/-- An action that moves the tracker moves the builder, and leaves the slots. -/
theorem moving_snd (session : Session) (outcome : Outcome Error (Answer × Tracker)) :
    (session.moving outcome).2 = ⟨session.builder.tracked outcome, session.slots⟩ := by
  unfold moving Builder.tracked Outcome.value?
  cases outcome.result <;> rfl

theorem made_moving (session : Session) (outcome : Outcome Error (Answer × Tracker)) :
    made (session.moving outcome) = outcome.value?.bind fun moved => moved.1.value? := by
  unfold made moving Outcome.value?
  cases outcome.result <;> rfl

/-- Storing what was made, if anything was. -/
theorem performInto_snd (session : Session) (action : Action) (slot : Option String) :
    (session.performInto action slot).2
      = match made (session.perform action) with
        | some value => (session.perform action).2.store value slot
        | none => (session.perform action).2 := by
  unfold performInto made Outcome.value?
  rcases session.perform action with ⟨⟨notices, _ | answer⟩, after⟩
  · rfl
  · cases answer <;> rfl

end Session

namespace Draft

theorem get_session (draft : Draft) (slot : Option String) :
    draft.session.get slot = (draft.get slot).value :=
  Slots.map_get Sketch.value draft.slots .pass slot

theorem clear_session (draft : Draft) (slot : Option String) :
    draft.session.clear slot = (⟨draft.builder, draft.slots.clear slot⟩ : Draft).session := by
  simp only [Session.clear, session, Slots.map_clear]

theorem takeAll_session (draft : Draft) (names : List (Option String)) :
    draft.session.takeAll names
      = ((draft.slots.takeAll .pass names).1.map Sketch.value,
        (⟨draft.builder, (draft.slots.takeAll .pass names).2⟩ : Draft).session) := by
  have h := Slots.map_takeAll Sketch.value .pass names draft.slots
  simp only [Session.takeAll, session]
  rw [show (Value.pass) = Sketch.pass.value from rfl, h]

/-- **An action makes the encoding of what it describes.** -/
theorem made_perform (draft : Draft) (action : Action) :
    Session.made (draft.session.perform action)
      = (draft.perform action).1.map Sketch.value := by
  cases action with
  | advance text => rfl
  | reposition directive =>
    simp only [Session.perform, Session.made_moving, Outcome.value?_bind]
    cases (draft.session.builder.tracker.reposition directive).value? <;> rfl
  | setInput file => rfl
  | intern file => rfl
  | count text => rfl
  | pass => rfl
  | fileNames =>
    exact congrArg (fun node => some (Value.node node)) draft.builder.node_filesOutline.symm
  | null => rfl
  | leaf name => rfl
  | text name text => rfl
  | escapedText name text rawness =>
    exact (Session.made_making _ _).trans (draft.builder.value?_escapedText name text rawness)
  | integer name sign digits base =>
    exact (Session.made_making _ _).trans (draft.builder.value?_integerNode name sign digits base)
  | real name text =>
    exact (Session.made_making _ _).trans (draft.builder.value?_realNode name text)
  | usual literal text =>
    exact (Session.made_making _ _).trans (draft.builder.value?_usual literal text)
  | branch name children =>
    simp only [Session.perform, takeAll_session, Session.made_making]
    exact draft.builder.value?_branch name _
  | list children =>
    simp only [Session.perform, takeAll_session, Session.made_making]
    exact draft.builder.value?_list _
  | wrap slot name times =>
    simp only [Session.perform, get_session, Session.made_making]
    exact draft.builder.value?_nest name times _
  | document slot =>
    have hdocument := draft.builder.value?_document (draft.get slot)
    have hmade : (draft.perform (.document slot)).1
        = draft.builder.sketchDocument (draft.get slot) := rfl
    simp only [Session.perform, get_session, Session.made_making, Outcome.value?_bind]
    rw [hmade, Builder.sketchDocument, show draft.session.builder = draft.builder from rfl,
      hdocument]
    split <;> rfl
  | write slot =>
    simp only [Session.perform, Session.made, Outcome.value?_bind, get_session]
    cases Builder.write (draft.get slot).value <;> rfl

/-- The session after an action is the encoding of the draft after it. -/
theorem perform_session (draft : Draft) (action : Action) :
    (draft.session.perform action).2 = (draft.perform action).2.session := by
  cases action with
  | reposition directive =>
    simp only [Session.perform, Session.moving_snd, Builder.tracked, Outcome.value?_bind]
    simp only [perform, session, Builder.after, Builder.reposition, Outcome.value?_bind]
    cases (draft.builder.tracker.reposition directive).value? <;> rfl
  | branch name children =>
    simp only [Session.perform, takeAll_session]
    rfl
  | list children =>
    simp only [Session.perform, takeAll_session]
    rfl
  | wrap slot name times => exact clear_session draft slot
  | document slot => exact clear_session draft slot
  | write slot => exact clear_session draft slot
  | _ => rfl

/-- One action, stored: the step of the simulation. -/
theorem performInto_session (draft : Draft) (action : Action) (slot : Option String) :
    (draft.session.performInto action slot).2 = (draft.performInto action slot).session := by
  rw [Session.performInto_snd, made_perform, perform_session, performInto]
  rcases draft.perform action with ⟨_ | sketch, after⟩
  · rfl
  · simp only [Option.map_some, Session.store, session, Slots.map_store]

/-- **A run of a session is the encoding of the run of its draft.** -/
theorem run_session : ∀ (steps : List (Action × Option String)) (draft : Draft),
    draft.session.run steps = (draft.run steps).session
  | [], _ => rfl
  | (action, slot) :: rest, draft => by
    rw [Session.run, performInto_session, run_session rest, run]

/-- What an action makes after a run is the encoding of what it describes. -/
theorem made_run (start : Builder) (steps : List (Action × Option String)) (action : Action) :
    Session.made (((Session.ofBuilder start).run steps).perform action)
      = (((ofBuilder start).run steps).perform action).1.map Sketch.value := by
  rw [← made_perform, ← run_session]
  rfl

end Draft

end SyntaxTree
