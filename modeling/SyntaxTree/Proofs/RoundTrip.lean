/-
# A built tree is read back as the calls described it

The builder writes and the reader reads; nothing in the code ties the two together but the
format.  This file does: whatever a run of a session builds, the reader gives back the tree that
the draft of the run describes (`decode_run_node`).

The two halves are in the files before.  By simulation the node is the encoding of an outline,
and the outline is what the draft says the actions describe.  By the reading of outlines the
bytes of that node are read as the tree of that outline, with all of them used.

A node longer than its size field can say would be read wrongly.  No buffer in a memory is that
long, so `Node.Fits` asks for nothing that a node can fail; it is needed because lists of bytes
have no such bound here.
-/
import SyntaxTree.Proofs.Draft

namespace SyntaxTree

/-! ## 1. Sketches of nodes -/

/-- A value of a node that is no list is the encoding of an outline. -/
theorem Sketch.eq_node_of_value {sketch : Sketch} {node : Node}
    (h : sketch.value = .node node) (hkind : node.kind ≠ .list) :
    ∃ outline : Outline, sketch = .node outline ∧ node = outline.node := by
  cases sketch with
  | pass => exact absurd h Value.noConfusion
  | count start stop => exact absurd h Value.noConfusion
  | node outline => exact ⟨outline, rfl, (Value.node.inj h).symm⟩
  | list stamp items =>
    refine absurd ?_ hkind
    rw [← Value.node.inj h]
    rfl

/-- The node an action makes after a run is the encoding of a sketch of the draft. -/
theorem Draft.sketch_of_made {start : Builder} {steps : List (Action × Option String)}
    {action : Action} {value : Value}
    (h : (((Session.ofBuilder start).run steps).perform action).1.result = .ok (.value value)) :
    ∃ sketch : Sketch, (((Draft.ofBuilder start).run steps).perform action).1 = some sketch
      ∧ sketch.value = value := by
  have hmade : Session.made (((Session.ofBuilder start).run steps).perform action)
      = some value := by
    rw [Session.made, Outcome.value?_eq_some.2 h]
    rfl
  rw [Draft.made_run] at hmade
  exact Option.map_eq_some_iff.1 hmade

/-- A text that is well-formed and does not end in a NUL is read back exactly. -/
theorem Content.scalar_text_ofString {text : String}
    (h : text.toList.getLast? ≠ some (Char.ofNat 0)) :
    (Content.text (Utf8.ofString text)).scalar = .text text := by
  rw [Content.scalar, text_trimZeros_ofString, trimNuls_of_getLast?_ne h]

/-! ## 2. The round trip -/

/-- **A built tree is read back as the calls described it.**  After any run, if an action makes
a node that is no list, the draft of the run describes an outline for it, of the same name,
position, kind and size, and reading the bytes of the node gives the tree of that outline, uses
all of them and gives no notice.  What the tree says of a text is the text itself, if it is
well-formed and does not end in a NUL. -/
theorem decode_run_node (start : Builder) (steps : List (Action × Option String))
    (action : Action) (node : Node)
    (hmade : (((Session.ofBuilder start).run steps).perform action).1.result
      = .ok (.value (.node node)))
    (hkind : node.kind ≠ .list) (hfits : node.Fits) :
    ∃ outline : Outline,
      (((Draft.ofBuilder start).run steps).perform action).1 = some (.node outline)
        ∧ outline.stamp.name = node.name ∧ outline.stamp.position = node.position
        ∧ outline.kind = node.kind ∧ outline.size = node.size
        ∧ Tree.decode node.bytes = .ok (outline.tree, node.size)
        ∧ ∀ text : String, text.toList.getLast? ≠ some (Char.ofNat 0) →
            (Content.text (Utf8.ofString text)).scalar = .text text := by
  obtain ⟨sketch, hsketch, hvalue⟩ := Draft.sketch_of_made hmade
  obtain ⟨outline, rfl, rfl⟩ := Sketch.eq_node_of_value hvalue hkind
  exact ⟨outline, hsketch, outline.node_name.symm, outline.node_position.symm,
    outline.node_kind.symm, outline.size_node.symm, Outline.decode_bytes hfits,
    fun text => Content.scalar_text_ofString⟩

/-- A leaf, an integer of more than 64 bits and a text that ends in zero bytes, two of them
grouped in a list around a pass. -/
def sampleSteps : List (Action × Option String) :=
  [(.advance [0x78], none),
    (.leaf (.ofBytes [0x78]), some "a"),
    (.integer (.ofBytes [0x79]) .negative
      (Utf8.ofString "18446744073709551616") 10, some "b"),
    (.list [some "a", none, some "b"], some "group"),
    (.text (.ofBytes [0x7A]) [0x7A, 0, 0], some "c")]

/-- The branch of the group and the text. -/
def sampleBranch : Action := .branch (.ofBytes [0x74]) [some "group", some "c"]

/-- What the branch describes: the list is gone, and so is the pass. -/
def sampleOutline : Outline :=
  .branch ⟨.ofBytes [0x74], ⟨Position.unknownNumber, 1, 2⟩, none⟩
    [.literal ⟨.ofBytes [0x78], ⟨Position.unknownNumber, 1, 1⟩, none⟩ .leaf,
      .literal ⟨.ofBytes [0x79], ⟨Position.unknownNumber, 1, 1⟩, none⟩
        (.integer .negative 18446744073709551616),
      .literal ⟨.ofBytes [0x7A], ⟨Position.unknownNumber, 1, 1⟩, none⟩
        (.text [0x7A, 0, 0])]

set_option maxRecDepth 4000 in
theorem perform_sampleBranch :
    (((Session.ofBuilder (.ofSettings .standard)).run sampleSteps).perform sampleBranch).1.result
      = .ok (.value (.node sampleOutline.node)) := rfl

theorem decode_run_sample :
    (((Session.ofBuilder (.ofSettings .standard)).run sampleSteps).perform sampleBranch).1.result
        = .ok (.value (.node sampleOutline.node))
      ∧ sampleOutline.node.kind ≠ .list ∧ sampleOutline.node.Fits
      ∧ (∃ outline : Outline,
          (((Draft.ofBuilder (.ofSettings .standard)).run sampleSteps).perform sampleBranch).1
            = some (.node outline)
          ∧ Tree.decode sampleOutline.node.bytes = .ok (outline.tree, sampleOutline.node.size))
      ∧ (Content.text (Utf8.ofString "zz")).scalar = .text "zz" := by
  have hkind : sampleOutline.node.kind ≠ .list := by decide
  have hfits : sampleOutline.node.Fits := by decide +kernel
  obtain ⟨outline, hdraft, -, -, -, -, hdecode, htext⟩ :=
    decode_run_node _ _ _ _ perform_sampleBranch hkind hfits
  exact ⟨perform_sampleBranch, hkind, hfits, ⟨outline, hdraft, hdecode⟩,
    htext "zz" (by decide)⟩

end SyntaxTree
