/-
# The layout of every node that is built

Every node a session ever makes keeps the layout of the format.  This file states the layout
as an invariant over bytes and proves that it holds of all nodes of all runs
(`run_node_layout`).

* `Node.Framed`: the bytes are whole words that start with a header, and the header says what
  the node itself says, with a size that is the number of bytes and zero reserved bytes.
* `Outline.HeldBy`: a literal's data is its payload and fewer than eight zero bytes; a branch's
  data is exactly a sequence of whole nodes, which are no lists and no counts and hold the
  children in turn.  `Sketch.HeldBy` adds lists, which are laid out as branches are.

What makes the invariant survive is that the encoding of an outline never looks at how its
children came in: a list that was merged has given up its header, and so have the lists in it.
The nodes inside are of no kind that exists only while building, so a finished tree can be
written as it stands, and no header in it has such a type (`header_kind_of_mem_preorder`).
-/
import SyntaxTree.Proofs.RoundTrip

namespace SyntaxTree

/-! ## 1. The layout -/

namespace Node

/-- The bytes of the node are whole words behind a header that says what the node says. -/
structure Framed (node : Node) (stamp : Stamp) (kind : Kind) : Prop where
  name_eq : node.name = stamp.name
  position_eq : node.position = stamp.position
  kind_eq : node.kind = kind
  width_le : Header.width ≤ node.bytes.length
  aligned : node.bytes.length % 8 = 0
  header : ∃ header : Header, Header.decode node.bytes = .ok header
    ∧ header.name = node.name ∧ header.position = node.position
    ∧ header.typeCode = node.kind.code ∧ header.size.toNat = node.bytes.length
  reserved : Header.reserved node.bytes = [0, 0, 0]

/-- The number of bytes of several nodes. -/
def totalSize : List Node → Nat
  | [] => 0
  | node :: rest => node.size + totalSize rest

/-- The data of the node is exactly the parts, none of which is a list or a count. -/
structure Joins (node : Node) (parts : List Node) : Prop where
  data_eq : node.data = parts.flatMap Node.bytes
  size_eq : node.size = Header.width + totalSize parts
  kinds : ∀ part ∈ parts, part.kind ≠ .list ∧ part.kind ≠ .count

end Node

namespace Outline

mutual

/-- The node holds the outline: it is framed as the stamp says, and its data is the payload
with its padding, or the nodes that hold the children. -/
def HeldBy : Outline → Node → Prop
  | literal stamp content, node => node.Framed stamp content.kind
      ∧ ∃ zeros : List UInt8, node.data = content.payload ++ zeros
        ∧ zeros.length < 8 ∧ ∀ byte ∈ zeros, byte = 0
  | branch stamp children, node => node.Framed stamp .branch
      ∧ ∃ parts : List Node, node.Joins parts ∧ HeldByAll children parts

/-- The nodes hold the outlines, one each. -/
def HeldByAll : List Outline → List Node → Prop
  | [], [] => True
  | outline :: outlines, node :: nodes => HeldBy outline node ∧ HeldByAll outlines nodes
  | _, _ => False

end

end Outline

/-- The node holds the sketch.  A list is laid out as a branch is. -/
def Sketch.HeldBy : Sketch → Node → Prop
  | node outline, held => outline.HeldBy held
  | list stamp items, held => held.Framed stamp .list
      ∧ ∃ parts : List Node, held.Joins parts ∧ Outline.HeldByAll items parts
  | _, _ => False

/-! ## 2. Encodings keep the layout -/

/-- A node of whole words that fits is framed. -/
theorem Node.framed_of_aligned {node : Node} (stamp : Stamp) {kind : Kind}
    (hname : node.name = stamp.name) (hposition : node.position = stamp.position)
    (hkind : node.kind = kind) (hdata : node.data.length % 8 = 0) (hfits : node.Fits) :
    node.Framed stamp kind := by
  have hsize : node.size = Header.width + node.data.length := rfl
  have hread := node.decode_header []
  have hzero := Header.reserved_encode_append node.header node.data
  rw [List.append_nil] at hread
  refine ⟨hname, hposition, hkind, ?_, ?_, ?_, hzero⟩
  · rw [Node.length_bytes]
    omega
  · rw [Node.length_bytes, hsize, Header.width]
    omega
  · refine ⟨node.header, hread, rfl, rfl, rfl, ?_⟩
    rw [Node.length_bytes]
    exact Node.header_size_toNat hfits

theorem padded_eq_append_zeros (data : List UInt8) :
    ∃ zeros : List UInt8, padded data = data ++ zeros
      ∧ zeros.length < 8 ∧ ∀ byte ∈ zeros, byte = 0 := by
  refine ⟨_, rfl, ?_, ?_⟩
  · have := alignUp_lt_add data.length
    rw [List.length_replicate]
    omega
  · intro byte hbyte
    exact List.eq_of_mem_replicate hbyte

namespace Outline

theorem totalSize_map_node (outlines : List Outline) :
    Node.totalSize (outlines.map node) = sizes outlines := by
  induction outlines with
  | nil => rfl
  | cons outline rest ih => rw [List.map_cons, Node.totalSize, size_node, ih, sizes]

/-- A node whose data is the encoding of outlines joins their nodes. -/
theorem joins_map_node {node : Node} {outlines : List Outline}
    (h : node.data = bytesAll outlines) : node.Joins (outlines.map Outline.node) := by
  refine ⟨?_, ?_, ?_⟩
  · rw [h, bytesAll_eq_flatMap, List.flatMap_map]
  · rw [Node.size, h, length_bytesAll, totalSize_map_node]
  · intro part hpart
    obtain ⟨outline, -, rfl⟩ := List.mem_map.1 hpart
    have htransient := outline.isTransient_kind
    rw [node_kind]
    refine ⟨?_, ?_⟩ <;> rintro hkind <;> rw [hkind] at htransient <;> cases htransient

mutual

/-- **The encoding of an outline holds it.** -/
theorem heldBy_node : ∀ outline : Outline, outline.node.Fits → outline.HeldBy outline.node
  | literal stamp content, hfits => by
    have hframed := Node.framed_of_aligned stamp rfl rfl (node_kind _)
      (length_data_mod (literal stamp content)) hfits
    exact ⟨hframed, padded_eq_append_zeros content.payload⟩
  | branch stamp children, hfits => by
    have hframed := Node.framed_of_aligned stamp rfl rfl (node_kind _)
      (length_data_mod (branch stamp children)) hfits
    exact ⟨hframed, _, joins_map_node (data_branch stamp children),
      heldByAll_map_node children (sizes_lt_of_fits hfits)⟩

theorem heldByAll_map_node : ∀ outlines : List Outline, sizes outlines < UInt64.size →
    HeldByAll outlines (outlines.map node)
  | [], _ => trivial
  | outline :: rest, h => by
    obtain ⟨hfits, hrest⟩ := fits_of_sizes_lt h
    exact ⟨heldBy_node outline hfits, heldByAll_map_node rest hrest⟩

end

end Outline

/-- The encoding of a sketch holds it. -/
theorem Sketch.heldBy_value {sketch : Sketch} {held : Node} (h : sketch.value = .node held)
    (hfits : held.Fits) : sketch.HeldBy held := by
  cases sketch with
  | pass => exact absurd h Value.noConfusion
  | count start stop => exact absurd h Value.noConfusion
  | node outline =>
    obtain rfl := Value.node.inj h
    exact Outline.heldBy_node outline hfits
  | list stamp items =>
    obtain rfl := Value.node.inj h
    have hdata : (Node.assemble stamp.name .list stamp.position
        (Outline.bytesAll items)).data = Outline.bytesAll items := Outline.padded_bytesAll items
    have hsmall : Outline.sizes items < UInt64.size := by
      rw [Node.Fits, Node.size, hdata, Outline.length_bytesAll] at hfits
      omega
    refine ⟨?_, _, Outline.joins_map_node hdata, Outline.heldByAll_map_node items hsmall⟩
    refine Node.framed_of_aligned stamp rfl rfl rfl ?_ hfits
    rw [hdata]
    exact Outline.length_bytesAll_mod items

/-! ## 3. Headers at every depth -/

namespace Outline

/-- **No header of an outline's tree, at any depth, has a type that exists only while
building.** -/
theorem header_kind_of_mem_preorder (outline : Outline) {entry : Tree × Nat}
    (h : entry ∈ outline.tree.preorder) :
    ∃ kind : Kind, entry.1.header.kind? = some kind ∧ kind.isTransient = false := by
  have hmem : entry.1 ∈ outline.parts.map tree := by
    rw [← map_fst_preorder]
    exact List.mem_map_of_mem h
  obtain ⟨part, -, hpart⟩ := List.mem_map.1 hmem
  rw [← hpart, header_tree, kind?_header]
  exact ⟨part.kind, rfl, part.isTransient_kind⟩

end Outline

/-! ## 4. All nodes of all runs -/

/-- A sketch's node is a list exactly if the sketch is, and never a count. -/
theorem Sketch.isTransient_iff {sketch : Sketch} {held : Node} (h : sketch.value = .node held) :
    held.kind.isTransient = true ↔ held.kind = .list := by
  refine ⟨?_, fun hkind => by rw [hkind]; rfl⟩
  intro htransient
  by_cases hkind : held.kind = .list
  · exact hkind
  · obtain ⟨outline, -, rfl⟩ := Sketch.eq_node_of_value h hkind
    rw [Outline.node_kind, outline.isTransient_kind] at htransient
    exact Bool.noConfusion htransient

/-- **Every node of every run keeps the layout.**  It holds what its action describes; writing
it fails exactly if it is a list, and otherwise gives its bytes as they are, in which no header
at any depth has a type that exists only while building. -/
theorem run_node_layout (start : Builder) (steps : List (Action × Option String))
    (action : Action) (node : Node)
    (hmade : (((Session.ofBuilder start).run steps).perform action).1.result
      = .ok (.value (.node node)))
    (hfits : node.Fits) :
    (∃ sketch : Sketch, (((Draft.ofBuilder start).run steps).perform action).1 = some sketch
        ∧ sketch.HeldBy node)
      ∧ ((∃ cause : Misuse, node.write = .error cause) ↔ node.kind = .list)
      ∧ (node.kind ≠ .list → node.write = .ok node.bytes
          ∧ ∃ tree : Tree, Tree.decode node.bytes = .ok (tree, node.size)
            ∧ ∀ entry ∈ tree.preorder, ∃ kind : Kind,
                entry.1.header.kind? = some kind ∧ kind.isTransient = false) := by
  obtain ⟨sketch, hsketch, hvalue⟩ := Draft.sketch_of_made hmade
  have htransient := Sketch.isTransient_iff hvalue
  refine ⟨⟨sketch, hsketch, Sketch.heldBy_value hvalue hfits⟩, ?_, ?_⟩
  · rw [← htransient, Node.write]
    cases node.kind.isTransient <;> simp
  · intro hkind
    have hplain : ¬ node.kind.isTransient = true := fun h => hkind (htransient.1 h)
    obtain ⟨outline, -, rfl⟩ := Sketch.eq_node_of_value hvalue hkind
    refine ⟨if_neg hplain, outline.tree, Outline.decode_bytes hfits, ?_⟩
    intro entry hentry
    exact outline.header_kind_of_mem_preorder hentry

theorem run_node_layout_sample :
    (((Session.ofBuilder (.ofSettings .standard)).run sampleSteps).perform sampleBranch).1.result
        = .ok (.value (.node sampleOutline.node))
      ∧ sampleOutline.node.Fits ∧ sampleOutline.node.kind ≠ .list
      ∧ (∃ sketch : Sketch,
          (((Draft.ofBuilder (.ofSettings .standard)).run sampleSteps).perform sampleBranch).1
            = some sketch ∧ sketch.HeldBy sampleOutline.node)
      ∧ sampleOutline.node.write = .ok sampleOutline.node.bytes := by
  have hfits : sampleOutline.node.Fits := by decide +kernel
  have hkind : sampleOutline.node.kind ≠ .list := by decide
  obtain ⟨hheld, -, hwrite⟩ := run_node_layout _ _ _ _ perform_sampleBranch hfits
  exact ⟨perform_sampleBranch, hfits, hkind, hheld, (hwrite hkind).1⟩

end SyntaxTree
