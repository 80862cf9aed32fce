/-
# Children tile their branch

Declared sizes need not be whole words, at any level.  So a node has three ends: of its data, of
the words it takes up, and of the data around it.  This file says how they lie to each other in
everything that is read (`decoded_children_tile`):

* the children of a branch take up ranges of its data that follow one another without a gap, and
  fewer bytes than a header are left at the end;
* with the header of the branch they are no more than the size it declares, and they fall short of
  it by less than a header;
* each node brings its own header, so neither the number of nodes nor the depth can be more than
  the declared size has room for.

A range is a node's own if it reads as that node and nothing of it is left (`Occupies`).  Reading
at the front of a longer buffer comes to the same, since a node is read from its own words only
(`occupies_of_ofFrame`).  The rest is one induction over the rules of what is read.
-/
import Mathlib.Data.List.Forall2
import SyntaxTree.Proofs.NodeSites

namespace SyntaxTree

/-! ## 1. A node is read from its own words -/

theorem Header.field_take {buffer : List UInt8} {offset count length : Nat}
    (h : offset + count ≤ length) :
    field (buffer.take length) offset count = field buffer offset count := by
  rw [field, field, List.drop_take, List.take_take, Nat.min_eq_left (by omega)]

theorem Header.read_take {buffer : List UInt8} {length : Nat} (h : width ≤ length) :
    read (buffer.take length) = read buffer := by
  have hfield : ∀ offset count : Nat, offset + count ≤ 32 →
      field (buffer.take length) offset count = field buffer offset count := by
    intro offset count hcount
    exact field_take (Nat.le_trans hcount h)
  simp only [read, hfield 0 8 (by omega), hfield 8 8 (by omega), hfield 16 4 (by omega),
    hfield 20 4 (by omega), hfield 24 4 (by omega), hfield 31 1 (by omega)]

namespace Frame

variable {buffer : List UInt8}

theorem WellSized.width_le_used (h : WellSized buffer) : Header.width ≤ (cut buffer).used :=
  Nat.le_trans h.width_le (le_alignUp _)

theorem WellSized.cut_take (h : WellSized buffer) :
    cut (buffer.take (cut buffer).used) = cut buffer := by
  have hsize : (Header.read buffer).size.toNat ≤ (cut buffer).used := le_alignUp _
  have hread : Header.read (buffer.take (cut buffer).used) = Header.read buffer :=
    Header.read_take h.width_le_used
  rw [cut, hread, List.take_take, Nat.min_eq_left hsize]
  rfl

theorem WellSized.length_take (h : WellSized buffer) :
    (buffer.take (cut buffer).used).length = (cut buffer).used :=
  List.length_take_of_le h.used_le

theorem WellSized.take (h : WellSized buffer) : WellSized (buffer.take (cut buffer).used) := by
  refine ⟨?_, ?_⟩
  · rw [Header.read_take h.width_le_used]
    exact h.width_le
  · apply Nat.le_of_eq
    rw [h.cut_take, h.length_take]

end Frame

namespace Tree

/-! ## 2. Ranges -/

/-- The bytes that a node takes up: its size in whole words. -/
def extent (tree : Tree) : Nat := alignUp tree.header.size.toNat

/-- The bytes that several nodes take up. -/
def extents : List Tree → Nat
  | [] => 0
  | tree :: rest => tree.extent + extents rest

/-- A range of bytes reads as a node, and nothing of it is left. -/
def Occupies (tree : Tree) (range : List UInt8) : Prop :=
  (decode range).result = .ok (tree, range.length)

/-- Trees take up data one after another, and what is left is too short for one more. -/
def Tiles (trees : List Tree) (data : List UInt8) : Prop :=
  ∃ (ranges : List (List UInt8)) (leftover : List UInt8), data = ranges.flatten ++ leftover
    ∧ List.Forall₂ Occupies trees ranges ∧ leftover.length < Header.width

theorem occupies_of_ofFrame {buffer : List UInt8} {tree : Tree} (hsized : Frame.WellSized buffer)
    (h : (ofFrame (Frame.cut buffer)).result = .ok tree) :
    Occupies tree (buffer.take (Frame.cut buffer).used) := by
  rw [Occupies, decode_eq_ok_iff, hsized.cut_take]
  exact ⟨hsized.take, hsized.length_take, h⟩

/-- The range of a node is as long as its header says. -/
theorem Occupies.length_eq {tree : Tree} {range : List UInt8} (h : Occupies tree range) :
    range.length = tree.extent := by
  obtain ⟨-, hused, htree⟩ := decode_eq_ok_iff.1 h
  rw [hused, extent, header_of_ofFrame htree]
  rfl

theorem length_flatten_of_occupies {trees : List Tree} {ranges : List (List UInt8)}
    (h : List.Forall₂ Occupies trees ranges) : ranges.flatten.length = extents trees := by
  induction h with
  | nil => rfl
  | cons hfirst _ ih =>
    rw [List.flatten_cons, List.length_append, hfirst.length_eq, ih, extents]

/-- Trees that tile data leave less than a header of it. -/
theorem Tiles.bounds {trees : List Tree} {data : List UInt8} (h : Tiles trees data) :
    extents trees ≤ data.length ∧ data.length < extents trees + Header.width := by
  obtain ⟨ranges, leftover, rfl, hranges, hleftover⟩ := h
  rw [List.length_append, length_flatten_of_occupies hranges]
  omega

/-! ## 3. What is read is tiled -/

theorem tiles_cons {buffer : List UInt8} {first : Tree} {rest : List Tree}
    (hsized : Frame.WellSized buffer) (hfirst : (ofFrame (Frame.cut buffer)).result = .ok first)
    (hrest : Tiles rest (buffer.drop (Frame.cut buffer).used)) : Tiles (first :: rest) buffer := by
  obtain ⟨ranges, leftover, hdata, hranges, hleftover⟩ := hrest
  refine ⟨buffer.take (Frame.cut buffer).used :: ranges, leftover, ?_, ?_, hleftover⟩
  · rw [List.flatten_cons, List.append_assoc, ← hdata, List.take_append_drop]
  · exact .cons (occupies_of_ofFrame hsized hfirst) hranges

theorem tiles_of_reads {buffer : List UInt8} {trees : List Tree} (h : Reads buffer trees) :
    Tiles trees buffer := by
  induction h with
  | done short => exact ⟨[], _, rfl, .nil, short⟩
  | scalar sized holds _ ih => exact tiles_cons sized (ofFrame_of_scalar holds) ih
  | branch sized isBranch inside _ _ ihBehind =>
    exact tiles_cons sized (ofFrame_of_branch isBranch (decodeAll_eq_ok_iff.2 inside)) ihBehind

theorem isInfix_take (buffer : List UInt8) (count : Nat) : buffer.take count <:+: buffer :=
  ⟨[], buffer.drop count, List.take_append_drop count buffer⟩

/-- The data of a node is a part of the buffer that the node is read from. -/
theorem isInfix_data (buffer : List UInt8) : (Frame.cut buffer).data <:+: buffer :=
  (List.drop_suffix _ _).isInfix.trans (isInfix_take buffer _)

/-- **Every node that is read has a range of its own in the buffer.** -/
theorem exists_range_of_reads {buffer : List UInt8} {trees : List Tree} (h : Reads buffer trees) :
    ∀ node ∈ nodesAll trees, ∃ range : List UInt8, range <:+: buffer ∧ Occupies node range := by
  induction h with
  | done short =>
    intro node hnode
    cases hnode
  | @scalar buffer value rest sized holds behind ih =>
    intro node hnode
    rcases List.mem_append.1 hnode with hnode | hnode
    · obtain rfl := List.mem_singleton.1 hnode
      exact ⟨_, isInfix_take buffer _, occupies_of_ofFrame sized (ofFrame_of_scalar holds)⟩
    · obtain ⟨range, hrange, hnode⟩ := ih node hnode
      exact ⟨range, hrange.trans (List.drop_suffix _ _).isInfix, hnode⟩
  | @branch buffer children rest sized isBranch inside behind ihInside ihBehind =>
    intro node hnode
    rcases List.mem_append.1 hnode with hnode | hnode
    · rcases List.mem_cons.1 hnode with rfl | hnode
      · have hchildren := decodeAll_eq_ok_iff.2 inside
        exact ⟨_, isInfix_take buffer _,
          occupies_of_ofFrame sized (ofFrame_of_branch isBranch hchildren)⟩
      · obtain ⟨range, hrange, hnode⟩ := ihInside node hnode
        exact ⟨range, hrange.trans (isInfix_data buffer), hnode⟩
    · obtain ⟨range, hrange, hnode⟩ := ihBehind node hnode
      exact ⟨range, hrange.trans (List.drop_suffix _ _).isInfix, hnode⟩

/-- What a branch declares is its header, its children and less than one more header. -/
structure Tiled (header : Header) (children : List Tree) (range : List UInt8) : Prop where
  occupies : Occupies (branch header children) range
  tiles : Tiles children ((range.take header.size.toNat).drop Header.width)
  extents_le : extents children + Header.width ≤ header.size.toNat
  lt_extents : header.size.toNat < extents children + Header.width + Header.width

/-- A range that is a branch is tiled by its children. -/
theorem Occupies.tiled {header : Header} {children : List Tree} {range : List UInt8}
    (h : Occupies (branch header children) range) : Tiled header children range := by
  obtain ⟨hsized, -, htree⟩ := decode_eq_ok_iff.1 h
  rcases cases_of_ofFrame htree with ⟨value, _, htree⟩ | ⟨_, children', hchildren, htree⟩
  · cases htree
  · obtain ⟨rfl, rfl⟩ := Tree.branch.inj htree
    have htiles := tiles_of_reads (reads_of_decodeAll hchildren)
    have hdata := hsized.length_data
    obtain ⟨hle, hlt⟩ := htiles.bounds
    refine ⟨h, htiles, ?_, ?_⟩
    · simp only [Frame.cut] at hle hdata ⊢
      omega
    · simp only [Frame.cut] at hlt hdata ⊢
      omega

/-! ## 4. Every node brings its header -/

/-- The nodes in a buffer have a header each. -/
theorem nodeCounts_of_reads {buffer : List UInt8} {trees : List Tree} (h : Reads buffer trees) :
    Header.width * nodeCounts trees ≤ extents trees := by
  induction h with
  | done short => exact Nat.le_refl 0
  | @scalar buffer value rest sized holds behind ih =>
    have hwidth := sized.width_le_used
    simp only [nodeCounts, nodeCount, extents, Nat.mul_add, Nat.mul_one]
    have hextent : (scalar (Frame.cut buffer).header value).extent = (Frame.cut buffer).used := rfl
    omega
  | @branch buffer children rest sized isBranch inside behind ihInside ihBehind =>
    -- the headers below fit in the data, which lacks the header of the branch
    have hinside := (tiles_of_reads inside).bounds.1
    have hdata := sized.length_data
    have hsize := le_alignUp (Header.read buffer).size.toNat
    have hextent : (branch (Frame.cut buffer).header children).extent
        = alignUp (Header.read buffer).size.toNat := rfl
    simp only [nodeCounts, nodeCount, extents, Nat.mul_add, Nat.mul_one]
    omega

/-- The nodes of a tree have a header each in the size that the root declares. -/
theorem nodeCount_le_of_decode {buffer : List UInt8} {tree : Tree} {used : Nat}
    (h : (decode buffer).result = .ok (tree, used)) :
    Header.width * tree.nodeCount ≤ tree.header.size.toNat := by
  obtain ⟨hsized, -, htree⟩ := decode_eq_ok_iff.1 h
  have hdata := hsized.length_data
  rw [nodeCount_eq, Nat.mul_add, Nat.mul_one, header_of_ofFrame htree]
  rcases cases_of_ofFrame htree with ⟨value, _, rfl⟩ | ⟨_, children', hchildren, rfl⟩
  · have hwidth := hsized.width_le
    simp only [children, nodeCounts, Frame.cut, Nat.mul_zero]
    omega
  · have hreads := reads_of_decodeAll hchildren
    have hcounts := nodeCounts_of_reads hreads
    have hinside := (tiles_of_reads hreads).bounds.1
    simp only [children, Frame.cut] at hcounts hinside hdata ⊢
    omega

theorem nodeCount_le_of_mem {child : Tree} {trees : List Tree} (h : child ∈ trees) :
    child.nodeCount ≤ nodeCounts trees := by
  induction trees with
  | nil => cases h
  | cons tree rest ih =>
    rw [nodeCounts]
    rcases List.mem_cons.1 h with rfl | h
    · omega
    · have := ih h
      omega

/-- The walk for the depth finds no level that the nodes above it and below it do not account
for. -/
theorem deepest_le {bound : Nat} (pending : List (Tree × Nat)) (found : Nat)
    (hfound : found ≤ bound)
    (hpending : ∀ entry ∈ pending, entry.2 + entry.1.nodeCount ≤ bound + 1) :
    deepest pending found ≤ bound := by
  fun_induction deepest pending found with
  | case1 found => exact hfound
  | case2 tree level rest found ih =>
    obtain ⟨htree, hrest⟩ := List.forall_mem_cons.1 hpending
    have hcount := nodeCount_eq tree
    simp only at htree
    refine ih (by omega) ?_
    intro entry hentry
    rcases List.mem_append.1 hentry with hentry | hentry
    · obtain ⟨child, hchild, rfl⟩ := List.mem_map.1 hentry
      have := nodeCount_le_of_mem hchild
      simp only
      omega
    · exact hrest entry hentry

theorem depth_le_nodeCount (tree : Tree) : tree.depth ≤ tree.nodeCount := by
  refine deepest_le _ _ (Nat.zero_le _) ?_
  intro entry hentry
  obtain rfl := List.mem_singleton.1 hentry
  simp only
  omega

/-! ## 5. The tiling -/

theorem exists_range_of_decode {buffer : List UInt8} {tree : Tree} {used : Nat}
    (h : (decode buffer).result = .ok (tree, used)) :
    ∀ node ∈ tree.nodes, ∃ range : List UInt8, range <:+: buffer ∧ Occupies node range := by
  obtain ⟨hsized, -, htree⟩ := decode_eq_ok_iff.1 h
  intro node hnode
  rw [nodes_eq] at hnode
  rcases List.mem_cons.1 hnode with rfl | hnode
  · exact ⟨_, isInfix_take buffer _, occupies_of_ofFrame hsized htree⟩
  · rcases cases_of_ofFrame htree with ⟨value, _, rfl⟩ | ⟨_, children, hchildren, rfl⟩
    · cases hnode
    · have hreads := reads_of_decodeAll hchildren
      obtain ⟨range, hrange, hnode⟩ := exists_range_of_reads hreads node hnode
      exact ⟨range, hrange.trans (isInfix_data buffer), hnode⟩

/-- **The children of every branch tile its data.**  In everything that is read from a buffer:

* each branch has a range of its own in the buffer, and its children have ranges one after another
  that make up its data but for less than a header; so their words and the header of the branch
  are at most the size it declares, and less than a header below it;
* a header for each node fits in the size that the root declares, and a header for each level too;
* the bytes used are that size in whole words, and the buffer has them. -/
theorem decoded_children_tile {buffer : List UInt8} {tree : Tree} {used : Nat}
    (h : (decode buffer).result = .ok (tree, used)) :
    (∀ (header : Header) (children : List Tree) (level : Nat),
      (branch header children, level) ∈ tree.preorder →
        ∃ range : List UInt8, range <:+: buffer ∧ Tiled header children range)
      ∧ Header.width * tree.nodeCount ≤ tree.header.size.toNat
      ∧ Header.width * tree.depth ≤ tree.header.size.toNat
      ∧ used = alignUp tree.header.size.toNat ∧ used ≤ buffer.length := by
  have hcount := nodeCount_le_of_decode h
  obtain ⟨hsized, hused, htree⟩ := decode_eq_ok_iff.1 h
  refine ⟨?_, hcount, ?_, ?_, ?_⟩
  · intro header children level hmem
    have hnode : branch header children ∈ tree.nodes := by
      rw [← map_fst_preorder]
      exact List.mem_map_of_mem hmem
    obtain ⟨range, hrange, hoccupies⟩ := exists_range_of_decode h _ hnode
    exact ⟨range, hrange, hoccupies.tiled⟩
  · exact Nat.le_trans (Nat.mul_le_mul_left _ tree.depth_le_nodeCount) hcount
  · rw [header_of_ofFrame htree, hused]
    rfl
  · rw [hused]
    exact hsized.used_le

/-- A branch of 77 bytes around a text of 35: the text takes up 40 of the 45 bytes inside, and the
branch 80 in all. -/
def unalignedBuffer : List UInt8 :=
  Header.encode ⟨.blank, 77, .unknown, Kind.branch.code⟩
    ++ Header.encode ⟨.blank, 35, .unknown, Kind.text.code⟩
    ++ [97, 98, 99, 0, 0, 0, 0, 0]
    ++ List.replicate 8 0

theorem decode_unalignedBuffer :
    (decode unalignedBuffer).result = .ok
      (branch ⟨.blank, 77, .unknown, Kind.branch.code⟩
        [scalar ⟨.blank, 35, .unknown, Kind.text.code⟩ (.text "abc")], 80) := by
  have hroot : (Frame.cut unalignedBuffer).header
      = ⟨.blank, 77, .unknown, Kind.branch.code⟩ := by decide +kernel
  have htext : (Frame.cut (Frame.cut unalignedBuffer).data).header
      = ⟨.blank, 35, .unknown, Kind.text.code⟩ := by decide +kernel
  have hinside : Reads (Frame.cut unalignedBuffer).data
      [scalar ⟨.blank, 35, .unknown, Kind.text.code⟩ (.text "abc")] := by
    rw [← htext]
    refine .scalar ⟨?_, ?_⟩ ?_ (.done ?_)
    all_goals decide +kernel
  rw [decode_eq_ok_iff, ← hroot]
  refine ⟨⟨?_, ?_⟩, ?_, ofFrame_of_branch ?_ (decodeAll_eq_ok_iff.2 hinside)⟩
  all_goals decide +kernel

theorem decoded_children_tile_unaligned :
    (∃ range : List UInt8, range <:+: unalignedBuffer
        ∧ Tiled ⟨.blank, 77, .unknown, Kind.branch.code⟩
            [scalar ⟨.blank, 35, .unknown, Kind.text.code⟩ (.text "abc")] range)
      ∧ 80 ≤ unalignedBuffer.length := by
  obtain ⟨htiled, -, -, -, hused⟩ := decoded_children_tile decode_unalignedBuffer
  refine ⟨htiled _ _ 0 ?_, hused⟩
  rw [preorder, walk]
  exact List.mem_cons_self

end Tree
end SyntaxTree
