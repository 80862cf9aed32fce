/-
# Outlines: what a node says, apart from its bytes

A builder keeps nodes encoded.  An outline is the same node as the calls describe it: literals
with the value that was stored, and branches with their children, lists already spliced.  Each
node carries the stamp it got when it was made: its name, its position, and the name that the
file table had for the file of that position at the time.

Two readings of an outline are defined here.  `node` is the encoded node, which a builder
makes; `tree` is the decoded tree, which a reader should give back, with the sizes computed from
the outline alone (`size`).  The main statement of this file ties them together:

* `decode_bytes`: reading the bytes of an outline's node gives its tree, takes up all the bytes
  and gives no notice.

It goes through the reading by recursion (`readAll_bytesAll`): in front of each node the reader
finds the frame of that node, and by alignment the next node starts where the frame ends.
-/
import SyntaxTree.Builder
import SyntaxTree.Proofs.HeaderCodec
import SyntaxTree.Proofs.TextRoundTrip
import SyntaxTree.Tree.Read

namespace SyntaxTree

/-! ## 1. Contents of literals -/

/-- What a literal stores. -/
inductive Content where
  | null
  | leaf
  | text (bytes : List UInt8)
  | integer (sign : Literal.Sign) (magnitude : Nat)
  | real (value : Binary64)
  deriving DecidableEq

namespace Content

/-- The kind of a literal. -/
def kind : Content → Kind
  | null => .null
  | leaf => .leaf
  | text _ => .text
  | integer sign _ => sign.kind
  | real _ => .binaryFloat

/-- The data of a literal without its padding. -/
def payload : Content → List UInt8
  | null => []
  | leaf => []
  | text bytes => bytes
  | integer _ magnitude => Literal.integerPayload magnitude
  | real value => Literal.realPayload value

/-- What a literal reads back as.  A text loses the zero bytes it ends with and what is not
UTF-8 in it; a magnitude of more than 64 bits is left as its sixteen bytes. -/
def scalar : Content → Scalar
  | null => .null
  | leaf => .leaf
  | text bytes => .text (Lossy.text (trimZeros bytes))
  | integer sign magnitude =>
    if magnitude < UInt64.size then .integer sign magnitude
    else .raw sign.kind (BigEndian.encode 16 magnitude)
  | real value => .real value

theorem kind_ne_list (content : Content) : content.kind ≠ .list := by
  rcases content with _ | _ | _ | ⟨_ | _, _⟩ | _ <;> exact Kind.noConfusion

theorem isTransient_kind (content : Content) : content.kind.isTransient = false := by
  rcases content with _ | _ | _ | ⟨_ | _, _⟩ | _ <;> rfl

/-- A number of eight bytes is not padded. -/
theorem padded_encode_eight (n : Nat) :
    padded (BigEndian.encode 8 n) = BigEndian.encode 8 n :=
  padded_of_aligned (by simp)

/-- The data of an integer reads back as the integer, or as its bytes if it is too large. -/
theorem ofData_integer {header : Header} {sign : Literal.Sign} (magnitude : Nat)
    (h : header.kind? = some sign.kind) :
    Scalar.ofData header (padded (integer sign magnitude).payload)
      = some (integer sign magnitude).scalar := by
  by_cases hm : magnitude < UInt64.size
  · have hpay : (integer sign magnitude).payload = BigEndian.encode 8 magnitude := if_pos hm
    have hback : BigEndian.decode (BigEndian.encode 8 magnitude) = magnitude :=
      BigEndian.decode_encode 8 magnitude hm
    rw [hpay, padded_encode_eight]
    cases sign <;> simp [Scalar.ofData, h, Literal.Sign.kind, hback, scalar, hm]
  · have hpay : (integer sign magnitude).payload = BigEndian.encode 16 magnitude := if_neg hm
    have hpad : padded (BigEndian.encode 16 magnitude) = BigEndian.encode 16 magnitude :=
      padded_of_aligned (by simp)
    rw [hpay, hpad]
    cases sign <;> simp [Scalar.ofData, h, Literal.Sign.kind, scalar, hm]

/-- **The data of a literal reads back as its content.** -/
theorem ofData_payload {header : Header} (content : Content)
    (h : header.kind? = some content.kind) :
    Scalar.ofData header (padded content.payload) = some content.scalar := by
  cases content with
  | null => simp [Scalar.ofData, h, kind, scalar]
  | leaf => simp [Scalar.ofData, h, kind, scalar]
  | text bytes => simp [Scalar.ofData, h, kind, scalar, payload, trimZeros_padded]
  | integer sign magnitude => exact ofData_integer magnitude h
  | real value =>
    have hback : UInt64.ofNat (BigEndian.decode (BigEndian.encode 8 value.bits.toNat))
        = value.bits := Header.decode_encode_u64 value.bits
    simp [Scalar.ofData, h, kind, scalar, payload, Literal.realPayload, padded_encode_eight,
      hback]

end Content

/-! ## 2. Outlines -/

/-- What a node is given when it is made. -/
structure Stamp where
  name : Tag
  position : Position
  /-- The name of the position's file at that time, if the table had one. -/
  file : Option String
  deriving DecidableEq

/-- A node as the calls describe it. -/
inductive Outline where
  | literal (stamp : Stamp) (content : Content)
  | branch (stamp : Stamp) (children : List Outline)

namespace Outline

/-- The stamp of the root. -/
def stamp : Outline → Stamp
  | literal stamp _ => stamp
  | branch stamp _ => stamp

/-- The kind of the root. -/
def kind : Outline → Kind
  | literal _ content => content.kind
  | branch _ _ => .branch

mutual

/-- The encoded node. -/
def node : Outline → Node
  | literal stamp content => .assemble stamp.name content.kind stamp.position content.payload
  | branch stamp children => .assemble stamp.name .branch stamp.position (bytesAll children)

/-- The encoded nodes one after another. -/
def bytesAll : List Outline → List UInt8
  | [] => []
  | outline :: rest => (node outline).bytes ++ bytesAll rest

end

mutual

/-- The number of bytes of the node: a header, and the padded payload or the children. -/
def size : Outline → Nat
  | literal _ content => Header.width + alignUp content.payload.length
  | branch _ children => Header.width + sizes children

/-- The number of bytes of several nodes. -/
def sizes : List Outline → Nat
  | [] => 0
  | outline :: rest => size outline + sizes rest

end

/-- The header of the root. -/
def header (outline : Outline) : Header :=
  .ofKind outline.stamp.name outline.kind outline.stamp.position outline.size

mutual

/-- The decoded tree. -/
def tree : Outline → Tree
  | literal stamp content => .scalar (literal stamp content).header content.scalar
  | branch stamp children => .branch (branch stamp children).header (trees children)

/-- The decoded trees. -/
def trees : List Outline → List Tree
  | [] => []
  | outline :: rest => tree outline :: trees rest

end

mutual

/-- The outline and everything below it, from the root down and from left to right. -/
def parts : Outline → List Outline
  | literal stamp content => [literal stamp content]
  | branch stamp children => branch stamp children :: partsAll children

/-- The parts of several outlines. -/
def partsAll : List Outline → List Outline
  | [] => []
  | outline :: rest => parts outline ++ partsAll rest

end

theorem trees_eq_map : ∀ outlines : List Outline, trees outlines = outlines.map tree
  | [] => rfl
  | outline :: rest => by rw [trees, trees_eq_map rest, List.map_cons]

theorem bytesAll_eq_flatMap : ∀ outlines : List Outline,
    bytesAll outlines = outlines.flatMap fun outline => outline.node.bytes
  | [] => rfl
  | outline :: rest => by rw [bytesAll, bytesAll_eq_flatMap rest, List.flatMap_cons]

theorem bytesAll_append (outlines others : List Outline) :
    bytesAll (outlines ++ others) = bytesAll outlines ++ bytesAll others := by
  simp only [bytesAll_eq_flatMap, List.flatMap_append]

theorem mem_partsAll {part : Outline} : ∀ {outlines : List Outline},
    part ∈ partsAll outlines ↔ ∃ outline ∈ outlines, part ∈ outline.parts
  | [] => by simp [partsAll]
  | outline :: rest => by
    simp only [partsAll, List.mem_append, List.mem_cons, exists_eq_or_imp]
    rw [mem_partsAll]

/-! ## 3. The encoded node -/

@[simp] theorem node_name (outline : Outline) : outline.node.name = outline.stamp.name := by
  cases outline <;> rfl

@[simp] theorem node_kind (outline : Outline) : outline.node.kind = outline.kind := by
  cases outline <;> rfl

@[simp] theorem node_position (outline : Outline) :
    outline.node.position = outline.stamp.position := by
  cases outline <;> rfl

theorem kind_ne_list (outline : Outline) : outline.kind ≠ .list := by
  cases outline with
  | literal _ content => exact content.kind_ne_list
  | branch _ _ => exact Kind.noConfusion

/-- No outline is of a kind that exists only while building. -/
theorem isTransient_kind (outline : Outline) : outline.kind.isTransient = false := by
  cases outline with
  | literal _ content => exact content.isTransient_kind
  | branch _ _ => rfl

/-- The data of a node is whole words, since it was padded. -/
theorem length_data_mod (outline : Outline) : outline.node.data.length % 8 = 0 := by
  cases outline <;> simp [node, Node.assemble]

theorem size_node_mod (outline : Outline) : outline.node.size % 8 = 0 := by
  have := outline.length_data_mod
  simp only [Node.size, Header.width]
  omega

/-- Nodes one after another are whole words, so a branch or a list adds no padding. -/
theorem length_bytesAll_mod : ∀ outlines : List Outline, (bytesAll outlines).length % 8 = 0
  | [] => rfl
  | outline :: rest => by
    have h1 := outline.size_node_mod
    have h2 := length_bytesAll_mod rest
    rw [bytesAll, List.length_append, Node.length_bytes]
    omega

theorem padded_bytesAll (outlines : List Outline) :
    padded (bytesAll outlines) = bytesAll outlines :=
  padded_of_aligned (length_bytesAll_mod outlines)

theorem data_branch (stamp : Stamp) (children : List Outline) :
    (branch stamp children).node.data = bytesAll children := padded_bytesAll children

mutual

/-- The size of the node is the size of the outline. -/
theorem size_node : ∀ outline : Outline, outline.node.size = outline.size
  | literal stamp content => by simp [node, Node.assemble, Node.size, size]
  | branch stamp children => by
    rw [Node.size, data_branch, length_bytesAll children, size]

theorem length_bytesAll : ∀ outlines : List Outline, (bytesAll outlines).length = sizes outlines
  | [] => rfl
  | outline :: rest => by
    rw [bytesAll, List.length_append, Node.length_bytes, size_node outline, length_bytesAll rest,
      sizes]

end

theorem header_node (outline : Outline) : outline.node.header = outline.header := by
  rw [Node.header, header, node_name, node_kind, node_position, size_node]

/-! ## 4. Reading it back -/

/-- What a reader finds at the start of a node of an outline. -/
theorem scan_bytes_append {outline : Outline} (h : outline.node.Fits) (rest : List UInt8) :
    Frame.scan (outline.node.bytes ++ rest)
      = .ok ⟨outline.header, outline.node.data, outline.node.size⟩ := by
  have hkind : outline.node.kind.isTransient = false := by
    rw [node_kind]
    exact outline.isTransient_kind
  rw [Node.scan_bytes_append h outline.length_data_mod hkind, header_node]

@[simp] theorem kind?_header (outline : Outline) : outline.header.kind? = some outline.kind :=
  Kind.ofCode?_code outline.kind

theorem sizes_lt_of_fits {stamp : Stamp} {children : List Outline}
    (h : (branch stamp children).node.Fits) : sizes children < UInt64.size := by
  rw [Node.Fits, size_node, size] at h
  omega

theorem fits_of_sizes_lt {outline : Outline} {rest : List Outline}
    (h : sizes (outline :: rest) < UInt64.size) :
    outline.node.Fits ∧ sizes rest < UInt64.size := by
  rw [sizes] at h
  rw [Node.Fits, size_node]
  omega

mutual

/-- The frame of a node holds the tree. -/
theorem ofFrame_node : ∀ outline : Outline, outline.node.Fits → ∀ used : Nat,
    Tree.ofFrame ⟨outline.header, outline.node.data, used⟩ = .ok outline.tree
  | literal stamp content, _, used => by
    have hdata : Scalar.ofData (literal stamp content).header (literal stamp content).node.data
        = some content.scalar := Content.ofData_payload content (kind?_header _)
    simp only [Tree.ofFrame, hdata, tree]
  | branch stamp children, hfits, used => by
    have hdata : Scalar.ofData (branch stamp children).header (bytesAll children) = none := by
      simp [Scalar.ofData, kind]
    have hsmall := sizes_lt_of_fits hfits
    simp only [Tree.ofFrame, data_branch, hdata, readAll_bytesAll children hsmall, tree]
    rfl

/-- **Nodes one after another are read as the trees one after another.** -/
theorem readAll_bytesAll : ∀ outlines : List Outline, sizes outlines < UInt64.size →
    Tree.readAll (bytesAll outlines) = .ok (trees outlines)
  | [], _ => by
    rw [bytesAll, trees, Tree.readAll_of_lt (by simp [Header.width])]
  | outline :: rest, h => by
    obtain ⟨hfits, hrest⟩ := fits_of_sizes_lt h
    have hwidth : Header.width ≤ (bytesAll (outline :: rest)).length := by
      rw [bytesAll, List.length_append, Node.length_bytes, Node.size]
      omega
    have hdrop : (outline.node.bytes ++ bytesAll rest).drop outline.node.size = bytesAll rest :=
      List.drop_left' (Node.length_bytes _)
    rw [Tree.readAll_of_le hwidth, bytesAll, scan_bytes_append hfits, Outcome.ok_bind,
      ofFrame_node outline hfits, Outcome.ok_bind, hdrop, readAll_bytesAll rest hrest,
      Outcome.ok_bind, trees]
    rfl

end

/-- **Reading the bytes of a node gives its tree**, takes up all of them and gives no
notice. -/
theorem decode_bytes {outline : Outline} (h : outline.node.Fits) :
    Tree.decode outline.node.bytes = .ok (outline.tree, outline.node.size) := by
  have hscan := scan_bytes_append h []
  rw [List.append_nil] at hscan
  rw [Tree.decode_eq_read, Tree.read, hscan, Outcome.ok_bind, ofFrame_node outline h,
    Outcome.ok_bind]
  rfl

/-! ## 5. The nodes of the tree -/

theorem header_tree (outline : Outline) : outline.tree.header = outline.header := by
  cases outline <;> rfl

mutual

/-- A walk goes through the parts of an outline before it goes on. -/
theorem map_fst_walk_cons : ∀ (outline : Outline) (level : Nat) (rest : List (Tree × Nat)),
    (Tree.walk ((outline.tree, level) :: rest)).map Prod.fst
      = outline.parts.map tree ++ (Tree.walk rest).map Prod.fst
  | literal stamp content, level, rest => by
    have hnone : (literal stamp content).tree.childrenAt level = [] := rfl
    rw [Tree.walk, hnone, List.nil_append, List.map_cons, parts]
    rfl
  | branch stamp children, level, rest => by
    have hbelow : (branch stamp children).tree.childrenAt level
        = (trees children).map fun child => (child, level + 1) := rfl
    rw [Tree.walk, hbelow, List.map_cons, map_fst_walk_append children, parts]
    rfl

theorem map_fst_walk_append : ∀ (outlines : List Outline) (level : Nat)
    (rest : List (Tree × Nat)),
    (Tree.walk ((trees outlines).map (fun child => (child, level)) ++ rest)).map Prod.fst
      = (partsAll outlines).map tree ++ (Tree.walk rest).map Prod.fst
  | [], _, _ => rfl
  | outline :: others, level, rest => by
    rw [trees, List.map_cons, List.cons_append, map_fst_walk_cons outline,
      map_fst_walk_append others, partsAll, List.map_append, List.append_assoc]

end

/-- **The nodes of an outline's tree are the trees of its parts**, in the same order. -/
theorem map_fst_preorder (outline : Outline) :
    outline.tree.preorder.map Prod.fst = outline.parts.map tree := by
  have hwalk := map_fst_walk_cons outline 0 []
  rw [Tree.walk, List.map_nil, List.append_nil] at hwalk
  exact hwalk

end Outline
end SyntaxTree
