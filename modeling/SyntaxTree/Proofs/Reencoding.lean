/-
# A tree determines its file

Reading a node forgets things: the padding, the zero bytes a text ends with, what is not UTF-8 in
it, the reserved bytes and the rest of a branch too short for a header.  This file proves that of
a file that was built nothing is lost (`bytes_eq_of_decode_eq`): two built nodes that are read as
the same tree are the same bytes, as long as their texts are well-formed.

The proof is to write the tree back.  `Tree.bytes` is a writer that sees the tree only, and it
gives back the bytes of every outline (`bytes_tree`).

* What was cut off a text can be made up from the size in the header: it was zero bytes, some of
  the text and some of padding, and only their number is missing (`zeroFilled_trimZeros`).
* A text that is not well-formed is read with replacements, and these can not be undone.  This is
  what `Outline.WellFormedTexts` is for.
* A branch leaves no rest, since its data is whole nodes.
-/
import SyntaxTree.Proofs.RoundTrip

namespace SyntaxTree

/-! ## 1. Writing a tree back -/

/-- `data` followed by zero bytes up to a length. -/
def zeroFilled (length : Nat) (data : List UInt8) : List UInt8 :=
  data ++ List.replicate (length - data.length) 0

/-- The data of a scalar, of which the length is known. -/
def Scalar.data (length : Nat) : Scalar → List UInt8
  | null => []
  | leaf => []
  | text value => zeroFilled length (Utf8.ofString value)
  | integer _ magnitude => BigEndian.encode 8 magnitude
  | real value => BigEndian.encode 8 value.bits.toNat
  | raw _ bytes => bytes
  | unknown bytes => bytes

namespace Tree

mutual

/-- The bytes of a tree: its header, and its scalar or its children. -/
def bytes : Tree → List UInt8
  | scalar header value => header.encode ++ value.data (header.size.toNat - Header.width)
  | branch header children => header.encode ++ bytesAll children

/-- The bytes of several trees one after another. -/
def bytesAll : List Tree → List UInt8
  | [] => []
  | tree :: rest => bytes tree ++ bytesAll rest

end

end Tree

/-! ## 2. Texts -/

/-- Whether bytes are UTF-8: the encoding of some characters. -/
def Utf8.WellFormed (bytes : List UInt8) : Prop := ∃ text : String, bytes = Utf8.ofString text

/-- Filling up undoes the cutting off of zero bytes. -/
theorem zeroFilled_trimZeros (data : List UInt8) :
    zeroFilled data.length (trimZeros data) = data := by
  obtain ⟨reversed, rfl⟩ : ∃ reversed : List UInt8, data = reversed.reverse :=
    ⟨data.reverse, (List.reverse_reverse data).symm⟩
  induction reversed with
  | nil => rfl
  | cons byte rest ih =>
    rw [List.reverse_cons]
    by_cases hzero : byte = 0
    · have hle : (trimZeros rest.reverse).length ≤ rest.reverse.length := by
        have hlength := congrArg List.length ih
        rw [zeroFilled, List.length_append] at hlength
        omega
      have hmore : (rest.reverse ++ [byte]).length - (trimZeros rest.reverse).length
          = rest.reverse.length - (trimZeros rest.reverse).length + 1 := by
        rw [List.length_append, List.length_singleton]
        omega
      rw [hzero, trimZeros_append_zero, zeroFilled, ← hzero, hmore, List.replicate_succ',
        ← List.append_assoc, hzero]
      exact congrArg (· ++ [0]) ih
    · rw [trimZeros_append_of_ne_zero _ hzero, zeroFilled, Nat.sub_self, List.replicate_zero,
        List.append_nil]

/-- A well-formed text can be made up from what is read of it. -/
theorem ofString_text_trimZeros {bytes : List UInt8} (h : Utf8.WellFormed bytes) :
    Utf8.ofString (Lossy.text (trimZeros bytes)) = trimZeros bytes := by
  obtain ⟨text, rfl⟩ := h
  rw [text_trimZeros_ofString, trimNuls, Utf8.ofString, Utf8.ofString, String.toList_ofList,
    trimZeros_ofChars]

namespace Content

/-- Whether the content is no text or a well-formed one. -/
def WellFormed : Content → Prop
  | text bytes => Utf8.WellFormed bytes
  | _ => True

/-- **What is read of a literal gives its data back**, if its length is known. -/
theorem data_scalar {content : Content} (h : content.WellFormed) :
    content.scalar.data (padded content.payload).length = padded content.payload := by
  cases content with
  | null => rfl
  | leaf => rfl
  | text bytes =>
    rw [scalar, Scalar.data, ofString_text_trimZeros h, ← trimZeros_padded]
    exact zeroFilled_trimZeros (padded bytes)
  | integer sign magnitude =>
    by_cases hsmall : magnitude < UInt64.size
    · have hpayload : (integer sign magnitude).payload = BigEndian.encode 8 magnitude :=
        if_pos hsmall
      rw [scalar, if_pos hsmall, hpayload, padded_encode_eight]
      rfl
    · have hpayload : (integer sign magnitude).payload = BigEndian.encode 16 magnitude :=
        if_neg hsmall
      rw [scalar, if_neg hsmall, hpayload, padded_of_aligned (by simp)]
      rfl
  | real value =>
    have hpayload : (real value).payload = BigEndian.encode 8 value.bits.toNat := rfl
    rw [scalar, hpayload, padded_encode_eight]
    rfl

end Content

/-! ## 3. Outlines -/

namespace Outline

/-- Whether the node itself is no text or a well-formed one. -/
def WellFormedText : Outline → Prop
  | literal _ content => content.WellFormed
  | branch _ _ => True

/-- Whether every text in the outline, at any depth, is well-formed. -/
def WellFormedTexts (outline : Outline) : Prop := ∀ part ∈ outline.parts, part.WellFormedText

theorem WellFormedTexts.children {stamp : Stamp} {children : List Outline}
    (h : (branch stamp children).WellFormedTexts) : ∀ child ∈ children, child.WellFormedTexts := by
  intro child hchild part hpart
  exact h part (List.mem_cons_of_mem _ (mem_partsAll.2 ⟨child, hchild, hpart⟩))

theorem bytes_node (outline : Outline) :
    outline.node.bytes = outline.header.encode ++ outline.node.data := by
  rw [Node.bytes, header_node]

mutual

/-- **The tree of an outline, written back, is the node.** -/
theorem bytes_tree : ∀ outline : Outline, outline.node.Fits → outline.WellFormedTexts →
    outline.tree.bytes = outline.node.bytes
  | literal stamp content, hfits, htexts => by
    have hself : content.WellFormed := htexts _ List.mem_cons_self
    have hsize : (literal stamp content).header.size.toNat - Header.width
        = (padded content.payload).length := by
      rw [← header_node, Node.header_size_toNat hfits, Node.size, Nat.add_sub_cancel_left]
      rfl
    rw [bytes_node, tree, Tree.bytes, hsize, Content.data_scalar hself]
    rfl
  | branch stamp children, hfits, htexts => by
    rw [bytes_node, tree, Tree.bytes, data_branch,
      bytesAll_trees children (sizes_lt_of_fits hfits) htexts.children]

theorem bytesAll_trees : ∀ outlines : List Outline, sizes outlines < UInt64.size →
    (∀ outline ∈ outlines, outline.WellFormedTexts) →
    Tree.bytesAll (trees outlines) = bytesAll outlines
  | [], _, _ => rfl
  | outline :: rest, hsmall, htexts => by
    obtain ⟨hfits, hrest⟩ := fits_of_sizes_lt hsmall
    obtain ⟨hself, hothers⟩ := List.forall_mem_cons.1 htexts
    rw [trees, Tree.bytesAll, bytes_tree outline hfits hself, bytesAll_trees rest hrest hothers,
      bytesAll]

end

end Outline

/-! ## 4. Built nodes -/

/-- Some run of some builder makes the node, and describes it by the outline.  A list has no
outline, so the node is none. -/
def Node.BuiltAs (node : Node) (outline : Outline) : Prop :=
  ∃ (start : Builder) (steps : List (Action × Option String)) (action : Action),
    (((Session.ofBuilder start).run steps).perform action).1.result = .ok (.value (.node node))
      ∧ (((Draft.ofBuilder start).run steps).perform action).1 = some (.node outline)

/-- Every node that a run makes is described by some outline, unless it is a list. -/
theorem Node.exists_builtAs {start : Builder} {steps : List (Action × Option String)}
    {action : Action} {node : Node}
    (hmade : (((Session.ofBuilder start).run steps).perform action).1.result
      = .ok (.value (.node node)))
    (hkind : node.kind ≠ .list) : ∃ outline : Outline, node.BuiltAs outline := by
  obtain ⟨sketch, hsketch, hvalue⟩ := Draft.sketch_of_made hmade
  obtain ⟨outline, rfl, rfl⟩ := Sketch.eq_node_of_value hvalue hkind
  exact ⟨outline, start, steps, action, hmade, hsketch⟩

/-- A built node is the encoding of its outline. -/
theorem Node.BuiltAs.eq_node {node : Node} {outline : Outline} (h : node.BuiltAs outline) :
    node = outline.node := by
  obtain ⟨start, steps, action, hmade, hsketch⟩ := h
  obtain ⟨sketch, hsame, hvalue⟩ := Draft.sketch_of_made hmade
  rw [hsketch] at hsame
  obtain rfl := Option.some.inj hsame
  exact (Value.node.inj hvalue).symm

/-- Reading a built node and writing the tree back gives the bytes of the node. -/
theorem Node.BuiltAs.bytes_of_decode {node : Node} {outline : Outline} {tree : Tree} {used : Nat}
    (h : node.BuiltAs outline) (hfits : node.Fits) (htexts : outline.WellFormedTexts)
    (hdecode : (Tree.decode node.bytes).result = .ok (tree, used)) : tree.bytes = node.bytes := by
  obtain rfl := h.eq_node
  rw [Outline.decode_bytes hfits] at hdecode
  obtain ⟨rfl, -⟩ := Prod.mk.inj (Except.ok.inj hdecode)
  exact Outline.bytes_tree outline hfits htexts

/-- **The decoded tree determines the file.**  Two nodes built in any runs of any builders, whose
texts are well-formed, are the same bytes if they are read as the same tree. -/
theorem bytes_eq_of_decode_eq {first second : Node} {firstOutline secondOutline : Outline}
    (hfirst : first.BuiltAs firstOutline) (hsecond : second.BuiltAs secondOutline)
    (hfirstFits : first.Fits) (hsecondFits : second.Fits)
    (hfirstTexts : firstOutline.WellFormedTexts) (hsecondTexts : secondOutline.WellFormedTexts)
    {tree : Tree} {firstUsed secondUsed : Nat}
    (hfirstTree : (Tree.decode first.bytes).result = .ok (tree, firstUsed))
    (hsecondTree : (Tree.decode second.bytes).result = .ok (tree, secondUsed)) :
    first.bytes = second.bytes := by
  have hback := hfirst.bytes_of_decode hfirstFits hfirstTexts hfirstTree
  have hforth := hsecond.bytes_of_decode hsecondFits hsecondTexts hsecondTree
  exact hback.symm.trans hforth

/-- A branch of one text, at the start of an input without a name. -/
def textOutline (payload : List UInt8) : Outline :=
  .branch ⟨.ofBytes [0x62], ⟨Position.unknownNumber, 1, 1⟩, none⟩
    [.literal ⟨.ofBytes [0x61], ⟨Position.unknownNumber, 1, 1⟩, none⟩ (.text payload)]

/-- The text as a child of the branch. -/
theorem builtAs_direct : (textOutline [0x7A, 0, 0]).node.BuiltAs (textOutline [0x7A, 0, 0]) :=
  ⟨.ofSettings .standard, [(.text (.ofBytes [0x61]) [0x7A, 0, 0], some "x")],
    .branch (.ofBytes [0x62]) [some "x"], rfl, rfl⟩

/-- The text as a child in a list, beside a pass. -/
theorem builtAs_grouped : (textOutline [0x7A]).node.BuiltAs (textOutline [0x7A]) :=
  ⟨.ofSettings .standard,
    [(.text (.ofBytes [0x61]) [0x7A], some "x"), (.list [some "x", none], some "group")],
    .branch (.ofBytes [0x62]) [none, some "group"], rfl, rfl⟩

theorem wellFormedTexts_textOutline (text : String) :
    (textOutline (Utf8.ofString text)).WellFormedTexts := by
  intro part hpart
  rcases List.mem_cons.1 hpart with rfl | hpart
  · trivial
  · obtain rfl := List.mem_singleton.1 hpart
    exact ⟨text, rfl⟩

/-- Two runs that store different texts, which differ in zero bytes at the end. -/
theorem bytes_eq_of_decode_eq_texts :
    (textOutline [0x7A, 0, 0]).node.BuiltAs (textOutline [0x7A, 0, 0])
      ∧ (textOutline [0x7A]).node.BuiltAs (textOutline [0x7A])
      ∧ (textOutline [0x7A, 0, 0]).node.Fits ∧ (textOutline [0x7A]).node.Fits
      ∧ (textOutline [0x7A, 0, 0]).WellFormedTexts ∧ (textOutline [0x7A]).WellFormedTexts
      ∧ (∃ (tree : Tree) (used : Nat),
          (Tree.decode (textOutline [0x7A, 0, 0]).node.bytes).result = .ok (tree, used)
            ∧ (Tree.decode (textOutline [0x7A]).node.bytes).result = .ok (tree, used))
      ∧ (textOutline [0x7A, 0, 0]).node.bytes = (textOutline [0x7A]).node.bytes := by
  have hlongFits : (textOutline [0x7A, 0, 0]).node.Fits := by decide +kernel
  have hshortFits : (textOutline [0x7A]).node.Fits := by decide +kernel
  have hlongTexts : (textOutline [0x7A, 0, 0]).WellFormedTexts :=
    wellFormedTexts_textOutline "z\x00\x00"
  have hshortTexts : (textOutline [0x7A]).WellFormedTexts := wellFormedTexts_textOutline "z"
  have hlong : (Tree.decode (textOutline [0x7A, 0, 0]).node.bytes).result
      = .ok ((textOutline [0x7A]).tree, 72) := by
    rw [Outline.decode_bytes hlongFits]
    rfl
  have hshort : (Tree.decode (textOutline [0x7A]).node.bytes).result
      = .ok ((textOutline [0x7A]).tree, 72) := by
    rw [Outline.decode_bytes hshortFits]
    rfl
  exact ⟨builtAs_direct, builtAs_grouped, hlongFits, hshortFits, hlongTexts, hshortTexts,
    ⟨_, _, hlong, hshort⟩, bytes_eq_of_decode_eq builtAs_direct builtAs_grouped hlongFits
      hshortFits hlongTexts hshortTexts hlong hshort⟩

end SyntaxTree
