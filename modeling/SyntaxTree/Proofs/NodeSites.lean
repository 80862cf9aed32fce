/-
# Where the nodes of a buffer are

A node starts at the front of a buffer, and the next one behind it, as long as there are bytes
enough for a header; in a branch the first one starts behind the header.  How far a node reaches
is what its header declares, rounded up to whole words, and behind a node whose size is wrong
nothing else starts.  `sites` lists in preorder, for every buffer, where the nodes are.  It looks
at headers only and takes part in no reading.

* `error?_decodeAll`, `error?_decode`: a reading fails with what is wrong with the first of these
  sites that has a wrong size, and with nothing else.
* `decodeAll_eq_ok_iff`: a reading that does not fail is a derivation of `Reads`, with one rule for
  each way a buffer goes on.  What holds of everything that is read is then an induction over these
  rules, such as that the nodes of the trees are the sites, in the same order
  (`headers_of_reads`).
-/
import SyntaxTree.Proofs.Recursion

namespace SyntaxTree

/-! ## 1. The size of one node -/

namespace Frame

/-- The frame at the front of a buffer as its header has it, whether the size is right or not. -/
def cut (buffer : List UInt8) : Frame where
  header := Header.read buffer
  data := (buffer.take (Header.read buffer).size.toNat).drop Header.width
  used := alignUp (Header.read buffer).size.toNat

/-- What is wrong with the size that the header at the front of a buffer declares. -/
def fault? (buffer : List UInt8) : Option DecodeError :=
  let declared := (Header.read buffer).size.toNat
  if declared < Header.width then some (.sizeTooSmall declared)
  else if alignUp declared ≤ buffer.length then none
  else some (.sizeMismatch declared buffer.length)

/-- The size of a node is right if it covers the header and the buffer has all of its words. -/
structure WellSized (buffer : List UInt8) : Prop where
  width_le : Header.width ≤ (Header.read buffer).size.toNat
  used_le : (cut buffer).used ≤ buffer.length

theorem fault?_eq_none_iff {buffer : List UInt8} : fault? buffer = none ↔ WellSized buffer := by
  simp only [fault?]
  constructor
  · intro h
    split at h
    · cases h
    · split at h
      · rename_i hsmall hfit
        exact ⟨Nat.le_of_not_lt hsmall, hfit⟩
      · cases h
  · rintro ⟨hwidth, hfit⟩
    exact (if_neg (Nat.not_lt_of_le hwidth)).trans (if_pos hfit)

namespace WellSized

variable {buffer : List UInt8}

theorem width_le_length (h : WellSized buffer) : Header.width ≤ buffer.length :=
  Nat.le_trans h.width_le (Nat.le_trans (le_alignUp _) h.used_le)

/-- The header and the data are the declared size. -/
theorem length_data (h : WellSized buffer) :
    (cut buffer).data.length + Header.width = (Header.read buffer).size.toNat := by
  obtain ⟨hwidth, hused⟩ := h
  have hsize := le_alignUp (Header.read buffer).size.toNat
  simp only [cut, List.length_drop, List.length_take] at hused ⊢
  omega

theorem length_data_lt (h : WellSized buffer) : (cut buffer).data.length < buffer.length := by
  have hdata := h.length_data
  have hsize := le_alignUp (Header.read buffer).size.toNat
  obtain ⟨hwidth, hused⟩ := h
  simp only [cut, Header.width] at hwidth hused hdata ⊢
  omega

theorem length_rest_lt (h : WellSized buffer) :
    (buffer.drop (cut buffer).used).length < buffer.length := by
  have hsize := le_alignUp (Header.read buffer).size.toNat
  obtain ⟨hwidth, hused⟩ := h
  simp only [cut, List.length_drop, Header.width] at hwidth hused ⊢
  omega

end WellSized

/-- Where there is a header, only its size can be wrong. -/
theorem result_scan {buffer : List UInt8} (h : Header.width ≤ buffer.length) :
    (scan buffer).result = match fault? buffer with
      | some cause => .error cause
      | none => .ok (cut buffer) := by
  have hread : (read buffer).result = match fault? buffer with
      | some cause => .error cause
      | none => .ok (cut buffer) := by
    rw [read, Header.decode, if_neg (Nat.not_lt_of_le h)]
    simp only [Bind.bind, Outcome.bind, fault?]
    split
    · rfl
    · split <;> rfl
  rw [← hread, scan]
  rcases hr : (read buffer).result with cause | frame
  · rw [Outcome.bind_of_error hr]
  · rw [Outcome.bind_of_ok hr]
    rfl

theorem result_scan_of_fault {buffer : List UInt8} (h : Header.width ≤ buffer.length)
    {cause : DecodeError} (hfault : fault? buffer = some cause) :
    (scan buffer).result = .error cause := by
  rw [result_scan h, hfault]

theorem result_scan_of_wellSized {buffer : List UInt8} (h : WellSized buffer) :
    (scan buffer).result = .ok (cut buffer) := by
  rw [result_scan h.width_le_length, fault?_eq_none_iff.2 h]

/-- A buffer too short for a header is the one other fault. -/
theorem result_scan_of_lt {buffer : List UInt8} (h : buffer.length < Header.width) :
    (scan buffer).result = .error (.tooShort buffer.length) := by
  rw [scan, read, Header.decode, if_pos h]
  rfl

theorem scan_eq_ok_iff {buffer : List UInt8} {frame : Frame} :
    (scan buffer).result = .ok frame ↔ WellSized buffer ∧ frame = cut buffer := by
  constructor
  · intro h
    by_cases hwidth : Header.width ≤ buffer.length
    · rcases hfault : fault? buffer with _ | cause
      · have hsized := fault?_eq_none_iff.1 hfault
        rw [result_scan_of_wellSized hsized] at h
        exact ⟨hsized, (Except.ok.inj h).symm⟩
      · rw [result_scan_of_fault hwidth hfault] at h
        cases h
    · rw [result_scan_of_lt (Nat.lt_of_not_le hwidth)] at h
      cases h
  · rintro ⟨hsized, rfl⟩
    exact result_scan_of_wellSized hsized

end Frame

/-- What has a scalar is no branch. -/
theorem Scalar.kind?_ne_branch {header : Header} {data : List UInt8} {value : Scalar}
    (h : Scalar.ofData header data = some value) : header.kind? ≠ some .branch := by
  intro hbranch
  rw [Scalar.ofData_eq_none_iff.2 hbranch] at h
  cases h

/-! ## 2. The sites of a buffer -/

namespace Tree

/-- The nodes in a buffer in preorder, each as what is left of the data around it where it
starts. -/
def sites (buffer : List UInt8) : List (List UInt8) :=
  if Header.width ≤ buffer.length then
    match _sized : Frame.fault? buffer with
    | some _ => [buffer]
    | none =>
      let frame := Frame.cut buffer
      let below := if frame.header.kind? = some .branch then sites frame.data else []
      buffer :: (below ++ sites (buffer.drop frame.used))
  else []
termination_by buffer.length
decreasing_by
  · exact (Frame.fault?_eq_none_iff.1 _sized).length_data_lt
  · exact (Frame.fault?_eq_none_iff.1 _sized).length_rest_lt

/-- The nodes below the one at the front of a buffer. -/
def sitesBelow (buffer : List UInt8) : List (List UInt8) :=
  if (Frame.cut buffer).header.kind? = some .branch then sites (Frame.cut buffer).data else []

/-- The node at the front of a buffer and those below it, in preorder. -/
def sitesOfFirst (buffer : List UInt8) : List (List UInt8) :=
  match Frame.fault? buffer with
  | some _ => [buffer]
  | none => buffer :: sitesBelow buffer

theorem sites_of_lt {buffer : List UInt8} (h : buffer.length < Header.width) :
    sites buffer = [] := by
  rw [sites, if_neg (Nat.not_le_of_lt h)]

theorem sites_of_fault {buffer : List UInt8} (h : Header.width ≤ buffer.length)
    {cause : DecodeError} (hfault : Frame.fault? buffer = some cause) :
    sites buffer = [buffer] := by
  rw [sites, if_pos h]
  split
  · rfl
  · rename_i hnone
    rw [hfault] at hnone
    cases hnone

theorem sites_of_wellSized {buffer : List UInt8} (h : Frame.WellSized buffer) :
    sites buffer
      = buffer :: (sitesBelow buffer ++ sites (buffer.drop (Frame.cut buffer).used)) := by
  rw [sites, if_pos h.width_le_length]
  split
  · rename_i hsome
    rw [Frame.fault?_eq_none_iff.2 h] at hsome
    cases hsome
  · rfl

/-- The ways a buffer goes on: too short for a header, a size that is wrong, or a node with what
is inside and behind it. -/
@[elab_as_elim] theorem siteInduction {motive : List UInt8 → Prop}
    (short : ∀ buffer : List UInt8, buffer.length < Header.width → motive buffer)
    (faulty : ∀ (buffer : List UInt8) (cause : DecodeError), Header.width ≤ buffer.length →
      Frame.fault? buffer = some cause → motive buffer)
    (sized : ∀ buffer : List UInt8, Frame.WellSized buffer → motive (Frame.cut buffer).data →
      motive (buffer.drop (Frame.cut buffer).used) → motive buffer)
    (buffer : List UInt8) : motive buffer := by
  induction hn : buffer.length using Nat.strongRecOn generalizing buffer with
  | ind n ih =>
    subst hn
    by_cases hwidth : Header.width ≤ buffer.length
    · rcases hfault : Frame.fault? buffer with _ | cause
      · have hsized := Frame.fault?_eq_none_iff.1 hfault
        exact sized buffer hsized (ih _ hsized.length_data_lt _ rfl)
          (ih _ hsized.length_rest_lt _ rfl)
      · exact faulty buffer cause hwidth hfault
    · exact short buffer (Nat.lt_of_not_le hwidth)

/-- Every site has bytes enough for a header, and no more than the buffer. -/
theorem length_of_mem_sites {buffer site : List UInt8} (h : site ∈ sites buffer) :
    Header.width ≤ site.length ∧ site.length ≤ buffer.length := by
  induction buffer using siteInduction with
  | short buffer hshort =>
    rw [sites_of_lt hshort] at h
    cases h
  | faulty buffer cause hwidth hfault =>
    rw [sites_of_fault hwidth hfault] at h
    obtain rfl := List.mem_singleton.1 h
    exact ⟨hwidth, Nat.le_refl _⟩
  | sized buffer hsized inside behind =>
    rw [sites_of_wellSized hsized] at h
    rcases List.mem_cons.1 h with rfl | h
    · exact ⟨hsized.width_le_length, Nat.le_refl _⟩
    rcases List.mem_append.1 h with h | h
    · rw [sitesBelow] at h
      split at h
      · have hdata := hsized.length_data_lt
        obtain ⟨hlow, hhigh⟩ := inside h
        exact ⟨hlow, by omega⟩
      · cases h
    · have hrest := hsized.length_rest_lt
      obtain ⟨hlow, hhigh⟩ := behind h
      exact ⟨hlow, by omega⟩

theorem length_of_mem_sitesOfFirst {buffer site : List UInt8}
    (hwidth : Header.width ≤ buffer.length) (h : site ∈ sitesOfFirst buffer) :
    Header.width ≤ site.length ∧ site.length ≤ buffer.length := by
  have hself : Header.width ≤ buffer.length ∧ buffer.length ≤ buffer.length :=
    ⟨hwidth, Nat.le_refl _⟩
  rw [sitesOfFirst] at h
  split at h
  · obtain rfl := List.mem_singleton.1 h
    exact hself
  · rename_i hfault
    rcases List.mem_cons.1 h with rfl | h
    · exact hself
    · apply length_of_mem_sites
      rw [sites_of_wellSized (Frame.fault?_eq_none_iff.1 hfault)]
      exact List.mem_cons_of_mem _ (List.mem_append_left _ h)

/-! ## 3. The first wrong size is the fault -/

/-- The error of a node whose own size is right comes from the nodes in its data. -/
theorem error?_ofFrame (frame : Frame) :
    (ofFrame frame).error?
      = if frame.header.kind? = some .branch then (decodeAll frame.data).error? else none := by
  rw [ofFrame, decodeAll_eq_readAll]
  rcases hvalue : Scalar.ofData frame.header frame.data with _ | value
  · rw [if_pos (Scalar.ofData_eq_none_iff.1 hvalue)]
    exact Outcome.error?_map _ _
  · rw [if_neg (Scalar.kind?_ne_branch hvalue)]
    rfl

/-- **Reading all trees fails with the first wrong size in preorder**, and only then. -/
theorem error?_decodeAll (buffer : List UInt8) :
    (decodeAll buffer).error? = (sites buffer).findSome? Frame.fault? := by
  induction buffer using siteInduction with
  | short buffer hshort =>
    rw [decodeAll_eq_readAll, readAll_of_lt hshort, sites_of_lt hshort]
    rfl
  | faulty buffer cause hwidth hfault =>
    rw [decodeAll_eq_readAll, readAll_of_le hwidth, sites_of_fault hwidth hfault,
      Outcome.error?_bind_of_error (Frame.result_scan_of_fault hwidth hfault)]
    simp [hfault]
  | sized buffer hsized inside behind =>
    have hfault := Frame.fault?_eq_none_iff.2 hsized
    -- whatever the first tree is, what follows it fails or not for itself
    have hrest : ∀ first : Tree,
        (readAll (buffer.drop (Frame.cut buffer).used) >>= fun rest =>
          (pure (first :: rest) : Outcome DecodeError (List Tree))).error?
          = (decodeAll (buffer.drop (Frame.cut buffer).used)).error? := by
      intro first
      rw [decodeAll_eq_readAll, Outcome.error?_bind_pure]
    rw [decodeAll_eq_readAll, readAll_of_le hsized.width_le_length,
      sites_of_wellSized hsized, Outcome.error?_bind_of_ok (Frame.result_scan_of_wellSized hsized),
      Outcome.error?_bind_of_const hrest, error?_ofFrame, behind, List.findSome?_cons, hfault,
      List.findSome?_append, sitesBelow]
    split
    · rw [inside]
    · rfl

/-- **Reading one tree fails with the first wrong size in preorder**, and only then, if there is a
header at all. -/
theorem error?_decode {buffer : List UInt8} (hwidth : Header.width ≤ buffer.length) :
    (decode buffer).error? = (sitesOfFirst buffer).findSome? Frame.fault? := by
  rw [decode_eq_read, read, sitesOfFirst]
  rcases hfault : Frame.fault? buffer with _ | cause
  · have hsized := Frame.fault?_eq_none_iff.1 hfault
    rw [Outcome.error?_bind_of_ok (Frame.result_scan_of_wellSized hsized),
      Outcome.error?_bind_pure, error?_ofFrame]
    simp only [List.findSome?_cons, hfault, sitesBelow]
    split
    · exact error?_decodeAll _
    · rfl
  · rw [Outcome.error?_bind_of_error (Frame.result_scan_of_fault hwidth hfault)]
    simp [hfault]

theorem error?_decode_of_lt {buffer : List UInt8} (h : buffer.length < Header.width) :
    (decode buffer).error? = some (.tooShort buffer.length) := by
  rw [decode_eq_read, read, Outcome.error?_bind_of_error (Frame.result_scan_of_lt h)]

/-! ## 4. What is read otherwise -/

/-- The trees in a buffer that has no wrong size. -/
inductive Reads : List UInt8 → List Tree → Prop
  /-- Bytes too few for a header are left alone. -/
  | done {buffer : List UInt8} (short : buffer.length < Header.width) : Reads buffer []
  | scalar {buffer : List UInt8} {value : Scalar} {rest : List Tree}
      (sized : Frame.WellSized buffer)
      (holds : Scalar.ofData (Frame.cut buffer).header (Frame.cut buffer).data = some value)
      (behind : Reads (buffer.drop (Frame.cut buffer).used) rest) :
      Reads buffer (.scalar (Frame.cut buffer).header value :: rest)
  | branch {buffer : List UInt8} {children rest : List Tree}
      (sized : Frame.WellSized buffer)
      (isBranch : (Frame.cut buffer).header.kind? = some .branch)
      (inside : Reads (Frame.cut buffer).data children)
      (behind : Reads (buffer.drop (Frame.cut buffer).used) rest) :
      Reads buffer (.branch (Frame.cut buffer).header children :: rest)

theorem ofFrame_of_scalar {frame : Frame} {value : Scalar}
    (h : Scalar.ofData frame.header frame.data = some value) :
    (ofFrame frame).result = .ok (.scalar frame.header value) := by
  rw [ofFrame, h]
  rfl

theorem ofFrame_of_branch {frame : Frame} (h : frame.header.kind? = some .branch)
    {children : List Tree} (hchildren : (decodeAll frame.data).result = .ok children) :
    (ofFrame frame).result = .ok (.branch frame.header children) := by
  rw [decodeAll_eq_readAll] at hchildren
  rw [ofFrame, Scalar.ofData_eq_none_iff.2 h]
  simp only [Outcome.map, hchildren]
  rfl

theorem cases_of_ofFrame {frame : Frame} {tree : Tree} (h : (ofFrame frame).result = .ok tree) :
    (∃ value : Scalar, Scalar.ofData frame.header frame.data = some value
        ∧ tree = .scalar frame.header value)
      ∨ frame.header.kind? = some .branch
        ∧ ∃ children : List Tree, (decodeAll frame.data).result = .ok children
          ∧ tree = .branch frame.header children := by
  rcases hvalue : Scalar.ofData frame.header frame.data with _ | value
  · rw [ofFrame, hvalue, ← decodeAll_eq_readAll] at h
    rcases hchildren : (decodeAll frame.data).result with cause | children
    · simp only [Outcome.map, hchildren] at h
      cases h
    · simp only [Outcome.map, hchildren] at h
      exact .inr ⟨Scalar.ofData_eq_none_iff.1 hvalue, children, rfl, (Except.ok.inj h).symm⟩
  · rw [ofFrame_of_scalar hvalue] at h
    exact .inl ⟨value, rfl, (Except.ok.inj h).symm⟩

/-- A tree has the header of its frame. -/
theorem header_of_ofFrame {frame : Frame} {tree : Tree} (h : (ofFrame frame).result = .ok tree) :
    tree.header = frame.header := by
  rcases cases_of_ofFrame h with ⟨value, _, rfl⟩ | ⟨_, children, _, rfl⟩ <;> rfl

theorem decode_eq_ok_iff {buffer : List UInt8} {tree : Tree} {used : Nat} :
    (decode buffer).result = .ok (tree, used)
      ↔ Frame.WellSized buffer ∧ used = (Frame.cut buffer).used
        ∧ (ofFrame (Frame.cut buffer)).result = .ok tree := by
  rw [decode_eq_read, read]
  simp only [Outcome.result_bind_eq_ok, Frame.scan_eq_ok_iff]
  constructor
  · rintro ⟨frame, ⟨hsized, rfl⟩, tree', htree, hpair⟩
    obtain ⟨rfl, rfl⟩ := Prod.mk.inj (Except.ok.inj hpair)
    exact ⟨hsized, rfl, htree⟩
  · rintro ⟨hsized, rfl, htree⟩
    exact ⟨_, ⟨hsized, rfl⟩, tree, htree, rfl⟩

theorem decodeAll_eq_ok_cons_iff {buffer : List UInt8} (hwidth : Header.width ≤ buffer.length)
    {trees : List Tree} :
    (decodeAll buffer).result = .ok trees
      ↔ ∃ first rest, trees = first :: rest ∧ Frame.WellSized buffer
        ∧ (ofFrame (Frame.cut buffer)).result = .ok first
        ∧ (decodeAll (buffer.drop (Frame.cut buffer).used)).result = .ok rest := by
  rw [decodeAll_eq_readAll, readAll_of_le hwidth]
  simp only [Outcome.result_bind_eq_ok, Frame.scan_eq_ok_iff, ← decodeAll_eq_readAll]
  constructor
  · rintro ⟨frame, ⟨hsized, rfl⟩, first, hfirst, rest, hrest, hcons⟩
    exact ⟨first, rest, (Except.ok.inj hcons).symm, hsized, hfirst, hrest⟩
  · rintro ⟨first, rest, rfl, hsized, hfirst, hrest⟩
    exact ⟨_, ⟨hsized, rfl⟩, first, hfirst, rest, hrest, rfl⟩

/-- A reading that does not fail follows the rules. -/
theorem reads_of_decodeAll {buffer : List UInt8} {trees : List Tree}
    (h : (decodeAll buffer).result = .ok trees) : Reads buffer trees := by
  induction buffer using siteInduction generalizing trees with
  | short buffer hshort =>
    rw [decodeAll_eq_readAll, readAll_of_lt hshort] at h
    obtain rfl := Except.ok.inj h
    exact .done hshort
  | faulty buffer cause hwidth hfault =>
    rw [decodeAll_eq_ok_cons_iff hwidth] at h
    obtain ⟨_, _, _, hsized, _⟩ := h
    rw [Frame.fault?_eq_none_iff.2 hsized] at hfault
    cases hfault
  | sized buffer hsized inside behind =>
    rw [decodeAll_eq_ok_cons_iff hsized.width_le_length] at h
    obtain ⟨first, rest, rfl, _, hfirst, hrest⟩ := h
    rcases cases_of_ofFrame hfirst with ⟨value, hvalue, rfl⟩ | ⟨hbranch, children, hchildren, rfl⟩
    · exact .scalar hsized hvalue (behind hrest)
    · exact .branch hsized hbranch (inside hchildren) (behind hrest)

/-- **A buffer is read as the trees that the rules give, and only so.** -/
theorem decodeAll_eq_ok_iff {buffer : List UInt8} {trees : List Tree} :
    (decodeAll buffer).result = .ok trees ↔ Reads buffer trees := by
  refine ⟨reads_of_decodeAll, ?_⟩
  intro h
  induction h with
  | done short =>
    rw [decodeAll_eq_readAll, readAll_of_lt short]
    rfl
  | scalar sized holds _ ih =>
    rw [decodeAll_eq_ok_cons_iff sized.width_le_length]
    exact ⟨_, _, rfl, sized, ofFrame_of_scalar holds, ih⟩
  | branch sized isBranch _ _ ihInside ihBehind =>
    rw [decodeAll_eq_ok_cons_iff sized.width_le_length]
    exact ⟨_, _, rfl, sized, ofFrame_of_branch isBranch ihInside, ihBehind⟩

/-! ## 5. The nodes of a tree -/

mutual

/-- A tree and the trees below it in preorder. -/
def nodes : Tree → List Tree
  | scalar header value => [scalar header value]
  | branch header children => branch header children :: nodesAll children

/-- Several trees and the trees below them in preorder. -/
def nodesAll : List Tree → List Tree
  | [] => []
  | tree :: rest => nodes tree ++ nodesAll rest

end

theorem nodes_eq (tree : Tree) : tree.nodes = tree :: nodesAll tree.children := by
  cases tree <;> simp [nodes, nodesAll, children]

theorem nodesAll_eq_flatMap (trees : List Tree) : nodesAll trees = trees.flatMap nodes := by
  induction trees with
  | nil => rfl
  | cons tree rest ih => rw [nodesAll, ih, List.flatMap_cons]

/-- The walk with pending nodes goes through the same trees. -/
theorem map_fst_walk (pending : List (Tree × Nat)) :
    (walk pending).map Prod.fst = nodesAll (pending.map Prod.fst) := by
  fun_induction walk pending with
  | case1 => rfl
  | case2 tree level rest ih =>
    simp only [nodesAll_eq_flatMap] at ih ⊢
    rw [List.map_cons, ih, List.map_append, map_fst_childrenAt, List.flatMap_append, List.map_cons,
      List.flatMap_cons, nodes_eq, nodesAll_eq_flatMap, List.cons_append]

theorem map_fst_preorder (tree : Tree) : tree.preorder.map Prod.fst = tree.nodes := by
  rw [preorder, map_fst_walk, List.map_singleton, nodesAll, nodesAll, List.append_nil]

/-- **The nodes that are read are the sites**, in the same order. -/
theorem headers_of_reads {buffer : List UInt8} {trees : List Tree} (h : Reads buffer trees) :
    (nodesAll trees).map header = (sites buffer).map Header.read := by
  induction h with
  | done short =>
    rw [sites_of_lt short]
    rfl
  | scalar sized holds _ ih =>
    rw [sites_of_wellSized sized, sitesBelow, if_neg (Scalar.kind?_ne_branch holds), nodesAll,
      nodes, List.map_append, ih]
    rfl
  | branch sized isBranch _ _ ihInside ihBehind =>
    rw [sites_of_wellSized sized, sitesBelow, if_pos isBranch, nodesAll, nodes, List.map_append,
      ihBehind, List.map_cons, ihInside]
    simp [header, Frame.cut]

theorem headers_of_decode {buffer : List UInt8} {tree : Tree} {used : Nat}
    (h : (decode buffer).result = .ok (tree, used)) :
    tree.nodes.map header = (sitesOfFirst buffer).map Header.read := by
  obtain ⟨hsized, -, htree⟩ := decode_eq_ok_iff.1 h
  rw [sitesOfFirst, Frame.fault?_eq_none_iff.2 hsized]
  simp only [sitesBelow]
  rcases cases_of_ofFrame htree with ⟨value, hvalue, rfl⟩ | ⟨hbranch, children, hchildren, rfl⟩
  · rw [if_neg (Scalar.kind?_ne_branch hvalue), nodes]
    rfl
  · rw [if_pos hbranch, nodes, List.map_cons, headers_of_reads (reads_of_decodeAll hchildren)]
    rfl

end Tree
end SyntaxTree
