/-
# Reading trees

A node is a header and as many bytes of data as the header declares, rounded up to whole
words.  The data of a branch is a sequence of nodes; what is left at its end and is too short
for a header is ignored.

`decode` reads a tree with a stack of open branches, so the depth of a tree is bounded only
by its length.  Each round either reads a node, which takes at least a header off the bytes
that are left, or closes a branch: the bytes left in all open branches plus the number of
branches goes down.
-/
import SyntaxTree.Bytes.Align
import SyntaxTree.Tree.Basic

namespace SyntaxTree

/-! ## 1. One node -/

/-- A header with its data, and the number of bytes the node takes up. -/
structure Frame where
  header : Header
  data : List UInt8
  used : Nat

/-- Reads the header at the start of a buffer and cuts out its data. -/
def Frame.read (buffer : List UInt8) : Outcome DecodeError Frame := do
  let header ← Header.decode buffer
  let size := header.size.toNat
  if size < Header.width then .fail (.sizeTooSmall size)
  else if alignUp size ≤ buffer.length then
    .ok ⟨header, (buffer.take size).drop Header.width, alignUp size⟩
  else .fail (.sizeMismatch size buffer.length)

theorem Frame.bounds_of_read {buffer : List UInt8} {frame : Frame}
    (h : (Frame.read buffer).result = .ok frame) :
    frame.data.length + Header.width ≤ frame.used ∧ frame.used ≤ buffer.length
      ∧ 0 < frame.used := by
  unfold Frame.read at h
  rcases hd : Header.decode buffer with ⟨ns, _ | header⟩
  · rw [hd] at h
    exact absurd h (by simp [Bind.bind, Outcome.bind])
  · rw [hd] at h
    simp only [Bind.bind, Outcome.bind] at h
    split at h
    · simp [Outcome.fail] at h
    · split at h
      · rename_i hsmall hfit
        have hle := le_alignUp header.size.toNat
        simp only [Outcome.ok, Except.ok.injEq] at h
        subst h
        simp only [List.length_drop, List.length_take, Header.width] at hsmall ⊢
        omega
      · simp [Outcome.fail] at h

/-- A text without its trailing zero bytes. -/
def trimZeros (data : List UInt8) : List UInt8 :=
  (data.reverse.dropWhile (· == 0)).reverse

/-- The scalar in the data of a node, unless the node is a branch. -/
def Scalar.ofData (header : Header) (data : List UInt8) : Option Scalar :=
  match header.kind? with
  | some .null => some .null
  | some .leaf => some .leaf
  | some .branch => none
  | some .text => some (.text (Lossy.text (trimZeros data)))
  | some .positiveInteger =>
    if data.length = 8 then some (.integer .positive (BigEndian.decode data))
    else some (.raw .positiveInteger data)
  | some .negativeInteger =>
    if data.length = 8 then some (.integer .negative (BigEndian.decode data))
    else some (.raw .negativeInteger data)
  | some .binaryFloat =>
    if data.length = 8 then some (.real ⟨UInt64.ofNat (BigEndian.decode data)⟩)
    else some (.raw .binaryFloat data)
  | some .list => some (.unknown data)
  | some .count => some (.unknown data)
  | none => some (.unknown data)

/-- A node of a type that does not belong in a tree is worth a notice. -/
def Header.strayNotices (header : Header) : List Notice :=
  match header.kind? with
  | some kind =>
    if kind.isTransient then [.strayType header.name header.typeCode] else []
  | none => [.strayType header.name header.typeCode]

/-- Reads a node and gives notice of its type. -/
def Frame.scan (buffer : List UInt8) : Outcome DecodeError Frame := do
  let frame ← Frame.read buffer
  .notes frame.header.strayNotices
  return frame

theorem Frame.bounds_of_scan {buffer : List UInt8} {frame : Frame}
    (h : (Frame.scan buffer).result = .ok frame) :
    frame.data.length + Header.width ≤ frame.used ∧ frame.used ≤ buffer.length
      ∧ 0 < frame.used := by
  apply Frame.bounds_of_read
  unfold Frame.scan at h
  rcases hr : Frame.read buffer with ⟨ns, _ | f⟩
  · rw [hr] at h
    exact absurd h (by simp [Bind.bind, Outcome.bind])
  · rw [hr] at h
    simpa [Bind.bind, Outcome.bind, Outcome.notes, Outcome.ok] using h

/-! ## 2. With a stack -/

/-- A branch whose children are being read. -/
structure OpenBranch where
  header : Header
  /-- The data that has not been read yet. -/
  rest : List UInt8
  /-- The children so far, last one first. -/
  children : List Tree

namespace OpenBranch

/-- The branch with one more child. -/
def push (branch : OpenBranch) (child : Tree) : OpenBranch :=
  { branch with children := child :: branch.children }

/-- The branch with some of its data read. -/
def skip (branch : OpenBranch) (count : Nat) : OpenBranch :=
  { branch with rest := branch.rest.drop count }

/-- The finished branch. -/
def close (branch : OpenBranch) : Tree := .branch branch.header branch.children.reverse

/-- The bytes left in open branches, and one for each branch. -/
def remaining : List OpenBranch → Nat
  | [] => 0
  | branch :: rest => branch.rest.length + 1 + remaining rest

end OpenBranch

/-- Reads the rest of the innermost open branch, and then of those around it. -/
def Tree.fill (current : OpenBranch) (parents : List OpenBranch) : Outcome DecodeError Tree :=
  if Header.width ≤ current.rest.length then
    match _scanned : (Frame.scan current.rest).result with
    | .error cause => ⟨(Frame.scan current.rest).notices, .error cause⟩
    | .ok frame =>
      let outcome : Outcome DecodeError Tree :=
        match Scalar.ofData frame.header frame.data with
        | some value =>
          Tree.fill ((current.skip frame.used).push (.scalar frame.header value)) parents
        | none =>
          Tree.fill ⟨frame.header, frame.data, []⟩ (current.skip frame.used :: parents)
      outcome.after (Frame.scan current.rest).notices
  else
    match parents with
    | [] => .ok current.close
    | parent :: rest => Tree.fill (parent.push current.close) rest
termination_by OpenBranch.remaining (current :: parents)
decreasing_by
  · have hb := Frame.bounds_of_scan _scanned
    simp only [OpenBranch.remaining, OpenBranch.skip, OpenBranch.push, List.length_drop]
    omega
  · have hb := Frame.bounds_of_scan _scanned
    simp only [OpenBranch.remaining, OpenBranch.skip, List.length_drop, Header.width] at hb ⊢
    omega
  · simp only [OpenBranch.remaining, OpenBranch.push]
    omega

/-- Reads the tree at the start of a buffer, and says how many bytes it takes up. -/
def Tree.decode (buffer : List UInt8) : Outcome DecodeError (Tree × Nat) := do
  let frame ← Frame.scan buffer
  match Scalar.ofData frame.header frame.data with
  | some value => return (.scalar frame.header value, frame.used)
  | none =>
    let tree ← Tree.fill ⟨frame.header, frame.data, []⟩ []
    return (tree, frame.used)

theorem Tree.used_pos_of_decode {buffer : List UInt8} {tree : Tree} {used : Nat}
    (h : (Tree.decode buffer).result = .ok (tree, used)) : 0 < used ∧ used ≤ buffer.length := by
  unfold Tree.decode at h
  rcases ho : Frame.scan buffer with ⟨ns, _ | frame⟩
  · rw [ho] at h
    exact absurd h (by simp [Bind.bind, Outcome.bind])
  · have hr : (Frame.scan buffer).result = .ok frame := by rw [ho]
    have hb := Frame.bounds_of_scan hr
    rw [ho] at h
    simp only [Bind.bind, Outcome.bind] at h
    split at h
    · simp only [Outcome.pure_eq, Outcome.ok, Except.ok.injEq, Prod.mk.injEq] at h
      omega
    · split at h
      · simp at h
      · simp only [Outcome.pure_eq, Outcome.ok, Except.ok.injEq, Prod.mk.injEq] at h
        omega

/-- Reads the trees that fill a buffer. -/
def Tree.decodeAll (buffer : List UInt8) : Outcome DecodeError (List Tree) :=
  if Header.width ≤ buffer.length then
    match _decoded : (Tree.decode buffer).result with
    | .error cause => ⟨(Tree.decode buffer).notices, .error cause⟩
    | .ok (tree, used) =>
      let outcome : Outcome DecodeError (List Tree) := do
        let rest ← Tree.decodeAll (buffer.drop used)
        return tree :: rest
      outcome.after (Tree.decode buffer).notices
  else .ok []
termination_by buffer.length
decreasing_by
  have hu := Tree.used_pos_of_decode _decoded
  simp only [List.length_drop]
  omega

end SyntaxTree
