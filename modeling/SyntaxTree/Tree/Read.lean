/-
# Reading trees by recursion

The plain reading of a tree: a node that is no branch is its scalar, and a branch is the
sequence of nodes in its data.

Both calls go to shorter buffers: the data of a node lacks its header, and what follows a
node lacks the node.

The reading with a stack gives the same trees, faults and notices (`decode_eq_read`,
`decodeAll_eq_readAll`).  The step is that a stack of open branches stands for the rest of
the recursion: filling the innermost branch is reading the rest of its data and then going
on with the branches around it (`fill_eq_readAll_bind`).
-/
import SyntaxTree.Tree.Decode

namespace SyntaxTree
namespace Tree

/-! ## 1. The recursion -/

/-- Reads the nodes that fill a buffer.  Bytes too few for a header are left alone. -/
def readAll (buffer : List UInt8) : Outcome DecodeError (List Tree) :=
  if Header.width ≤ buffer.length then
    match _scanned : (Frame.scan buffer).result with
    | .error cause => ⟨(Frame.scan buffer).notices, .error cause⟩
    | .ok frame =>
      let outcome : Outcome DecodeError (List Tree) := do
        let first ←
          match Scalar.ofData frame.header frame.data with
          | some value => .ok (Tree.scalar frame.header value)
          | none => (readAll frame.data).map (Tree.branch frame.header)
        let rest ← readAll (buffer.drop frame.used)
        return first :: rest
      outcome.after (Frame.scan buffer).notices
  else .ok []
termination_by buffer.length
decreasing_by
  · have hb := Frame.bounds_of_scan _scanned
    simp only [List.length_drop]
    omega
  · have hb := Frame.bounds_of_scan _scanned
    simp only [Header.width] at hb
    omega

/-- The tree of one node. -/
def ofFrame (frame : Frame) : Outcome DecodeError Tree :=
  match Scalar.ofData frame.header frame.data with
  | some value => .ok (.scalar frame.header value)
  | none => (readAll frame.data).map (.branch frame.header)

/-- Reads the tree at the start of a buffer, and says how many bytes it takes up. -/
def read (buffer : List UInt8) : Outcome DecodeError (Tree × Nat) := do
  let frame ← Frame.scan buffer
  let tree ← ofFrame frame
  return (tree, frame.used)

theorem readAll_of_le {buffer : List UInt8} (h : Header.width ≤ buffer.length) :
    readAll buffer = do
      let frame ← Frame.scan buffer
      let first ← ofFrame frame
      let rest ← readAll (buffer.drop frame.used)
      return first :: rest := by
  rw [readAll, if_pos h]
  split
  · rename_i cause hs
    rw [Outcome.bind_of_error hs]
  · rename_i frame hs
    rw [Outcome.bind_of_ok hs, ofFrame]
    cases Scalar.ofData frame.header frame.data <;> rfl

theorem readAll_of_lt {buffer : List UInt8} (h : buffer.length < Header.width) :
    readAll buffer = .ok [] := by
  rw [readAll, if_neg (by omega)]

/-! ## 2. The stack is the rest of the recursion -/

theorem fill_of_le {current : OpenBranch} (parents : List OpenBranch)
    (h : Header.width ≤ current.rest.length) :
    fill current parents = Frame.scan current.rest >>= fun frame =>
      match Scalar.ofData frame.header frame.data with
      | some value => fill ((current.skip frame.used).push (.scalar frame.header value)) parents
      | none => fill ⟨frame.header, frame.data, []⟩ (current.skip frame.used :: parents) := by
  rw [fill.eq_def, if_pos h]
  split
  · rename_i cause hs
    rw [Outcome.bind_of_error hs]
  · rename_i frame hs
    refine Eq.trans ?_ (Outcome.bind_of_ok hs _).symm
    rfl

/-- Goes on with a finished tree: it is the result, or the next child of the branch around
it. -/
def resume (tree : Tree) : List OpenBranch → Outcome DecodeError Tree
  | [] => .ok tree
  | parent :: rest => fill (parent.push tree) rest

theorem resume_cons (tree : Tree) (parent : OpenBranch) (rest : List OpenBranch) :
    resume tree (parent :: rest) = fill (parent.push tree) rest := rfl

theorem fill_of_lt {current : OpenBranch} (parents : List OpenBranch)
    (h : current.rest.length < Header.width) :
    fill current parents = resume current.close parents := by
  rw [fill.eq_def, if_neg (by omega)]
  cases parents <;> rfl

/-- Filling a branch is reading the rest of its data, and then going on around it. -/
theorem fill_eq_readAll_bind (current : OpenBranch) (parents : List OpenBranch) :
    fill current parents = readAll current.rest >>= fun children =>
      resume (.branch current.header (current.children.reverse ++ children)) parents := by
  by_cases hw : Header.width ≤ current.rest.length
  · rw [fill_of_le parents hw, readAll_of_le hw, Outcome.bind_assoc]
    rcases hs : (Frame.scan current.rest).result with cause | frame
    · rw [Outcome.bind_of_error hs, Outcome.bind_of_error hs]
    · have hb := Frame.bounds_of_scan hs
      rw [Outcome.bind_of_ok hs, Outcome.bind_of_ok hs, ofFrame]
      congr 1
      cases Scalar.ofData frame.header frame.data with
      | some value =>
        simp only []
        rw [fill_eq_readAll_bind, Outcome.ok_bind, Outcome.bind_assoc]
        simp [OpenBranch.push, OpenBranch.skip]
      | none =>
        simp only []
        rw [fill_eq_readAll_bind, Outcome.bind_assoc, Outcome.map_bind]
        congr 1
        funext children
        simp only [resume_cons, List.reverse_nil, List.nil_append]
        rw [fill_eq_readAll_bind, Outcome.bind_assoc]
        simp [OpenBranch.push, OpenBranch.skip]
  · have hw := Nat.lt_of_not_le hw
    rw [fill_of_lt parents hw, readAll_of_lt hw, Outcome.ok_bind]
    simp [OpenBranch.close]
termination_by OpenBranch.remaining (current :: parents)
decreasing_by
  all_goals
    simp only [OpenBranch.remaining, OpenBranch.skip, OpenBranch.push, List.length_drop,
      Header.width] at *
    omega

/-! ## 3. The two readings agree -/

/-- Reading one tree with a stack is reading it by recursion. -/
theorem decode_eq_read (buffer : List UInt8) : decode buffer = read buffer := by
  unfold decode read
  congr 1
  funext frame
  rw [ofFrame]
  cases Scalar.ofData frame.header frame.data with
  | some value => rfl
  | none =>
    simp only []
    rw [fill_eq_readAll_bind, Outcome.bind_assoc, Outcome.map_bind]
    simp [resume]

theorem decodeAll_of_le {buffer : List UInt8} (h : Header.width ≤ buffer.length) :
    decodeAll buffer = do
      let (tree, used) ← decode buffer
      let rest ← decodeAll (buffer.drop used)
      return tree :: rest := by
  rw [decodeAll, if_pos h]
  split
  · rename_i cause hs
    rw [Outcome.bind_of_error hs]
  · rename_i tree used hs
    refine Eq.trans ?_ (Outcome.bind_of_ok hs _).symm
    rfl

/-- Reading the trees that fill a buffer one by one is reading them by recursion. -/
theorem decodeAll_eq_readAll (buffer : List UInt8) : decodeAll buffer = readAll buffer := by
  by_cases hw : Header.width ≤ buffer.length
  · rw [decodeAll_of_le hw, readAll_of_le hw, decode_eq_read, read, Outcome.bind_assoc]
    rcases hs : (Frame.scan buffer).result with cause | frame
    · rw [Outcome.bind_of_error hs, Outcome.bind_of_error hs]
    · have hb := Frame.bounds_of_scan hs
      rw [Outcome.bind_of_ok hs, Outcome.bind_of_ok hs, Outcome.bind_assoc]
      congr 2
      funext tree
      simp only [Outcome.pure_eq, Outcome.ok_bind]
      rw [decodeAll_eq_readAll]
  · rw [decodeAll, if_neg hw, readAll, if_neg hw]
termination_by buffer.length
decreasing_by
  simp only [List.length_drop]
  omega

end Tree
end SyntaxTree
