/-
# The reading with a stack is the reading by recursion

`Tree.decode` walks a tree with a stack of open branches, and `Tree.decodeAll` calls it for one
node after another.  The recursion they stand for is one line: a node that is no branch is its
scalar, and a branch is the sequence of nodes in its data.

`decode_eq_recursion` says that `decode` satisfies this line for every buffer, well-formed or
not, as an equation of whole outcomes: the same tree and the same number of bytes used, or the
same fault, after the same notices in the same order.  The data of a node is shorter than the
node, so the line leaves no second reading open.

The work is in `fill_eq_readAll_bind`: a stack of open branches is the rest of the recursion.
-/
import SyntaxTree.Tree.Read

namespace SyntaxTree

/-! ## 1. What one node is cut into -/

/-- A frame that was read is cut out of its buffer by the size in its header. -/
theorem Frame.cut_of_read {buffer : List UInt8} {frame : Frame}
    (h : (Frame.read buffer).result = .ok frame) :
    frame.data = (buffer.take frame.header.size.toNat).drop Header.width
      ∧ frame.used = alignUp frame.header.size.toNat := by
  unfold Frame.read at h
  rcases hd : Header.decode buffer with ⟨notices, _ | header⟩
  · rw [hd] at h
    exact absurd h (by simp [Bind.bind, Outcome.bind])
  · rw [hd] at h
    simp only [Bind.bind, Outcome.bind] at h
    split at h
    · exact absurd h (by simp [Outcome.fail])
    · split at h
      · obtain rfl := Except.ok.inj h
        exact ⟨rfl, rfl⟩
      · exact absurd h (by simp [Outcome.fail])

/-- Only a branch has no scalar. -/
theorem Scalar.ofData_eq_none_iff {header : Header} {data : List UInt8} :
    Scalar.ofData header data = none ↔ header.kind? = some .branch := by
  unfold Scalar.ofData
  rcases header.kind? with _ | kind
  · simp
  · cases kind <;> simp <;> split <;> simp

/-! ## 2. The recursion -/

namespace Tree

/-- One line of the recursion: the frame at the start of a buffer, and `all` for the nodes in
the data of a branch. -/
def readWith (all : List UInt8 → Outcome DecodeError (List Tree)) (buffer : List UInt8) :
    Outcome DecodeError (Tree × Nat) := do
  let frame ← Frame.read buffer
  .notes frame.header.strayNotices
  match Scalar.ofData frame.header frame.data with
  | some value => return (.scalar frame.header value, frame.used)
  | none =>
    let children ← all frame.data
    return (.branch frame.header children, frame.used)

/-- The reading by recursion, with its scan taken apart. -/
theorem read_eq_readWith (buffer : List UInt8) : read buffer = readWith readAll buffer := by
  unfold read readWith Frame.scan
  rw [Outcome.bind_assoc]
  congr 1
  funext frame
  rw [Outcome.bind_assoc]
  congr 1
  funext _
  rw [Outcome.pure_eq, Outcome.ok_bind, ofFrame]
  cases Scalar.ofData frame.header frame.data with
  | some value => rfl
  | none =>
    simp only []
    rw [Outcome.map_bind]

/-- **The reading with a stack is the reading by recursion.**  For every buffer, reading a tree
is reading the frame of its root, and then its scalar or, for a branch, all the trees in its
data: as outcomes, so with the same faults and the same notices in the same order.  The data
and the bytes used are what the size in the header says, and only a branch has no scalar. -/
theorem decode_eq_recursion (buffer : List UInt8) :
    decode buffer = readWith decodeAll buffer
      ∧ ∀ frame : Frame, (Frame.read buffer).result = .ok frame →
          frame.data = (buffer.take frame.header.size.toNat).drop Header.width
            ∧ frame.used = alignUp frame.header.size.toNat
            ∧ (Scalar.ofData frame.header frame.data = none
                ↔ frame.header.kind? = some .branch) := by
  refine ⟨?_, ?_⟩
  · rw [decode_eq_read, read_eq_readWith, funext decodeAll_eq_readAll]
  · intro frame hread
    obtain ⟨hdata, hused⟩ := Frame.cut_of_read hread
    exact ⟨hdata, hused, Scalar.ofData_eq_none_iff⟩

/-- A branch around one leaf. -/
def nestedBuffer : List UInt8 :=
  Header.encode ⟨.blank, 64, .unknown, Kind.branch.code⟩
    ++ Header.encode ⟨.blank, 32, .unknown, Kind.leaf.code⟩

theorem decode_nestedBuffer : decode nestedBuffer = readWith decodeAll nestedBuffer
    ∧ ∃ frame : Frame, (Frame.read nestedBuffer).result = .ok frame
      ∧ frame.data = (nestedBuffer.take frame.header.size.toNat).drop Header.width
      ∧ frame.used = alignUp frame.header.size.toNat
      ∧ Scalar.ofData frame.header frame.data = none := by
  have hread : (Frame.read nestedBuffer).result = .ok
      ⟨⟨.blank, 64, .unknown, Kind.branch.code⟩,
        Header.encode ⟨.blank, 32, .unknown, Kind.leaf.code⟩, 64⟩ := rfl
  obtain ⟨hdecode, hframe⟩ := decode_eq_recursion nestedBuffer
  obtain ⟨hdata, hused, hnone⟩ := hframe _ hread
  exact ⟨hdecode, _, hread, hdata, hused, hnone.2 rfl⟩

end Tree
end SyntaxTree
