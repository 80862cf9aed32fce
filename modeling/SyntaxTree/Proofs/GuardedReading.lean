/-
# Reading with every index checked

`Tree.decode` cuts lists of bytes and counts with numbers that have no bound.  A slice past the
end of a list is a shorter list, a difference below zero is zero, and no sum is too large.  This
file is about the same reading where each of these stops the program.

`Guarded` reads with offsets into buffers, in words of 64 bits: every slice says where it starts
and stops, every sum must be a word and every difference must exist.  Its loops have a number of
turns and stop with `Halt.endless` when they need more.

* For buffers below `2 ^ 63` bytes no check ever fails, and as many turns as there are bytes are
  enough: `Guarded.decode` and `Guarded.decodeAll` are the plain readings, faults and notices
  included (`decode_eq`, `decodeAll_eq`).

The work is in the loop over open branches.  Its invariant is that every offset lies within the
data it goes into (`Span.Sound`).  A turn keeps it, and takes something off the bytes left in the
open branches plus the number of these branches.

A declared size is any word, so rounding it up may pass the word.  It is rounded only after it
was compared with the buffer, and this order is all that keeps the sum in range (`frame_eq`).
-/
import Mathlib.Algebra.Group.Nat.Defs
import Mathlib.Data.List.Induction
import SyntaxTree.Proofs.HeaderCodec
import SyntaxTree.Proofs.TextRoundTrip
import SyntaxTree.Tree.Read

namespace SyntaxTree

/-- What ends a reading early. -/
inductive Halt where
  /-- A sum that is no word. -/
  | overflow
  /-- A difference below zero. -/
  | underflow
  /-- Bytes that the buffer does not have. -/
  | outside
  /-- More turns than allowed. -/
  | endless
  /-- The bytes are not a tree. -/
  | fault (cause : DecodeError)
  deriving DecidableEq

namespace Guarded

/-! ## 1. Words and slices -/

/-- The sum of two words. -/
def add (a b : Nat) : Outcome Halt Nat := if a + b < 2 ^ 64 then .ok (a + b) else .fail .overflow

/-- The difference of two words. -/
def sub (a b : Nat) : Outcome Halt Nat := if b ≤ a then .ok (a - b) else .fail .underflow

/-- The bytes from `start` up to `stop`. -/
def slice (bytes : List UInt8) (start stop : Nat) : Outcome Halt (List UInt8) :=
  if start ≤ stop ∧ stop ≤ bytes.length then .ok ((bytes.take stop).drop start)
  else .fail .outside

/-- One byte. -/
def byteAt (bytes : List UInt8) (index : Nat) : Outcome Halt UInt8 :=
  match bytes[index]? with
  | some byte => .ok byte
  | none => .fail .outside

/-- A length rounded up to whole words of eight bytes. -/
def roundUp (length : Nat) : Outcome Halt Nat := do
  let sum ← add length 8
  let last ← sub sum 1
  return last / 8 * 8

theorem add_of_lt {a b : Nat} (h : a + b < 2 ^ 64) : add a b = .ok (a + b) := if_pos h

theorem sub_of_le {a b : Nat} (h : b ≤ a) : sub a b = .ok (a - b) := if_pos h

theorem slice_of_le {bytes : List UInt8} {start stop : Nat} (hstart : start ≤ stop)
    (hstop : stop ≤ bytes.length) : slice bytes start stop = .ok ((bytes.take stop).drop start) :=
  if_pos ⟨hstart, hstop⟩

/-- A slice to the end is what is left behind its start. -/
theorem slice_to_end {bytes : List UInt8} {start : Nat} (h : start ≤ bytes.length) :
    slice bytes start bytes.length = .ok (bytes.drop start) := by
  rw [slice_of_le h (Nat.le_refl _), List.take_length]

theorem roundUp_of_lt {length : Nat} (h : length < 2 ^ 63) :
    roundUp length = .ok (alignUp length) := by
  rw [roundUp, add_of_lt (by omega), Outcome.ok_bind, sub_of_le (by omega), Outcome.ok_bind]
  rfl

/-! ## 2. One node -/

/-- Reads the header at the start of a buffer, field by field. -/
def header (buffer : List UInt8) : Outcome Halt Header :=
  if buffer.length < Header.width then .fail (.fault (.tooShort buffer.length))
  else do
    let name ← slice buffer 0 8
    let size ← slice buffer 8 16
    let file ← slice buffer 16 20
    let line ← slice buffer 20 24
    let column ← slice buffer 24 28
    let typeCode ← byteAt buffer 31
    let header : Header :=
      { name := Tag.ofBytes name
        size := UInt64.ofNat (BigEndian.decode size)
        position :=
          { file := UInt32.ofNat (BigEndian.decode file)
            line := UInt32.ofNat (BigEndian.decode line)
            column := UInt32.ofNat (BigEndian.decode column) }
        typeCode }
    let reserved ← slice buffer 28 31
    .notes (if reserved.any (· != 0) then [Notice.reservedBytes header.name] else [])
    return header

/-- Reads the header at the start of a buffer and cuts out its data. -/
def frame (buffer : List UInt8) : Outcome Halt Frame := do
  let header ← header buffer
  let size := header.size.toNat
  let mismatch : Outcome Halt Frame := .fail (.fault (.sizeMismatch size buffer.length))
  if size < Header.width then .fail (.fault (.sizeTooSmall size))
  -- a size beyond the buffer is not rounded, since that may not be a word
  else if size ≤ buffer.length then do
    let used ← roundUp size
    if used ≤ buffer.length then do
      let data ← slice buffer Header.width size
      return ⟨header, data, used⟩
    else mismatch
  else mismatch

/-- The index of the last byte that is not zero. -/
def lastNonZero? (data : List UInt8) : Option Nat :=
  (data.reverse.findIdx? (· != 0)).map fun index => data.length - 1 - index

/-- A text up to its last byte that is not zero. -/
def text (data : List UInt8) : Outcome Halt (List UInt8) :=
  match lastNonZero? data with
  | none => slice data 0 0
  | some last => do
    let stop ← add last 1
    slice data 0 stop

/-- The scalar in the data of a node, unless the node is a branch.  Only a text is cut. -/
def scalar (header : Header) (data : List UInt8) : Outcome Halt (Option Scalar) :=
  match header.kind? with
  | some .text => do
    let bytes ← text data
    return some (.text (Lossy.text bytes))
  | _ => .ok (Scalar.ofData header data)

theorem slice_field {buffer : List UInt8} {start stop : Nat} (hstart : start ≤ stop)
    (hstop : stop ≤ buffer.length) :
    slice buffer start stop = .ok (Header.field buffer start (stop - start)) := by
  rw [slice_of_le hstart hstop, List.drop_take]
  rfl

theorem byteAt_field {buffer : List UInt8} {index : Nat} (h : index < buffer.length) :
    byteAt buffer index
      = .ok (UInt8.ofNat (BigEndian.decode (Header.field buffer index 1))) := by
  have hfield : Header.field buffer index 1 = [buffer[index]] := by
    rw [Header.field, List.drop_eq_getElem_cons h]
    rfl
  rw [byteAt, List.getElem?_eq_getElem h, hfield, Header.decode_singleton]

theorem header_eq (buffer : List UInt8) :
    header buffer = (Header.decode buffer).mapError .fault := by
  unfold header Header.decode
  by_cases h : buffer.length < Header.width
  · rw [if_pos h, if_pos h, Outcome.mapError_fail]
  · have hlength : 32 ≤ buffer.length := Nat.le_of_not_lt h
    rw [if_neg h, if_neg h, slice_field (by omega) (by omega), slice_field (by omega) (by omega),
      slice_field (by omega) (by omega), slice_field (by omega) (by omega),
      slice_field (by omega) (by omega), slice_field (by omega) (by omega),
      byteAt_field (by omega)]
    simp only [Outcome.ok_bind, Outcome.notes_bind]
    simp [Outcome.mapError, Header.read, Header.reserved, Outcome.ok]

/-- The declared size is compared with the buffer before it is rounded, so the rounding stays in
a word for every size there is. -/
theorem frame_eq {buffer : List UInt8} (hshort : buffer.length < 2 ^ 63) :
    frame buffer = (Frame.read buffer).mapError .fault := by
  rw [frame, Frame.read, Outcome.mapError_bind, header_eq]
  congr 1
  funext header
  by_cases hsmall : header.size.toNat < Header.width
  · simp only [if_pos hsmall, Outcome.mapError_fail]
  · simp only [if_neg hsmall]
    have hwidth := Nat.le_of_not_lt hsmall
    have hround := le_alignUp header.size.toNat
    by_cases hsize : header.size.toNat ≤ buffer.length
    · rw [if_pos hsize, roundUp_of_lt (by omega), Outcome.ok_bind]
      by_cases hfit : alignUp header.size.toNat ≤ buffer.length
      · rw [if_pos hfit, if_pos hfit, slice_of_le hwidth hsize, Outcome.ok_bind]
        rfl
      · rw [if_neg hfit, if_neg hfit, Outcome.mapError_fail]
    · rw [if_neg hsize, if_neg (by omega), Outcome.mapError_fail]

theorem lastNonZero?_append_zero (data : List UInt8) :
    lastNonZero? (data ++ [0]) = lastNonZero? data := by
  simp only [lastNonZero?, List.reverse_append, List.reverse_singleton, List.singleton_append,
    List.findIdx?_cons, bne_self_eq_false, Bool.false_eq_true, if_false, Option.map_map]
  congr 1
  funext index
  simp only [Function.comp_apply, List.length_append, List.length_singleton]
  omega

theorem lastNonZero?_append_of_ne_zero (data : List UInt8) {b : UInt8} (h : b ≠ 0) :
    lastNonZero? (data ++ [b]) = some data.length := by
  simp [lastNonZero?, List.findIdx?_cons, h]

/-- The last byte that is not zero is where the text without its zeros ends. -/
theorem lastNonZero?_spec (data : List UInt8) :
    (lastNonZero? data = none ∧ trimZeros data = [])
      ∨ ∃ last : Nat, lastNonZero? data = some last ∧ last < data.length
          ∧ data.take (last + 1) = trimZeros data := by
  induction data using List.reverseRecOn with
  | nil => exact .inl ⟨rfl, rfl⟩
  | append_singleton data b ih =>
    by_cases hb : b = 0
    · subst hb
      rw [lastNonZero?_append_zero, trimZeros_append_zero]
      rcases ih with hnone | ⟨last, hlast, hlt, htake⟩
      · exact .inl hnone
      · refine .inr ⟨last, hlast, ?_, ?_⟩
        · simp only [List.length_append]
          omega
        · rw [List.take_append_of_le_length (by omega), htake]
    · refine .inr ⟨data.length, lastNonZero?_append_of_ne_zero data hb, by simp, ?_⟩
      rw [trimZeros_append_of_ne_zero data hb]
      exact List.take_of_length_le (by simp)

theorem text_eq {data : List UInt8} (hshort : data.length < 2 ^ 63) :
    text data = .ok (trimZeros data) := by
  rcases lastNonZero?_spec data with ⟨hnone, htrim⟩ | ⟨last, hlast, hlt, htake⟩
  · simp only [text, hnone]
    rw [slice_of_le (Nat.le_refl 0) (Nat.zero_le _), htrim]
    rfl
  · simp only [text, hlast]
    rw [add_of_lt (by omega), Outcome.ok_bind, slice_of_le (Nat.zero_le _) (by omega),
      List.drop_zero, htake]

theorem scalar_eq (header : Header) {data : List UInt8} (hshort : data.length < 2 ^ 63) :
    scalar header data = .ok (Scalar.ofData header data) := by
  unfold scalar
  split
  · rename_i hkind
    rw [text_eq hshort, Outcome.ok_bind, Scalar.ofData, hkind]
    rfl
  · rfl

/-! ## 3. Open branches -/

/-- A branch whose children are being read, with all of its data and how far it is read. -/
structure Span where
  header : Header
  data : List UInt8
  offset : Nat
  /-- The children so far, last one first. -/
  children : List Tree

namespace Span

/-- A branch with nothing read yet. -/
def ofFrame (frame : Frame) : Span := ⟨frame.header, frame.data, 0, []⟩

/-- The branch with one more child. -/
def push (span : Span) (child : Tree) : Span := { span with children := child :: span.children }

/-- The finished branch. -/
def close (span : Span) : Tree := .branch span.header span.children.reverse

/-- The branch with what it has left in place of its data and offset. -/
def toOpen (span : Span) : OpenBranch := ⟨span.header, span.data.drop span.offset, span.children⟩

/-- The offset lies within the data, and the data is no longer than memory allows. -/
structure Sound (span : Span) : Prop where
  offset_le : span.offset ≤ span.data.length
  length_lt : span.data.length < 2 ^ 63

end Span

/-- One turn of the loop over open branches: a node is read, or a branch is closed.  It ends
with a tree, or with the branches that are open then. -/
def turn (current : Span) (parents : List Span) : Outcome Halt (Tree ⊕ Span × List Span) := do
  let rest ← slice current.data current.offset current.data.length
  if Header.width ≤ rest.length then do
    let frame ← frame rest
    let offset ← add current.offset frame.used
    let current : Span := { current with offset }
    .notes frame.header.strayNotices
    let value? ← scalar frame.header frame.data
    match value? with
    | some value => return .inr (current.push (.scalar frame.header value), parents)
    | none => return .inr (Span.ofFrame frame, current :: parents)
  else
    match parents with
    | [] => return .inl current.close
    | parent :: rest => return .inr (parent.push current.close, rest)

/-- Turn after turn, at most as many as allowed. -/
def loop : Nat → Span → List Span → Outcome Halt Tree
  | 0, _, _ => .fail .endless
  | turns + 1, current, parents => do
    let next ← turn current parents
    match next with
    | .inl tree => return tree
    | .inr (current, parents) => loop turns current parents

/-- Reads the tree at the start of a buffer in a number of turns. -/
def decode (turns : Nat) (buffer : List UInt8) : Outcome Halt (Tree × Nat) := do
  let frame ← frame buffer
  .notes frame.header.strayNotices
  let value? ← scalar frame.header frame.data
  match value? with
  | some value => return (.scalar frame.header value, frame.used)
  | none => do
    let tree ← loop turns (Span.ofFrame frame) []
    return (tree, frame.used)

/-- Reads one tree after another from an offset on, behind the trees read so far. -/
def sweep (turns : Nat) (buffer : List UInt8) :
    Nat → Nat → List Tree → Outcome Halt (List Tree)
  | 0, _, _ => .fail .endless
  | rounds + 1, offset, trees => do
    let left ← sub buffer.length offset
    if Header.width ≤ left then do
      let rest ← slice buffer offset buffer.length
      let (tree, used) ← decode turns rest
      let offset ← add offset used
      sweep turns buffer rounds offset (tree :: trees)
    else return trees.reverse

/-- Reads the trees that fill a buffer, each in a number of turns. -/
def decodeAll (turns : Nat) (buffer : List UInt8) : Outcome Halt (List Tree) :=
  sweep turns buffer turns 0 []

/-! ## 4. No turn stops early -/

namespace Span

/-- The branch with some of its data read. -/
def skip (span : Span) (count : Nat) : Span := { span with offset := span.offset + count }

theorem toOpen_skip (span : Span) (count : Nat) :
    (span.skip count).toOpen = span.toOpen.skip count := by
  simp only [toOpen, skip, OpenBranch.skip, List.drop_drop]

theorem toOpen_push (span : Span) (child : Tree) :
    (span.push child).toOpen = span.toOpen.push child := rfl

theorem toOpen_ofFrame (frame : Frame) : (ofFrame frame).toOpen = ⟨frame.header, frame.data, []⟩ :=
  rfl

theorem close_toOpen (span : Span) : span.toOpen.close = span.close := rfl

theorem length_rest (span : Span) :
    span.toOpen.rest.length = span.data.length - span.offset := List.length_drop

theorem Sound.push {span : Span} (h : span.Sound) (child : Tree) : (span.push child).Sound :=
  ⟨h.offset_le, h.length_lt⟩

theorem Sound.slice_rest {span : Span} (h : span.Sound) :
    slice span.data span.offset span.data.length = .ok span.toOpen.rest :=
  slice_to_end h.offset_le

/-- A node takes no more than what is left, so the offset behind it lies within the data. -/
theorem Sound.skip {span : Span} (h : span.Sound) {frame : Frame}
    (hscan : (Frame.scan span.toOpen.rest).result = .ok frame) :
    (span.skip frame.used).Sound := by
  have hbounds := Frame.bounds_of_scan hscan
  have hrest := span.length_rest
  have hoffset := h.offset_le
  refine ⟨?_, h.length_lt⟩
  simp only [Span.skip]
  omega

/-- The data of a node is a part of what is left. -/
theorem Sound.ofFrame {span : Span} (h : span.Sound) {frame : Frame}
    (hscan : (Frame.scan span.toOpen.rest).result = .ok frame) : (ofFrame frame).Sound := by
  have hbounds := Frame.bounds_of_scan hscan
  have hrest := span.length_rest
  have hlength := h.length_lt
  refine ⟨Nat.zero_le _, ?_⟩
  simp only [Span.ofFrame]
  omega

/-- The open branches after a node is read from the innermost one. -/
def advance (current : Span) (parents : List Span) (frame : Frame) : Span × List Span :=
  match Scalar.ofData frame.header frame.data with
  | some value => ((current.skip frame.used).push (.scalar frame.header value), parents)
  | none => (ofFrame frame, current.skip frame.used :: parents)

variable {current : Span} {parents : List Span} {frame : Frame}

/-- Branches that are sound stay so when a node is read. -/
theorem Sound.advance (h : current.Sound) (hparents : ∀ parent ∈ parents, parent.Sound)
    (hscan : (Frame.scan current.toOpen.rest).result = .ok frame) :
    (current.advance parents frame).1.Sound
      ∧ ∀ parent ∈ (current.advance parents frame).2, parent.Sound := by
  rw [Span.advance]
  cases Scalar.ofData frame.header frame.data with
  | some value => exact ⟨(h.skip hscan).push _, hparents⟩
  | none => exact ⟨h.ofFrame hscan, List.forall_mem_cons.2 ⟨h.skip hscan, hparents⟩⟩

/-- Reading a node takes something off what remains: the node, and if it is a branch, then only its
header is gone for good. -/
theorem remaining_advance (parents : List Span)
    (hscan : (Frame.scan current.toOpen.rest).result = .ok frame) :
    OpenBranch.remaining
        (((current.advance parents frame).1 :: (current.advance parents frame).2).map toOpen)
      < OpenBranch.remaining ((current :: parents).map toOpen) := by
  have hbounds := Frame.bounds_of_scan hscan
  rw [Span.advance]
  cases Scalar.ofData frame.header frame.data with
  | some value =>
    simp only [List.map_cons, OpenBranch.remaining, toOpen_push, toOpen_skip, OpenBranch.push,
      OpenBranch.skip, List.length_drop]
    omega
  | none =>
    simp only [List.map_cons, OpenBranch.remaining, toOpen_ofFrame, toOpen_skip, OpenBranch.skip,
      List.length_drop, Header.width] at hbounds ⊢
    omega

/-- The plain loop goes on with the same branches. -/
theorem fill_advance (current : Span) (parents : List Span) (frame : Frame) :
    Tree.fill (current.advance parents frame).1.toOpen
        ((current.advance parents frame).2.map toOpen)
      = match Scalar.ofData frame.header frame.data with
        | some value =>
          Tree.fill ((current.toOpen.skip frame.used).push (.scalar frame.header value))
            (parents.map toOpen)
        | none =>
          Tree.fill ⟨frame.header, frame.data, []⟩
            (current.toOpen.skip frame.used :: parents.map toOpen) := by
  rw [Span.advance]
  cases Scalar.ofData frame.header frame.data with
  | some value => simp only [toOpen_push, toOpen_skip]
  | none => simp only [List.map_cons, toOpen_ofFrame, toOpen_skip]

end Span

variable {current : Span} {parents : List Span}

/-- A turn that reads a node is the plain reading of the node. -/
theorem turn_of_le (hsound : current.Sound) (hwidth : Header.width ≤ current.toOpen.rest.length) :
    turn current parents = (Frame.scan current.toOpen.rest).mapError .fault >>= fun frame =>
      .ok (.inr (current.advance parents frame)) := by
  have hshort : current.toOpen.rest.length < 2 ^ 63 := by
    have := current.length_rest
    have := hsound.length_lt
    omega
  rw [turn.eq_def, hsound.slice_rest, Outcome.ok_bind, if_pos hwidth, frame_eq hshort, Frame.scan,
    Outcome.mapError_bind, Outcome.bind_assoc]
  refine Outcome.bind_congr ?_
  intro frame hread
  have hbounds := Frame.bounds_of_read (Outcome.result_mapError_eq_ok.1 hread)
  have hlength := current.length_rest
  obtain ⟨hoffset, hdata⟩ := hsound
  rw [add_of_lt (by omega), Outcome.ok_bind, Outcome.mapError_bind, Outcome.bind_assoc,
    Outcome.mapError_notes]
  refine Outcome.bind_congr ?_
  intro _ _
  rw [scalar_eq _ (by omega)]
  simp only [Outcome.pure_eq, Outcome.mapError_ok, Outcome.ok_bind, Span.advance]
  cases Scalar.ofData frame.header frame.data <;> rfl

/-- A turn that closes a branch reads nothing. -/
theorem turn_of_lt (hsound : current.Sound) (hwidth : current.toOpen.rest.length < Header.width) :
    turn current parents = .ok (match parents with
      | [] => .inl current.close
      | parent :: rest => .inr (parent.push current.close, rest)) := by
  rw [turn.eq_def, hsound.slice_rest, Outcome.ok_bind, if_neg (Nat.not_le_of_lt hwidth)]
  cases parents <;> rfl

/-- **The loop over open branches never stops early.**  Branches that are sound stay so, and each
turn takes something off what remains of them, so as many turns are enough. -/
theorem loop_eq : ∀ (turns : Nat) (current : Span) (parents : List Span), current.Sound →
    (∀ parent ∈ parents, parent.Sound) →
    OpenBranch.remaining ((current :: parents).map Span.toOpen) ≤ turns →
    loop turns current parents
      = (Tree.fill current.toOpen (parents.map Span.toOpen)).mapError .fault := by
  intro turns
  induction turns with
  | zero =>
    intro current parents _ _ hremaining
    simp only [List.map_cons, OpenBranch.remaining] at hremaining
    omega
  | succ turns ih =>
    intro current parents hsound hparents hremaining
    by_cases hwidth : Header.width ≤ current.toOpen.rest.length
    · rw [loop, turn_of_le hsound hwidth, Tree.fill_of_le _ hwidth, Outcome.mapError_bind,
        Outcome.bind_assoc]
      refine Outcome.bind_congr ?_
      intro frame hframe
      have hscan := Outcome.result_mapError_eq_ok.1 hframe
      obtain ⟨hfirst, hothers⟩ := hsound.advance hparents hscan
      have hless := Span.remaining_advance parents hscan
      rw [Outcome.ok_bind]
      refine (ih _ _ hfirst hothers (by omega)).trans ?_
      exact congrArg _ (Span.fill_advance current parents frame)
    · have hwidth := Nat.lt_of_not_le hwidth
      rw [loop, turn_of_lt hsound hwidth, Tree.fill_of_lt _ hwidth, Outcome.ok_bind,
        Span.close_toOpen]
      cases parents with
      | nil => rfl
      | cons parent rest =>
        -- nothing is read, but there is one open branch less
        obtain ⟨hparent, hrest⟩ := List.forall_mem_cons.1 hparents
        simp only [List.map_cons, Tree.resume_cons]
        rw [ih _ _ (hparent.push _) hrest, Span.toOpen_push]
        simp only [List.map_cons, OpenBranch.remaining, Span.toOpen_push,
          OpenBranch.push] at hremaining ⊢
        omega

/-! ## 5. The two readings agree -/

/-- **Reading a tree never stops early.**  No slice leaves its buffer, no sum or difference leaves
the word, and the loop ends within as many turns as there are bytes. -/
theorem decode_eq {buffer : List UInt8} (hshort : buffer.length < 2 ^ 63) {turns : Nat}
    (hturns : buffer.length ≤ turns) :
    decode turns buffer = (Tree.decode buffer).mapError .fault := by
  rw [decode, Tree.decode, Frame.scan, frame_eq hshort, Outcome.bind_assoc, Outcome.mapError_bind]
  refine Outcome.bind_congr ?_
  intro frame hread
  have hbounds := Frame.bounds_of_read (Outcome.result_mapError_eq_ok.1 hread)
  rw [Outcome.bind_assoc, Outcome.mapError_bind, Outcome.mapError_notes]
  refine Outcome.bind_congr ?_
  intro _ _
  rw [scalar_eq _ (by omega), Outcome.ok_bind, Outcome.pure_eq, Outcome.ok_bind]
  cases Scalar.ofData frame.header frame.data with
  | some value => rfl
  | none =>
    simp only []
    have hsound : (Span.ofFrame frame).Sound :=
      ⟨Nat.zero_le _, by simp only [Span.ofFrame]; omega⟩
    rw [loop_eq turns _ [] hsound (by simp), Outcome.mapError_bind]
    · rfl
    · simp only [List.map_cons, List.map_nil, OpenBranch.remaining, Span.toOpen_ofFrame,
        Header.width] at hbounds ⊢
      omega

/-- Reading on from an offset is reading what is left behind it. -/
theorem sweep_eq {buffer : List UInt8} (hshort : buffer.length < 2 ^ 63) {turns : Nat}
    (hturns : buffer.length ≤ turns) : ∀ (rounds offset : Nat) (trees : List Tree),
    offset ≤ buffer.length → buffer.length - offset < rounds →
    sweep turns buffer rounds offset trees
      = (Tree.decodeAll (buffer.drop offset)).mapError .fault >>= fun rest =>
          .ok (trees.reverse ++ rest) := by
  intro rounds
  induction rounds with
  | zero =>
    intro offset trees _ hrounds
    omega
  | succ rounds ih =>
    intro offset trees hoffset hrounds
    have hlength : (buffer.drop offset).length = buffer.length - offset := List.length_drop
    rw [sweep, sub_of_le hoffset, Outcome.ok_bind, ← hlength]
    by_cases hwidth : Header.width ≤ (buffer.drop offset).length
    · rw [if_pos hwidth, slice_to_end hoffset, Outcome.ok_bind,
        decode_eq (by omega) (by omega), Tree.decodeAll_of_le hwidth, Outcome.mapError_bind,
        Outcome.bind_assoc]
      refine Outcome.bind_congr ?_
      rintro ⟨tree, used⟩ hdecode
      have hused := Tree.used_pos_of_decode (Outcome.result_mapError_eq_ok.1 hdecode)
      simp only []
      rw [add_of_lt (by omega), Outcome.ok_bind, ih _ _ (by omega) (by omega), List.drop_drop,
        Outcome.mapError_bind, Outcome.bind_assoc]
      refine Outcome.bind_congr ?_
      intro rest _
      simp
    · rw [if_neg hwidth, Tree.decodeAll, if_neg hwidth]
      simp

/-- **Reading all trees never stops early** either. -/
theorem decodeAll_eq {buffer : List UInt8} (hshort : buffer.length < 2 ^ 63) {turns : Nat}
    (hturns : buffer.length < turns) :
    decodeAll turns buffer = (Tree.decodeAll buffer).mapError .fault := by
  rw [decodeAll, sweep_eq hshort (by omega) turns 0 [] (by omega) (by omega), List.drop_zero]
  exact Outcome.bind_ok _

end Guarded
end SyntaxTree
