/-
# The depth of a tree, and the guard in front of JSON

JSON is written by recursion, so a tree that is too deep has to be refused before anything is
written.  The guard asks `Tree.depth`, which is no recursion: it takes one pending node after the
other, notes its level and makes its children pending.  This file says that it finds the height
(`depth_eq_height`), and that the guard refuses exactly the trees of more than 512 levels and leaves
the output as it was (`depth_guards_json`).

The order in which pending nodes are taken is of no account.  `Sounding` is such a walk and `Turn`
one turn of it, with any pending node and any order of what is left.  What a turn keeps is not a
number but a bound (`Within`): the levels found and the bottoms of the pending nodes lie within a
bound before the turn exactly if they do afterwards (`within_turn`).  At the start the least bound
is the height, and at the end it is the level found.
-/
import Mathlib.Order.Nat
import SyntaxTree.Tree.JsonDump

namespace SyntaxTree
namespace Tree

/-! ## 1. Heights -/

theorem height_eq (tree : Tree) : tree.height = heights tree.children + 1 := by
  cases tree <;> rfl

theorem heights_le_iff {trees : List Tree} {bound : Nat} :
    heights trees ≤ bound ↔ ∀ tree ∈ trees, tree.height ≤ bound := by
  induction trees with
  | nil => simp [heights]
  | cons tree rest ih => rw [heights, Nat.max_le, ih, List.forall_mem_cons]

theorem max?_map_height : ∀ trees : List Tree, (trees.map height).max?.getD 0 = heights trees
  | [] => rfl
  | tree :: rest => by
    have ih := max?_map_height rest
    rw [List.map_cons, List.max?_cons, heights, ← ih]
    cases (rest.map height).max? <;> simp

/-- The height by recursion: one, and one more than the greatest height of a child. -/
theorem height_eq_max (tree : Tree) :
    tree.height = match (tree.children.map height).max? with
      | none => 1
      | some greatest => 1 + greatest := by
  rw [height_eq, ← max?_map_height]
  cases (tree.children.map height).max? with
  | none => rfl
  | some greatest => exact Nat.add_comm _ _

/-! ## 2. Walks in any order -/

theorem nodeCounts_perm {trees others : List Tree} (h : trees.Perm others) :
    nodeCounts trees = nodeCounts others := by
  induction h with
  | nil => rfl
  | cons tree _ ih => rw [nodeCounts, nodeCounts, ih]
  | swap first second rest =>
    simp only [nodeCounts]
    omega
  | trans _ _ ih ih' => rw [ih, ih']

end Tree

/-- A walk for the depth: the deepest level so far, and the pending nodes with their levels. -/
structure Sounding where
  found : Nat
  pending : List (Tree × Nat)

namespace Sounding

open SyntaxTree.Tree

/-- A walk that has seen nothing. -/
def start (tree : Tree) : Sounding := ⟨0, [(tree, 1)]⟩

/-- One turn: some pending node is taken, its level noted, and its children join what is left. -/
structure Turn (before after : Sounding) (tree : Tree) (level : Nat) (left : List (Tree × Nat)) :
    Prop where
  taken : before.pending.Perm ((tree, level) :: left)
  joined : after.pending.Perm (tree.childrenAt level ++ left)
  noted : after.found = max before.found level

/-- So many turns, one after another. -/
inductive Turns : Nat → Sounding → Sounding → Prop where
  | none (walk : Sounding) : Turns 0 walk walk
  | more {count : Nat} {before between after : Sounding} {tree : Tree} {level : Nat}
      {left : List (Tree × Nat)} (turn : Turn before between tree level left)
      (turns : Turns count between after) : Turns (count + 1) before after

/-- No level that was found lies below the bound, and none that is still to be found. -/
def Within (bound : Nat) (walk : Sounding) : Prop :=
  walk.found ≤ bound ∧ ∀ entry ∈ walk.pending, entry.2 + heights entry.1.children ≤ bound

/-- The bottom of a node is its own level, or the deepest bottom of its children. -/
theorem bottom_le_iff {tree : Tree} {level bound : Nat} :
    level + heights tree.children ≤ bound ↔
      level ≤ bound ∧ ∀ entry ∈ tree.childrenAt level,
        entry.2 + heights entry.1.children ≤ bound := by
  have hchild (child : Tree) : level + 1 + heights child.children = level + child.height := by
    rw [height_eq]
    omega
  simp only [childrenAt, List.forall_mem_map, hchild]
  constructor
  · intro h
    refine ⟨by omega, ?_⟩
    intro child hmem
    have := heights_le_iff.1 (Nat.le_refl (heights tree.children)) child hmem
    omega
  · rintro ⟨hlevel, hchildren⟩
    have : heights tree.children ≤ bound - level := by
      refine heights_le_iff.2 ?_
      intro child hmem
      have := hchildren child hmem
      omega
    omega

/-- **A turn moves no bound.** -/
theorem within_turn {before after : Sounding} {tree : Tree} {level : Nat}
    {left : List (Tree × Nat)} (turn : Turn before after tree level left) (bound : Nat) :
    before.Within bound ↔ after.Within bound := by
  have htaken (P : Tree × Nat → Prop) :
      (∀ entry ∈ before.pending, P entry) ↔ P (tree, level) ∧ ∀ entry ∈ left, P entry := by
    simp only [turn.taken.mem_iff, List.forall_mem_cons]
  have hjoined (P : Tree × Nat → Prop) :
      (∀ entry ∈ after.pending, P entry)
        ↔ (∀ entry ∈ tree.childrenAt level, P entry) ∧ ∀ entry ∈ left, P entry := by
    simp only [turn.joined.mem_iff, List.forall_mem_append]
  rw [Within, Within, htaken, hjoined, turn.noted, Nat.max_le, bottom_le_iff]
  constructor
  · rintro ⟨hfound, ⟨hlevel, hchildren⟩, hleft⟩
    exact ⟨⟨hfound, hlevel⟩, hchildren, hleft⟩
  · rintro ⟨⟨hfound, hlevel⟩, hchildren, hleft⟩
    exact ⟨hfound, ⟨hlevel, hchildren⟩, hleft⟩

/-- As long as a node is pending there is a turn. -/
theorem exists_turns {count : Nat} {before after : Sounding} (turns : Turns count before after)
    (h : after.pending ≠ []) : ∃ next, Turns (count + 1) before next := by
  induction turns with
  | none walk =>
    obtain ⟨⟨tree, level⟩, left, hpending⟩ := List.exists_cons_of_ne_nil h
    refine ⟨⟨max walk.found level, tree.childrenAt level ++ left⟩, ?_⟩
    exact .more ⟨.of_eq hpending, .refl _, rfl⟩ (.none _)
  | more turn _ ih =>
    obtain ⟨next, hnext⟩ := ih h
    exact ⟨next, .more turn hnext⟩

theorem within_turns {count : Nat} {before after : Sounding} (turns : Turns count before after)
    (bound : Nat) : before.Within bound ↔ after.Within bound := by
  induction turns with
  | none walk => rfl
  | more turn _ ih => exact (within_turn turn bound).trans ih

/-- At the start the bound is the height. -/
theorem within_start {tree : Tree} {bound : Nat} :
    (start tree).Within bound ↔ tree.height ≤ bound := by
  simp only [Within, start, List.forall_mem_singleton, height_eq]
  omega

/-- At the end it is the level found. -/
theorem within_of_nil (walk : Sounding) (h : walk.pending = []) {bound : Nat} :
    walk.Within bound ↔ walk.found ≤ bound := by
  simp [Within, h]

/-- **A turn is over with one node.** -/
theorem pendingCount_turn {before after : Sounding} {tree : Tree} {level : Nat}
    {left : List (Tree × Nat)} (turn : Turn before after tree level left) :
    pendingCount before.pending = pendingCount after.pending + 1 := by
  have hbefore : pendingCount before.pending = pendingCount ((tree, level) :: left) :=
    nodeCounts_perm (turn.taken.map Prod.fst)
  have hafter : pendingCount after.pending = pendingCount (tree.childrenAt level ++ left) :=
    nodeCounts_perm (turn.joined.map Prod.fst)
  rw [hbefore, hafter, pendingCount_cons]

theorem pendingCount_turns {count : Nat} {before after : Sounding}
    (turns : Turns count before after) :
    pendingCount before.pending = pendingCount after.pending + count := by
  induction turns with
  | none walk => rfl
  | more turn _ ih =>
    have := pendingCount_turn turn
    omega

theorem pendingCount_eq_zero_iff {pending : List (Tree × Nat)} :
    pendingCount pending = 0 ↔ pending = [] := by
  cases pending with
  | nil => simp [pendingCount, nodeCounts]
  | cons entry rest => simp [pendingCount_cons entry.1 entry.2 rest]

end Sounding

/-! ## 3. The depth -/

namespace Tree

/-- The walk that `depth` makes takes the pending nodes from the front. -/
theorem deepest_le_iff {bound : Nat} (pending : List (Tree × Nat)) (found : Nat) :
    deepest pending found ≤ bound ↔ Sounding.Within bound ⟨found, pending⟩ := by
  fun_induction deepest pending found with
  | case1 found => exact (Sounding.within_of_nil ⟨found, []⟩ rfl).symm
  | case2 tree level rest found ih =>
    rw [ih]
    exact (Sounding.within_turn ⟨.refl _, .refl _, rfl⟩ bound).symm

theorem depth_eq_height (tree : Tree) : tree.depth = tree.height := by
  refine eq_of_forall_ge_iff ?_
  intro bound
  rw [depth, deepest_le_iff]
  exact Sounding.within_start

/-- **A walk that has come to its end has found the height**, whatever its order. -/
theorem found_of_turns {count : Nat} {tree : Tree} {walk : Sounding}
    (turns : Sounding.Turns count (.start tree) walk) (h : walk.pending = []) :
    walk.found = tree.height := by
  refine eq_of_forall_ge_iff ?_
  intro bound
  rw [← Sounding.within_of_nil walk h, ← Sounding.within_turns turns, Sounding.within_start]

/-! ## 4. The guard -/

theorem run_writeJson_of_lt {tree : Tree} (h : 512 < tree.height) (output : String) :
    tree.writeJson.run.run output = (.error ⟨tree.height⟩, output) := by
  rw [← depth_eq_height] at h ⊢
  unfold writeJson maxJsonDepth
  rw [if_pos h]
  rfl

theorem run_writeJson_of_le {tree : Tree} (h : tree.height ≤ 512) (output : String) :
    tree.writeJson.run.run output = (.ok (), output ++ tree.toJson.pretty ++ "\n") := by
  have hguard : ¬ 512 < tree.depth := by
    rw [depth_eq_height]
    omega
  unfold writeJson maxJsonDepth
  rw [if_neg hguard]
  rfl

/-- **Trees of more than 512 levels are refused, and nothing is written of them.**  For every tree:

* the depth is the height, which is one for a node without children and otherwise one more than the
  greatest height of a child;
* a walk that takes pending nodes in any order makes a turn for each node and then has found the
  height, and before that it can go on;
* writing the tree as JSON to any output fails exactly if the height exceeds 512; then the output is
  what it was, and otherwise the text of the tree and a line feed are added to it. -/
theorem depth_guards_json (tree : Tree) :
    tree.depth = tree.height
      ∧ (∀ node : Tree, node.height = match (node.children.map height).max? with
          | none => 1
          | some greatest => 1 + greatest)
      ∧ (∀ (count : Nat) (walk : Sounding), Sounding.Turns count (.start tree) walk →
          count ≤ tree.nodeCount
            ∧ (count = tree.nodeCount ↔ walk.pending = [])
            ∧ (walk.pending = [] → walk.found = tree.height)
            ∧ (walk.pending ≠ [] → ∃ next, Sounding.Turns (count + 1) (.start tree) next))
      ∧ ∀ output : String,
          ((∃ fault, (tree.writeJson.run.run output).1 = .error fault) ↔ 512 < tree.height)
            ∧ (512 < tree.height →
                tree.writeJson.run.run output = (.error ⟨tree.height⟩, output))
            ∧ (tree.height ≤ 512 →
                tree.writeJson.run.run output
                  = (.ok (), output ++ tree.toJson.pretty ++ "\n")) := by
  refine ⟨depth_eq_height tree, height_eq_max, ?_, ?_⟩
  · intro count walk turns
    have hcount : tree.nodeCount = pendingCount walk.pending + count := by
      rw [← Sounding.pendingCount_turns turns]
      simp [Sounding.start, pendingCount, nodeCounts]
    refine ⟨by omega, ?_, found_of_turns turns, Sounding.exists_turns turns⟩
    rw [← Sounding.pendingCount_eq_zero_iff]
    omega
  · intro output
    refine ⟨?_, fun h => run_writeJson_of_lt h output, fun h => run_writeJson_of_le h output⟩
    constructor
    · rintro ⟨fault, hfault⟩
      by_contra hle
      rw [run_writeJson_of_le (Nat.le_of_not_lt hle)] at hfault
      cases hfault
    · intro h
      exact ⟨⟨tree.height⟩, congrArg Prod.fst (run_writeJson_of_lt h output)⟩

/-- A leaf inside so many branches. -/
def chain : Nat → Tree
  | 0 => scalar ⟨.blank, 32, .unknown, Kind.leaf.code⟩ .leaf
  | count + 1 => branch ⟨.blank, 32, .unknown, Kind.branch.code⟩ [chain count]

theorem height_chain (count : Nat) : (chain count).height = count + 1 := by
  induction count with
  | zero => rfl
  | succ count ih => simp [chain, height, heights, ih]

theorem depth_guards_json_chain :
    (chain 512).depth = 513
      ∧ (chain 512).writeJson.run.run "before" = (.error ⟨513⟩, "before")
      ∧ (chain 511).writeJson.run.run "before"
          = (.ok (), "before" ++ (chain 511).toJson.pretty ++ "\n") := by
  have hdeep : (chain 512).height = 513 := height_chain 512
  have hflat : (chain 511).height = 512 := height_chain 511
  obtain ⟨hdepth, -, -, hrefused⟩ := depth_guards_json (chain 512)
  obtain ⟨-, -, -, hwritten⟩ := depth_guards_json (chain 511)
  refine ⟨by rw [hdepth, hdeep], ?_, (hwritten "before").2.2 (by omega)⟩
  rw [(hrefused "before").2.1 (by omega), hdeep]

end Tree
end SyntaxTree
