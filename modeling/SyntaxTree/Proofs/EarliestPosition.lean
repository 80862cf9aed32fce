/-
# The earliest of several positions

`Position.earliest` goes through the positions once and keeps the best so far.  This file says
what it comes to, so that nothing later has to follow the walk:

* `earliest_eq_none_iff`: there is none exactly if no position has a file;
* `of_earliest`: what holds of every position with a file holds of the earliest;
* `earliest_append`: within one file the earliest of two lists is the earlier of their earliest,
  so it may be taken in stages.

The last one needs the one file.  With several files the first decides which of them counts, and
a list whose earliest is in another file hides all it has in this one.
-/
import SyntaxTree.Position

namespace SyntaxTree
namespace Position

/-! ## 1. One position more -/

theorem earlier_of_not_hasFile (best : Option Position) {p : Position} (h : p.hasFile = false) :
    earlier best p = best := by
  simp [earlier, h]

theorem earlier_none {p : Position} (h : p.hasFile = true) : earlier none p = some p := by
  simp [earlier, h]

theorem earlier_some (current : Position) {p : Position} (h : p.hasFile = true) :
    earlier (some current) p = if p.precedes current then some p else some current := by
  simp [earlier, h]

/-- One position more changes nothing, or is the best, and then it has a file. -/
theorem earlier_cases (best : Option Position) (p : Position) :
    earlier best p = best ∨ p.hasFile = true ∧ earlier best p = some p := by
  cases hp : p.hasFile with
  | false => exact .inl (earlier_of_not_hasFile best hp)
  | true =>
    cases best with
    | none => exact .inr ⟨rfl, earlier_none hp⟩
    | some current =>
      rw [earlier_some current hp]
      split
      · exact .inr ⟨rfl, rfl⟩
      · exact .inl rfl

theorem earlier_eq_none_iff {best : Option Position} {p : Position} :
    earlier best p = none ↔ best = none ∧ p.hasFile = false := by
  cases hp : p.hasFile with
  | false => simp [earlier_of_not_hasFile best hp]
  | true =>
    cases best with
    | none => simp [earlier_none hp]
    | some current =>
      rw [earlier_some current hp]
      split <;> simp

/-! ## 2. All positions -/

theorem foldl_earlier_eq_none_iff (positions : List Position) (best : Option Position) :
    positions.foldl earlier best = none
      ↔ best = none ∧ ∀ p ∈ positions, p.hasFile = false := by
  induction positions generalizing best with
  | nil => simp
  | cons p rest ih =>
    rw [List.foldl_cons, ih, earlier_eq_none_iff, List.forall_mem_cons, and_assoc]

/-- **There is no earliest position exactly if none has a file.** -/
theorem earliest_eq_none_iff {positions : List Position} :
    earliest positions = none ↔ ∀ p ∈ positions, p.hasFile = false := by
  rw [earliest, foldl_earlier_eq_none_iff]
  simp

theorem of_foldl_earlier {P : Position → Prop} {positions : List Position}
    (hall : ∀ p ∈ positions, p.hasFile = true → P p) {best : Option Position}
    (hbest : ∀ p ∈ best, P p) : ∀ p ∈ positions.foldl earlier best, P p := by
  induction positions generalizing best with
  | nil => exact hbest
  | cons q rest ih =>
    obtain ⟨hq, hrest⟩ := List.forall_mem_cons.1 hall
    refine ih hrest ?_
    intro p hp
    obtain heq | ⟨hfile, heq⟩ := earlier_cases best q
    · exact hbest p (heq ▸ hp)
    · rw [heq] at hp
      exact Option.some.inj hp ▸ hq hfile

/-- **What holds of every position with a file holds of the earliest.** -/
theorem of_earliest {P : Position → Prop} {positions : List Position} {found : Position}
    (h : earliest positions = some found) (hall : ∀ p ∈ positions, p.hasFile = true → P p) :
    P found :=
  of_foldl_earlier hall (by simp) found h

theorem hasFile_of_earliest {positions : List Position} {found : Position}
    (h : earliest positions = some found) : found.hasFile = true :=
  of_earliest h fun _ _ hfile => hfile

theorem earliest_singleton {p : Position} (h : p.hasFile = true) : earliest [p] = some p :=
  earlier_none h

/-! ## 3. Within one file -/

/-- All positions that have a file have this one. -/
def WithinFile (file : UInt32) (positions : List Position) : Prop :=
  ∀ p ∈ positions, p.hasFile = true → p.file = file

theorem withinFile_append {file : UInt32} {ps qs : List Position} :
    WithinFile file (ps ++ qs) ↔ WithinFile file ps ∧ WithinFile file qs :=
  List.forall_mem_append

/-- The earlier of two positions, of which either may be missing. -/
def earlierOf (best : Option Position) : Option Position → Option Position
  | none => best
  | some p => earlier best p

theorem earlierOf_none {other : Option Position} (h : ∀ p ∈ other, p.hasFile = true) :
    earlierOf none other = other := by
  cases other with
  | none => rfl
  | some p => exact earlier_none (h p rfl)

/-- Within one file, to stand before is to have a smaller line, or the same line and a smaller
column. -/
theorem precedes_iff {p q : Position} (h : p.file = q.file) :
    p.precedes q = true
      ↔ p.line.toNat < q.line.toNat
        ∨ p.line.toNat = q.line.toNat ∧ p.column.toNat < q.column.toNat := by
  simp only [precedes, h, beq_self_eq_true, Bool.true_and, Bool.or_eq_true, Bool.and_eq_true,
    decide_eq_true_eq, beq_iff_eq, UInt32.lt_iff_toNat_lt, ← UInt32.toNat_inj]

/-- Within one file it makes no difference which two of three positions are compared first. -/
theorem earlier_earlier {file : UInt32} {p q : Position} {best : Option Position}
    (hbest : ∀ b ∈ best, b.file = file) (hp : p.hasFile = true) (hpfile : p.file = file)
    (hq : q.hasFile = true) (hqfile : q.file = file) :
    earlier (earlier best p) q = earlierOf best (earlier (some p) q) := by
  cases best with
  | none =>
    have hfile : ∀ r ∈ earlier (some p) q, r.hasFile = true := by
      intro r hr
      obtain heq | ⟨-, heq⟩ := earlier_cases (some p) q <;> rw [heq] at hr
      · exact Option.some.inj hr ▸ hp
      · exact Option.some.inj hr ▸ hq
    rw [earlier_none hp, earlierOf_none hfile]
  | some b =>
    have hbfile : b.file = file := hbest b rfl
    have hqp := precedes_iff (hqfile.trans hpfile.symm)
    have hpb := precedes_iff (hpfile.trans hbfile.symm)
    have hqb := precedes_iff (hqfile.trans hbfile.symm)
    rw [earlier_some b hp, earlier_some p hq]
    split <;> split <;> simp only [earlier_some _ hp, earlier_some _ hq, earlierOf] <;> grind

/-- The walk through positions of one file is one comparison with the earliest of them. -/
theorem foldl_earlier_eq {file : UInt32} {positions : List Position}
    (hall : WithinFile file positions) {best : Option Position}
    (hbest : ∀ b ∈ best, b.file = file) :
    positions.foldl earlier best = earlierOf best (earliest positions) := by
  induction positions generalizing best with
  | nil => rfl
  | cons q rest ih =>
    obtain ⟨hq, hrest⟩ := List.forall_mem_cons.1 hall
    cases hfile : q.hasFile with
    | false =>
      simp only [earliest, List.foldl_cons, earlier_of_not_hasFile _ hfile]
      exact ih hrest hbest
    | true =>
      have hqfile : ∀ b ∈ some q, b.file = file := fun b hb => Option.some.inj hb ▸ hq hfile
      have hnext : ∀ b ∈ earlier best q, b.file = file := by
        obtain heq | ⟨-, heq⟩ := earlier_cases best q <;> rw [heq]
        · exact hbest
        · exact hqfile
      have hwhole : earliest (q :: rest) = earlierOf (some q) (earliest rest) := by
        rw [earliest, List.foldl_cons, earlier_none hfile]
        exact ih hrest hqfile
      rw [List.foldl_cons, ih hrest hnext, hwhole]
      cases hfound : earliest rest with
      | none => rfl
      | some p =>
        exact earlier_earlier hbest hfile (hq hfile) (hasFile_of_earliest hfound)
          (of_earliest hfound hrest)

/-- **Within one file the earliest may be taken in stages.** -/
theorem earliest_append {file : UInt32} {ps qs : List Position} (hps : WithinFile file ps)
    (hqs : WithinFile file qs) :
    earliest (ps ++ qs) = earlierOf (earliest ps) (earliest qs) := by
  rw [earliest, List.foldl_append]
  exact foldl_earlier_eq hqs fun _ hfound => of_earliest hfound hps

end Position
end SyntaxTree
