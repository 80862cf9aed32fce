/-
# Where a merge starts, and when it fails

A branch or a list is made of values in order.  This file says for every builder and all values
what comes of it (`merge_starts_earliest`):

* it fails exactly if one of the values is the coordinates of a token, wherever that one stands,
  and then with an internal error that names such a token;
* otherwise it starts at one of its nodes, namely at the least line and column in the file of the
  first node that has one; without such a node it starts where the cursor is.

`Position.earliest` decides by one walk with the best position so far.  The invariant of the walk
is that the file of the best never changes and that the best is least among what was seen in that
file (`foldl_earlier_some`).  Unknown lines and columns are the largest numbers and are compared as
such.

The least position is one position, so in one file the order of the values makes no difference
(`earliest_perm`).  In several files it does: the first decides which file counts.
-/
import Mathlib.Data.List.Perm.Basic
import Mathlib.Data.Prod.Lex
import Mathlib.Order.Bounds.Basic
import SyntaxTree.Proofs.Draft
import SyntaxTree.Proofs.EarliestPosition

namespace SyntaxTree

/-! ## 1. Line and column -/

namespace Position

/-- The line and then the column, to be compared in this order. -/
def place (p : Position) : ℕ ×ₗ ℕ := toLex (p.line.toNat, p.column.toNat)

theorem precedes_iff_place_lt {p q : Position} (h : p.file = q.file) :
    p.precedes q = true ↔ p.place < q.place := by
  rw [precedes_iff h, place, place, Prod.Lex.toLex_lt_toLex]

/-- A place in a file is one position. -/
theorem eq_of_place_eq {p q : Position} (hfile : p.file = q.file) (h : p.place = q.place) :
    p = q := by
  obtain ⟨pfile, pline, pcolumn⟩ := p
  obtain ⟨qfile, qline, qcolumn⟩ := q
  have hpair := toLex.injective h
  simp only [Prod.mk.injEq, UInt32.toNat_inj] at hpair
  obtain ⟨rfl, rfl⟩ := hpair
  exact congrArg (fun file => (⟨file, pline, pcolumn⟩ : Position)) hfile

/-- Whether a position has a file is up to the file. -/
theorem hasFile_congr {p q : Position} (h : p.file = q.file) : p.hasFile = q.hasFile := by
  simp only [hasFile, h]

/-! ## 2. The walk -/

/-- One position more: the best stays in its file and gets no later. -/
theorem earlier_some_spec {best : Position} (hbest : best.hasFile = true) (p : Position) :
    ∃ next : Position, earlier (some best) p = some next ∧ next.hasFile = true
      ∧ (next = best ∨ next = p) ∧ next.file = best.file ∧ next.place ≤ best.place
      ∧ (p.file = best.file → next.place ≤ p.place) := by
  by_cases hfile : p.file = best.file
  · have hp : p.hasFile = true := (hasFile_congr hfile).trans hbest
    rw [earlier_some best hp]
    by_cases hprec : p.precedes best = true
    · have hlt := (precedes_iff_place_lt hfile).1 hprec
      exact ⟨p, if_pos hprec, hp, .inr rfl, hfile, hlt.le, fun _ => le_rfl⟩
    · have hge := not_lt.1 fun hlt => hprec ((precedes_iff_place_lt hfile).2 hlt)
      exact ⟨best, if_neg hprec, hbest, .inl rfl, rfl, le_rfl, fun _ => hge⟩
  · -- a position in another file is passed over, with a file or without
    have hprec : p.precedes best = false := by simp [precedes, hfile]
    have hstay : earlier (some best) p = some best := by
      simp [earlier, hprec]
    exact ⟨best, hstay, hbest, .inl rfl, rfl, le_rfl, fun h => absurd h hfile⟩

/-- **The invariant of the walk.**  From a best position with a file on, the walk ends at one of
the positions, in that file, and at no later place than any position in it. -/
theorem foldl_earlier_some (positions : List Position) {best : Position}
    (hbest : best.hasFile = true) :
    ∃ found : Position, positions.foldl earlier (some best) = some found
      ∧ found ∈ best :: positions ∧ found.file = best.file
      ∧ ∀ p ∈ best :: positions, p.file = best.file → found.place ≤ p.place := by
  induction positions generalizing best with
  | nil =>
    refine ⟨best, rfl, List.mem_cons_self, rfl, ?_⟩
    intro p hp _
    rw [List.mem_singleton.1 hp]
  | cons p rest ih =>
    obtain ⟨next, hstep, hnext, hchoice, hsame, hle, hle'⟩ := earlier_some_spec hbest p
    obtain ⟨found, hfold, hmem, hfile, hleast⟩ := ih hnext
    refine ⟨found, ?_, ?_, hfile.trans hsame, ?_⟩
    · rw [List.foldl_cons, hstep, hfold]
    · rcases List.mem_cons.1 hmem with rfl | hmem
      · rcases hchoice with rfl | rfl <;> simp
      · exact List.mem_cons_of_mem _ (List.mem_cons_of_mem _ hmem)
    · intro q hq hqfile
      have hfirst : found.place ≤ next.place := hleast next List.mem_cons_self rfl
      rcases List.mem_cons.1 hq with rfl | hq
      · exact hfirst.trans hle
      · rcases List.mem_cons.1 hq with rfl | hq
        · exact hfirst.trans (hle' hqfile)
        · exact hleast q (List.mem_cons_of_mem _ hq) (hqfile.trans hsame.symm)

/-- Positions without a file are passed over until there is one. -/
theorem foldl_earlier_none {positions : List Position} {found : Position}
    (h : positions.foldl earlier none = some found) :
    ∃ before rest : List Position, ∃ first : Position,
      positions = before ++ first :: rest ∧ (∀ p ∈ before, p.hasFile = false)
        ∧ first.hasFile = true ∧ rest.foldl earlier (some first) = some found := by
  induction positions with
  | nil => exact absurd h.symm (Option.some_ne_none found)
  | cons p rest ih =>
    rw [List.foldl_cons] at h
    cases hp : p.hasFile with
    | true =>
      rw [earlier_none hp] at h
      exact ⟨[], rest, p, rfl, by simp, hp, h⟩
    | false =>
      rw [earlier_of_not_hasFile none hp] at h
      obtain ⟨before, after, first, rfl, hbefore, hfirst, hfold⟩ := ih h
      exact ⟨p :: before, after, first, rfl, List.forall_mem_cons.2 ⟨hp, hbefore⟩, hfirst, hfold⟩

/-- **The earliest position** is one of the positions, it is in the file of the first that has
one, and its place is the least in that file. -/
theorem earliest_spec {positions : List Position} {found : Position}
    (h : earliest positions = some found) :
    found ∈ positions
      ∧ (positions.find? hasFile).map file = some found.file
      ∧ IsLeast {q | ∃ p ∈ positions, p.file = found.file ∧ p.place = q} found.place := by
  obtain ⟨before, rest, first, rfl, hbefore, hfirst, hfold⟩ := foldl_earlier_none h
  obtain ⟨last, hlast, hmem, hfile, hleast⟩ := foldl_earlier_some rest hfirst
  obtain rfl : last = found := Option.some.inj (hlast.symm.trans hfold)
  have hin : last ∈ before ++ first :: rest := List.mem_append_right before hmem
  refine ⟨hin, ?_, ⟨last, hin, rfl, rfl⟩, ?_⟩
  · have hskip : before.find? hasFile = none := by
      rw [List.find?_eq_none]
      intro p hp
      simp [hbefore p hp]
    rw [List.find?_append, hskip, Option.none_or, List.find?_cons_of_pos hfirst, Option.map_some,
      hfile]
  · rintro q ⟨p, hp, hpfile, rfl⟩
    rcases List.mem_append.1 hp with hp | hp
    · -- what stands before the first with a file has none, and so is not in this file
      have hnone := hbefore p hp
      rw [hasFile_congr (hpfile.trans hfile), hfirst] at hnone
      exact Bool.noConfusion hnone
    · exact hleast p hp (hpfile.trans hfile)

theorem exists_earliest {positions : List Position} (h : ∃ p ∈ positions, p.hasFile = true) :
    ∃ found : Position, earliest positions = some found := by
  cases hfound : earliest positions with
  | some found => exact ⟨found, rfl⟩
  | none =>
    obtain ⟨p, hp, hfile⟩ := h
    rw [earliest_eq_none_iff.1 hfound p hp] at hfile
    exact Bool.noConfusion hfile

/-- No position in the file of the earliest stands before it. -/
theorem place_le_of_earliest {positions : List Position} {found p : Position}
    (h : earliest positions = some found) (hp : p ∈ positions) (hfile : p.file = found.file) :
    found.place ≤ p.place :=
  (earliest_spec h).2.2.2 ⟨p, hp, hfile, rfl⟩

/-- **In one file the order of the positions makes no difference.** -/
theorem earliest_perm {file : UInt32} {ps qs : List Position} (hperm : ps.Perm qs)
    (hfile : WithinFile file ps) : earliest ps = earliest qs := by
  have hfile' : WithinFile file qs := fun p hp => hfile p (hperm.mem_iff.2 hp)
  cases hp : earliest ps with
  | none =>
    symm
    rw [earliest_eq_none_iff] at hp ⊢
    exact fun p hmem => hp p (hperm.mem_iff.2 hmem)
  | some p =>
    have hpmem := hperm.mem_iff.1 (earliest_spec hp).1
    obtain ⟨q, hq⟩ := exists_earliest ⟨p, hpmem, hasFile_of_earliest hp⟩
    have hqmem := hperm.mem_iff.2 (earliest_spec hq).1
    have hsame : p.file = q.file := by
      rw [of_earliest hp hfile, of_earliest hq hfile']
    have hle : p.place ≤ q.place := place_le_of_earliest hp hqmem hsame.symm
    have hge : q.place ≤ p.place := place_le_of_earliest hq hpmem hsame
    rw [hq, eq_of_place_eq hsame (le_antisymm hle hge)]

end Position

/-! ## 3. The nodes of a merge -/

/-- Where the nodes among some values are, in order. -/
def Value.positions (values : List Value) : List Position :=
  (values.filterMap Value.node?).map Node.position

namespace Builder

/-- **What the values of a merge come to**: a token among them spoils it, and otherwise the nodes
are left. -/
theorem parts_cases (into : Tag) (values : List Value) :
    (∃ start stop : Position, Value.count start stop ∈ values
        ∧ parts into values = .error (.countMerged start into))
      ∨ ((∀ start stop : Position, Value.count start stop ∉ values)
          ∧ parts into values = .ok (values.filterMap Value.node?)) := by
  induction values with
  | nil => exact .inr ⟨by simp, rfl⟩
  | cons value rest ih =>
    cases value with
    | count start stop => exact .inl ⟨start, stop, List.mem_cons_self, rfl⟩
    | pass =>
      rcases ih with ⟨start, stop, hmem, hparts⟩ | ⟨hnone, hparts⟩
      · exact .inl ⟨start, stop, List.mem_cons_of_mem _ hmem, hparts⟩
      · exact .inr ⟨by simpa using hnone, hparts⟩
    | node node =>
      rcases ih with ⟨start, stop, hmem, hparts⟩ | ⟨hnone, hparts⟩
      · refine .inl ⟨start, stop, List.mem_cons_of_mem _ hmem, ?_⟩
        rw [parts, hparts]
        rfl
      · refine .inr ⟨by simpa using hnone, ?_⟩
        rw [parts, hparts]
        rfl

/-- A place where a merge of nodes at these positions starts. -/
structure StartsAt (builder : Builder) (positions : List Position) (start : Position) :
    Prop where
  /-- Without a node in a file it starts at the cursor. -/
  at_cursor : (∀ p ∈ positions, p.hasFile = false) → start = builder.tracker.currentPosition
  /-- Else it starts at the least place in the file of the first node that has one. -/
  at_least : (∃ p ∈ positions, p.hasFile = true) →
    start ∈ positions
      ∧ (positions.find? Position.hasFile).map Position.file = some start.file
      ∧ IsLeast {q | ∃ p ∈ positions, p.file = start.file ∧ p.place = q} start.place

theorem startsAt_mergedPosition (builder : Builder) (nodes : List Node) :
    builder.StartsAt (nodes.map Node.position) (builder.mergedPosition none nodes) := by
  rw [mergedPosition_eq, Option.getD_none]
  refine ⟨?_, ?_⟩
  · intro hnone
    rw [Position.earliest_eq_none_iff.2 hnone, Option.getD_none]
  · intro hsome
    obtain ⟨found, hfound⟩ := Position.exists_earliest hsome
    rw [hfound, Option.getD_some]
    exact Position.earliest_spec hfound

/-- What comes of a merge of values into a node of a name and a kind. -/
structure Merges (builder : Builder) (name : Tag) (kind : Kind) (values : List Value)
    (outcome : Outcome Error Value) : Prop where
  /-- It fails exactly if one of the values is the coordinates of a token. -/
  fails_iff : (∃ cause : Error, outcome.result = .error cause)
    ↔ ∃ start stop : Position, Value.count start stop ∈ values
  /-- The grammar is at fault, and the error names such a token. -/
  internal : ∀ cause : Error, outcome.result = .error cause →
    cause.isInternal = true ∧ ∃ start stop : Position, Value.count start stop ∈ values
      ∧ cause = .misuse (.countMerged start name)
  /-- Otherwise it gives the node, which starts as its nodes say. -/
  starts : (∀ start stop : Position, Value.count start stop ∉ values) →
    ∃ node : Node, outcome.result = .ok (.node node) ∧ node.name = name ∧ node.kind = kind
      ∧ builder.StartsAt (Value.positions values) node.position

/-- Branches and lists are merges in the sense above. -/
theorem merges_merge (builder : Builder) (name : Tag) (kind : Kind) (values : List Value) :
    builder.Merges name kind values
      (builder.merge name kind values none >>= fun node => pure (.node node)) := by
  rcases parts_cases name values with ⟨start, stop, hmem, hparts⟩ | ⟨hnone, hparts⟩
  · have hresult : (builder.merge name kind values none >>= fun node =>
        pure (Value.node node)).result = .error (.misuse (.countMerged start name)) := by
      rw [merge, hparts]
      rfl
    refine ⟨?_, ?_, ?_⟩
    · exact ⟨fun _ => ⟨start, stop, hmem⟩, fun _ => ⟨_, hresult⟩⟩
    · intro cause hcause
      obtain rfl := Except.error.inj (hresult.symm.trans hcause)
      exact ⟨rfl, start, stop, hmem, rfl⟩
    · intro hno
      exact absurd hmem (hno start stop)
  · let nodes := values.filterMap Value.node?
    have hresult : (builder.merge name kind values none >>= fun node =>
        pure (Value.node node)).result
          = .ok (.node (.assemble name kind (builder.mergedPosition none nodes)
              (nodes.flatMap Node.contribution))) := by
      rw [merge, hparts]
      rfl
    refine ⟨?_, ?_, ?_⟩
    · constructor
      · rintro ⟨cause, hcause⟩
        rw [hresult] at hcause
        cases hcause
      · rintro ⟨start, stop, hmem⟩
        exact absurd hmem (hnone start stop)
    · intro cause hcause
      rw [hresult] at hcause
      cases hcause
    · intro _
      exact ⟨_, hresult, rfl, rfl, builder.startsAt_mergedPosition nodes⟩

/-! ## 4. The order of the values -/

/-- Where the node that a merge makes starts, if it makes one. -/
def start? (outcome : Outcome Error Value) : Option Position := outcome.value?.map Value.position

theorem start?_merge (builder : Builder) (name : Tag) (kind : Kind) (values : List Value) :
    start? (builder.merge name kind values none >>= fun node => pure (.node node))
      = (parts name values).toOption.map (builder.mergedPosition none) := by
  rw [start?, Outcome.value?_bind, merge]
  cases parts name values <;> rfl

/-- In one file the order of the values makes no difference to where a merge starts. -/
theorem start?_merge_perm (builder : Builder) (name : Tag) (kind : Kind)
    {values others : List Value} (hperm : values.Perm others) {file : UInt32}
    (hfile : Position.WithinFile file (Value.positions values)) :
    start? (builder.merge name kind values none >>= fun node => pure (.node node))
      = start? (builder.merge name kind others none >>= fun node => pure (.node node)) := by
  have hnodes := hperm.filterMap Value.node?
  rw [start?_merge, start?_merge]
  rcases parts_cases name values with ⟨start, stop, hmem, hparts⟩ | ⟨hnone, hparts⟩
  · rcases parts_cases name others with ⟨_, _, -, hparts'⟩ | ⟨hnone', -⟩
    · rw [hparts, hparts']
      rfl
    · exact absurd (hperm.mem_iff.1 hmem) (hnone' start stop)
  · rcases parts_cases name others with ⟨start, stop, hmem', -⟩ | ⟨-, hparts'⟩
    · exact absurd (hperm.mem_iff.2 hmem') (hnone start stop)
    · have hsame := Position.earliest_perm (hnodes.map Node.position) hfile
      rw [hparts, hparts']
      simp only [Except.toOption, Option.map_some, mergedPosition_eq, hsame]

/-- **Where a merge starts, and when it fails.**  For every builder and all values, branches and
lists fail exactly if one of the values is the coordinates of a token, with an internal error.
Otherwise they start at one of their nodes: at the least line and column in the file of the first
node that has one, or at the cursor if none has.  As long as the nodes that have a file share it,
the order of the values makes no difference. -/
theorem merge_starts_earliest (builder : Builder) (name : Tag) (values : List Value) :
    builder.Merges name .branch values (builder.branch name values)
      ∧ builder.Merges (.ofName "#list") .list values (builder.list values)
      ∧ ∀ (others : List Value) (file : UInt32), values.Perm others →
          Position.WithinFile file (Value.positions values) →
          start? (builder.branch name values) = start? (builder.branch name others)
            ∧ start? (builder.list values) = start? (builder.list others) := by
  refine ⟨merges_merge builder name .branch values, merges_merge builder _ .list values, ?_⟩
  intro others file hperm hfile
  exact ⟨start?_merge_perm builder name .branch hperm hfile,
    start?_merge_perm builder _ .list hperm hfile⟩

/-- A leaf at a position, as a value. -/
def leafValue (position : Position) : Value := .node (.assemble .blank .leaf position [])

/-- Leaves of one file, with one between them for which the table had no room and one whose line
is not known. -/
def scatteredValues : List Value :=
  [.pass, leafValue ⟨Position.tableFull, 1, 1⟩, leafValue ⟨3, 4, 2⟩,
    leafValue ⟨3, Position.unknownNumber, 1⟩, leafValue ⟨3, 2, 9⟩]

theorem merge_starts_earliest_scattered :
    scatteredValues.Perm scatteredValues.reverse
      ∧ Position.WithinFile 3 (Value.positions scatteredValues)
      ∧ start? ((ofSettings .standard).branch .blank scatteredValues) = some ⟨3, 2, 9⟩
      ∧ start? ((ofSettings .standard).branch .blank scatteredValues.reverse) = some ⟨3, 2, 9⟩
      ∧ (∀ start stop : Position, Value.count start stop ∉ scatteredValues)
      ∧ (∃ node : Node, ((ofSettings .standard).list scatteredValues).result = .ok (.node node)
          ∧ (ofSettings .standard).StartsAt (Value.positions scatteredValues) node.position) := by
  have hperm : scatteredValues.Perm scatteredValues.reverse :=
    (List.reverse_perm scatteredValues).symm
  have hfile : Position.WithinFile 3 (Value.positions scatteredValues) := by
    unfold Position.WithinFile
    decide
  have hfirst : start? ((ofSettings .standard).branch .blank scatteredValues)
      = some ⟨3, 2, 9⟩ := rfl
  have hnone : ∀ start stop : Position, Value.count start stop ∉ scatteredValues := by
    intro start stop
    simp [scatteredValues, leafValue]
  obtain ⟨-, hlist, horder⟩ :=
    merge_starts_earliest (ofSettings .standard) .blank scatteredValues
  obtain ⟨hbranch, -⟩ := horder _ 3 hperm hfile
  obtain ⟨node, hresult, -, -, hstarts⟩ := hlist.starts hnone
  exact ⟨hperm, hfile, hfirst, hbranch ▸ hfirst, hnone, node, hresult, hstarts⟩

end Builder
end SyntaxTree
