/-
# A branch starts before the children it can see

A branch takes the earliest position in one file, so one would like to say that none of its
children in that file stands before it.  For the values that are merged this is so.  But a list is
merged with the one position it was given when it was made, and its items come into the branch
behind that position.  If a list is in another file than the branch, the branch never learns where
the items of the list are, and an item may well stand before it (`branch_after_hidden_child`).

What holds is that a child does not stand before the branch if it was merged itself, or came in
through lists that are all in the file of the branch (`branch_starts_before_visible`):

* `Group.trails` gives the nodes that groups bring into a merge, each with the positions of the
  lists around it;
* each list in the file of a node in it starts no later than that node, by the walk through its own
  children (`place_le_of_mem_trails`), and so on up to the branch;
* the children that are read back from the branch are these nodes (`headers_of_decodeAll`).

Every value that is merged in a run comes from such groups (`Draft.AllGrouped.run`), so the
statement reaches every branch of every run.
-/
import SyntaxTree.Proofs.FileTable
import SyntaxTree.Proofs.ListGrouping
import SyntaxTree.Proofs.MergePosition
import SyntaxTree.Proofs.NodeSites

namespace SyntaxTree

/-! ## 1. How nodes come into a merge -/

/-- A node that comes into a merge, and the positions of the lists around it, outermost first. -/
structure Trail where
  around : List Position
  member : PlainNode

/-- The trail of the same node, with one more list around it. -/
def Trail.within (position : Position) (trail : Trail) : Trail :=
  ⟨position :: trail.around, trail.member⟩

namespace Group

mutual

/-- The nodes in a group in order, with the lists around each. -/
def trails : Group → List Trail
  | pass => []
  | node member => [⟨[], member⟩]
  | list builder groups =>
    (trailsAll groups).map (.within (builder.mergedPosition none (nodes groups)))

/-- The nodes in several groups. -/
def trailsAll : List Group → List Trail
  | [] => []
  | group :: rest => trails group ++ trailsAll rest

end

mutual

theorem map_member_trails : ∀ group : Group, group.trails.map Trail.member = group.members
  | pass => rfl
  | node _ => rfl
  | list builder groups => by
    rw [trails, members, ← map_member_trailsAll groups, List.map_map]
    rfl

theorem map_member_trailsAll : ∀ groups : List Group,
    (trailsAll groups).map Trail.member = membersAll groups
  | [] => rfl
  | group :: rest => by
    rw [trailsAll, membersAll, List.map_append, map_member_trails group,
      map_member_trailsAll rest]

end

end Group

/-- A merge does not start behind a node in its file. -/
theorem Builder.place_mergedPosition_le (builder : Builder) {nodes : List Node} {node : Node}
    (hmem : node ∈ nodes) (hknown : node.position.hasFile = true)
    (hfile : node.position.file = (builder.mergedPosition none nodes).file) :
    (builder.mergedPosition none nodes).place ≤ node.position.place := by
  have hin : node.position ∈ nodes.map Node.position := List.mem_map_of_mem hmem
  obtain ⟨-, -, hleast⟩ :=
    (builder.startsAt_mergedPosition nodes).at_least ⟨_, hin, hknown⟩
  exact hleast.2 ⟨_, hin, hfile, rfl⟩

namespace Group

mutual

/-- **A node is not before its group, if the lists around it are in its file.**  The group is then
a node in this file too. -/
theorem place_le_of_mem_trails : ∀ (group : Group) {trail : Trail}, trail ∈ group.trails →
    trail.member.position.hasFile = true →
    (∀ p ∈ trail.around, p.file = trail.member.position.file) →
    ∃ made : Node, group.node? = some made
      ∧ made.position.file = trail.member.position.file
      ∧ made.position.place ≤ trail.member.position.place
  | pass, _, hmem, _, _ => absurd hmem List.not_mem_nil
  | node member, trail, hmem, _, _ => by
    obtain rfl := List.mem_singleton.1 hmem
    exact ⟨member.node, rfl, rfl, le_rfl⟩
  | list builder groups, trail, hmem, hknown, haround => by
    obtain ⟨inner, hinner, rfl⟩ := List.mem_map.1 hmem
    obtain ⟨hlist, hrest⟩ := List.forall_mem_cons.1 haround
    obtain ⟨made, hmade, hfile, hplace⟩ := place_le_of_mem_trailsAll groups hinner hknown hrest
    have hmadeKnown : made.position.hasFile = true :=
      (Position.hasFile_congr hfile).trans hknown
    have hle := builder.place_mergedPosition_le hmade hmadeKnown (hfile.trans hlist.symm)
    exact ⟨_, rfl, hlist, hle.trans hplace⟩

theorem place_le_of_mem_trailsAll : ∀ (groups : List Group) {trail : Trail},
    trail ∈ trailsAll groups → trail.member.position.hasFile = true →
    (∀ p ∈ trail.around, p.file = trail.member.position.file) →
    ∃ made ∈ nodes groups, made.position.file = trail.member.position.file
      ∧ made.position.place ≤ trail.member.position.place
  | [], _, hmem, _, _ => absurd hmem List.not_mem_nil
  | group :: rest, trail, hmem, hknown, haround => by
    rw [nodes]
    rcases List.mem_append.1 hmem with hmem | hmem
    · obtain ⟨made, hmade, hle⟩ := place_le_of_mem_trails group hmem hknown haround
      exact ⟨made, List.mem_append_left _ (by simp [hmade]), hle⟩
    · obtain ⟨made, hmade, hle⟩ := place_le_of_mem_trailsAll rest hmem hknown haround
      exact ⟨made, List.mem_append_right _ hmade, hle⟩

end

/-- **A branch does not start behind a node that it can see.** -/
theorem not_precedes_branch (builder : Builder) (name : Tag) {groups : List Group} {trail : Trail}
    (hmem : trail ∈ trailsAll groups) (hknown : trail.member.position.hasFile = true)
    (hfile : trail.member.position.file = (branch builder name groups).position.file)
    (haround : ∀ p ∈ trail.around, p.file = (branch builder name groups).position.file) :
    trail.member.position.precedes (branch builder name groups).position = false := by
  rw [← hfile] at haround
  obtain ⟨made, hmade, hmadeFile, hplace⟩ := place_le_of_mem_trailsAll groups hmem hknown haround
  have hmadeKnown : made.position.hasFile = true :=
    (Position.hasFile_congr hmadeFile).trans hknown
  have hle : (branch builder name groups).position.place ≤ made.position.place :=
    builder.place_mergedPosition_le hmade hmadeKnown (hmadeFile.trans hfile)
  rw [← Bool.not_eq_true, Position.precedes_iff_place_lt hfile]
  exact not_lt.2 (hle.trans hplace)

end Group

/-! ## 2. The children that are read back -/

/-- A reader finds the frame of a node in front of more bytes, whatever its kind. -/
theorem Node.cut_bytes_append {node : Node} (hfits : node.Fits)
    (hdata : node.data.length % 8 = 0) (rest : List UInt8) :
    Frame.WellSized (node.bytes ++ rest)
      ∧ ⟨node.header, node.data, node.size⟩ = Frame.cut (node.bytes ++ rest) := by
  rw [← Frame.scan_eq_ok_iff, Frame.scan, Node.read_bytes_append hfits hdata, Outcome.ok_bind]
  rfl

/-- **Nodes one after another are read back under their own headers**, if they are read back at
all: each says where the next one starts. -/
theorem PlainNode.headers_of_decodeAll : ∀ (members : List PlainNode) {trees : List Tree},
    (members.flatMap fun member => member.node.bytes).length < UInt64.size →
    (Tree.decodeAll (members.flatMap fun member => member.node.bytes)).result = .ok trees →
    trees.map Tree.header = members.map fun member => member.node.header
  | [], trees, _, hread => by
    rw [List.flatMap_nil, Tree.decodeAll_eq_readAll, Tree.readAll_of_lt (by simp [Header.width])]
      at hread
    obtain rfl := Except.ok.inj hread
    rfl
  | member :: rest, trees, hsmall, hread => by
    rw [List.flatMap_cons] at hsmall hread
    have hlength : (member.node.bytes ++ rest.flatMap fun member => member.node.bytes).length
        = member.node.size + (rest.flatMap fun member => member.node.bytes).length := by
      rw [List.length_append, Node.length_bytes]
    have hfits : member.node.Fits := by
      rw [Node.Fits]
      omega
    obtain ⟨hsized, hcut⟩ := Node.cut_bytes_append hfits member.aligned
      (rest.flatMap fun member => member.node.bytes)
    rw [Tree.decodeAll_eq_ok_cons_iff hsized.width_le_length, ← hcut,
      List.drop_left' (Node.length_bytes _)] at hread
    obtain ⟨first, others, rfl, -, hfirst, hothers⟩ := hread
    rw [List.map_cons, List.map_cons, Tree.header_of_ofFrame hfirst,
      headers_of_decodeAll rest (by omega) hothers]

/-- A branch is read back as a branch of what its data is read as. -/
theorem Node.children_of_decode {node : Node} (hfits : node.Fits)
    (hdata : node.data.length % 8 = 0) (hkind : node.kind = .branch) {tree : Tree} {used : Nat}
    (h : (Tree.decode node.bytes).result = .ok (tree, used)) :
    ∃ children : List Tree, tree = .branch node.header children
      ∧ (Tree.decodeAll node.data).result = .ok children := by
  obtain ⟨-, hcut⟩ := Node.cut_bytes_append hfits hdata []
  rw [List.append_nil] at hcut
  obtain ⟨-, -, htree⟩ := Tree.decode_eq_ok_iff.1 h
  rw [← hcut] at htree
  rcases Tree.cases_of_ofFrame htree with ⟨value, hvalue, -⟩ | ⟨-, children, hchildren, rfl⟩
  · have hbranch : node.header.kind? = some .branch := by simp [hkind]
    exact absurd hbranch (Scalar.kind?_ne_branch hvalue)
  · exact ⟨children, rfl, hchildren⟩

/-! ## 3. The values of a run -/

theorem Group.value?_list (builder : Builder) (groups : List Group) :
    (builder.list (groups.map value)).value? = some (list builder groups).value := by
  rw [Builder.list, Outcome.value?_bind, value?_merge_groups]
  rfl

namespace Sketch

/-- The value is the coordinates of a token, or comes from a group. -/
def Grouped (sketch : Sketch) : Prop :=
  sketch.isCount = true ∨ ∃ group : Group, group.value = sketch.value

theorem grouped_pass : pass.Grouped := .inr ⟨.pass, rfl⟩

theorem grouped_node (outline : Outline) : (node outline).Grouped :=
  .inr ⟨.node (.ofOutline outline), rfl⟩

/-- Values without a token among them come from groups. -/
theorem exists_groups {sketches : List Sketch} (hgrouped : ∀ sketch ∈ sketches, sketch.Grouped)
    (hcount : ¬ sketches.any isCount = true) :
    ∃ groups : List Group, groups.map Group.value = sketches.map value := by
  induction sketches with
  | nil => exact ⟨[], rfl⟩
  | cons sketch rest ih =>
    rw [List.any_cons, Bool.or_eq_true, not_or] at hcount
    obtain ⟨hone, hothers⟩ := List.forall_mem_cons.1 hgrouped
    obtain ⟨groups, hgroups⟩ := ih hothers hcount.2
    rcases hone with hone | ⟨group, hgroup⟩
    · exact absurd hone hcount.1
    · exact ⟨group :: groups, by rw [List.map_cons, List.map_cons, hgroup, hgroups]⟩

end Sketch

namespace Builder

variable {builder : Builder} {taken : List Sketch} {made : Sketch}

theorem grouped_sketchBranch {name : Tag} (h : builder.sketchBranch name taken = some made) :
    made.Grouped := by
  unfold sketchBranch at h
  split at h
  · exact absurd h.symm (Option.some_ne_none made)
  · obtain rfl := Option.some.inj h
    exact Sketch.grouped_node _

/-- A list of values that come from groups comes from the list of these groups. -/
theorem grouped_sketchList (htaken : ∀ sketch ∈ taken, sketch.Grouped)
    (h : builder.sketchList taken = some made) : made.Grouped := by
  have hvalue := builder.value?_list taken
  rw [h, Option.map_some] at hvalue
  by_cases hcount : taken.any Sketch.isCount = true
  · rw [sketchList, if_pos hcount] at h
    exact absurd h.symm (Option.some_ne_none made)
  · obtain ⟨groups, hgroups⟩ := Sketch.exists_groups htaken hcount
    rw [← hgroups, Group.value?_list] at hvalue
    exact .inr ⟨_, Option.some.inj hvalue⟩

theorem grouped_sketchNest {name : Tag} : ∀ (times : Nat) {sketch made : Sketch},
    sketch.Grouped → builder.sketchNest name times sketch = some made → made.Grouped
  | 0, _, _, hsketch, h => Option.some.inj h ▸ hsketch
  | times + 1, _, _, _, h => by
    obtain ⟨wrapped, hwrapped, h⟩ := Option.bind_eq_some_iff.1 h
    exact grouped_sketchNest times (grouped_sketchBranch hwrapped) h

/-- **What an action describes comes from groups, if what it takes does.** -/
theorem grouped_describe (htaken : ∀ sketch ∈ taken, sketch.Grouped) {action : Action}
    (h : builder.describe taken action = some made) : made.Grouped := by
  cases action with
  | advance _ | reposition _ | setInput _ | intern _ | write _ =>
    exact absurd h.symm (Option.some_ne_none made)
  | count text =>
    obtain rfl := Option.some.inj h
    exact .inl rfl
  | pass =>
    obtain rfl := Option.some.inj h
    exact Sketch.grouped_pass
  | fileNames | null | leaf _ | text _ _ =>
    obtain rfl := Option.some.inj h
    exact Sketch.grouped_node _
  | escapedText _ _ _ | integer _ _ _ _ | real _ _ | usual _ _ =>
    obtain ⟨read, -, rfl⟩ := Option.map_eq_some_iff.1 h
    exact Sketch.grouped_node _
  | branch name children => exact grouped_sketchBranch h
  | list children => exact grouped_sketchList htaken h
  | wrap slot name times =>
    obtain ⟨first, hfirst, h⟩ := Option.bind_eq_some_iff.1 h
    exact grouped_sketchNest times (htaken first (List.mem_of_head? hfirst)) h
  | document slot =>
    obtain ⟨root, -, h⟩ := Option.bind_eq_some_iff.1 h
    unfold sketchDocument at h
    split at h
    · exact absurd h.symm (Option.some_ne_none made)
    · obtain rfl := Option.some.inj h
      exact Sketch.grouped_node _

end Builder

namespace Draft

/-- Every value in a slot is the coordinates of a token or comes from a group. -/
def AllGrouped (draft : Draft) : Prop := draft.slots.All Sketch.Grouped

theorem AllGrouped.performInto {draft : Draft} (h : draft.AllGrouped) (action : Action)
    (slot : Option String) : (draft.performInto action slot).AllGrouped := by
  obtain ⟨htaken, hrest⟩ := Slots.All.takeAll h Sketch.grouped_pass action.takes
  unfold Draft.performInto perform
  cases hmade : draft.builder.describe (draft.slots.takeAll .pass action.takes).1 action with
  | none =>
    simp only [hmade]
    exact hrest
  | some made =>
    simp only [hmade]
    exact hrest.store (Builder.grouped_describe htaken hmade) slot

/-- **Every value of every run comes from groups**, but for the coordinates of tokens. -/
theorem AllGrouped.run : ∀ (steps : List (Action × Option String)) {draft : Draft},
    draft.AllGrouped → (draft.run steps).AllGrouped
  | [], _, h => h
  | (action, slot) :: rest, _, h => AllGrouped.run rest (h.performInto action slot)

end Draft

/-! ## 4. Branches of a run -/

/-- What the branch action makes, it makes of the values in the slots. -/
theorem Session.value?_branch_of_perform {session : Session} {name : Tag}
    {slots : List (Option String)} {value : Value}
    (h : (session.perform (.branch name slots)).1.result = .ok (.value value)) :
    (session.builder.branch name (session.takeAll slots).1).value? = some value := by
  have hmade : made (session.perform (.branch name slots)) = some value := by
    rw [made, Outcome.value?_eq_some.2 h]
    rfl
  rw [← hmade]
  exact (made_making _ _).symm

/-- The values that a branch is made of come from groups. -/
theorem Session.exists_groups_of_branch {start : Builder} (steps : List (Action × Option String))
    {name : Tag} {slots : List (Option String)} {value : Value}
    (h : ((((ofBuilder start).run steps).perform (.branch name slots))).1.result
      = .ok (.value value)) :
    ∃ groups : List Group,
      groups.map Group.value = (((ofBuilder start).run steps).takeAll slots).1 := by
  have hbranch := value?_branch_of_perform h
  have hrun : (ofBuilder start).run steps = ((Draft.ofBuilder start).run steps).session :=
    Draft.run_session steps (Draft.ofBuilder start)
  have hall : ((Draft.ofBuilder start).run steps).AllGrouped :=
    Draft.AllGrouped.run steps (Slots.all_empty _)
  rw [hrun, Draft.takeAll_session] at hbranch ⊢
  refine Sketch.exists_groups (hall.takeAll Sketch.grouped_pass slots).1 ?_
  intro hcount
  rw [Draft.session, Builder.value?_branch, Builder.sketchBranch, if_pos hcount] at hbranch
  exact absurd hbranch.symm (Option.some_ne_none value)

/-- The child is the node of the trail, and if the branch can see it, which is if it is in the file
of the branch and so are the lists around it, it does not stand before the branch. -/
structure CameIn (branch child : Tree) (trail : Trail) : Prop where
  header_eq : child.header = trail.member.node.header
  not_before : child.header.position.hasFile = true →
    child.header.position.file = branch.header.position.file →
    (∀ p ∈ trail.around, p.file = branch.header.position.file) →
    child.header.position.precedes branch.header.position = false

/-- **A branch starts before the children it can see.**  After any run, a branch that is made is
read back as a tree at its own position.  The values it was made of come from groups; and whatever
groups they come from, the children of the tree are the nodes in these groups, and none stands
before the branch that is in the file of the branch and was merged itself or came in through lists
in that file only. -/
theorem branch_starts_before_visible (start : Builder) (steps : List (Action × Option String))
    (name : Tag) (slots : List (Option String)) (session : Session)
    (hsession : session = (Session.ofBuilder start).run steps) (node : Node)
    (hmade : (session.perform (.branch name slots)).1.result = .ok (.value (.node node)))
    (hfits : node.Fits) :
    ∃ tree : Tree, Tree.decode node.bytes = .ok (tree, node.size)
      ∧ tree.header.position = node.position
      ∧ (∃ groups : List Group, groups.map Group.value = (session.takeAll slots).1)
      ∧ ∀ groups : List Group, groups.map Group.value = (session.takeAll slots).1 →
          List.Forall₂ (CameIn tree) tree.children (Group.trailsAll groups) := by
  subst hsession
  have hbranch := Session.value?_branch_of_perform hmade
  have hgroups := Session.exists_groups_of_branch steps hmade
  obtain ⟨sketch, -, hvalue⟩ := Draft.sketch_of_made hmade
  generalize (Session.ofBuilder start).run steps = session at hbranch hgroups ⊢
  -- every grouping of the values gives this node
  have hnode : ∀ groups : List Group, groups.map Group.value = (session.takeAll slots).1 →
      node = Group.branch session.builder name groups := by
    intro groups hsame
    rw [← hsame, Group.value?_branch] at hbranch
    exact (Value.node.inj (Option.some.inj hbranch)).symm
  obtain ⟨groups₀, hsame₀⟩ := hgroups
  have hkind : node.kind = .branch := by
    rw [hnode groups₀ hsame₀]
    rfl
  obtain ⟨outline, -, rfl⟩ := Sketch.eq_node_of_value hvalue (by rw [hkind]; exact Kind.noConfusion)
  have hdecode := Outline.decode_bytes hfits
  obtain ⟨children, htree, hchildren⟩ :=
    Node.children_of_decode hfits outline.length_data_mod hkind (by rw [hdecode]; rfl)
  refine ⟨outline.tree, hdecode, ?_, ⟨groups₀, hsame₀⟩, ?_⟩
  · rw [htree]
    rfl
  · intro groups hsame
    have hmembers : outline.node.data
        = (Group.membersAll groups).flatMap fun member => member.node.bytes := by
      rw [hnode groups hsame, Group.data_branch]
    have hsmall : ((Group.membersAll groups).flatMap fun member =>
        member.node.bytes).length < UInt64.size := by
      rw [← hmembers]
      rw [Node.Fits, Node.size] at hfits
      omega
    rw [hmembers] at hchildren
    have hheaders := PlainNode.headers_of_decodeAll _ hsmall hchildren
    rw [← Group.map_member_trailsAll, List.map_map, ← List.forall₂_eq_eq_eq,
      List.forall₂_map_left_iff, List.forall₂_map_right_iff] at hheaders
    -- child by child, with the trail known to be one of the groups
    have hpaired := (List.forall₂_and_left _ _).2
      ⟨fun trail (hmem : trail ∈ Group.trailsAll groups) => hmem, hheaders.flip⟩
    rw [htree]
    refine hpaired.flip.imp ?_
    rintro child trail ⟨hmem, hheader⟩
    refine ⟨hheader, ?_⟩
    rw [hheader]
    intro hknown hfile haround
    have hposition : (Tree.branch outline.node.header children).header.position
        = (Group.branch session.builder name groups).position := by
      rw [← hnode groups hsame]
      rfl
    rw [hposition] at hfile haround ⊢
    exact Group.not_precedes_branch session.builder name hmem hknown hfile haround

/-! ## 5. A child that the branch can not see -/

/-- Two tables of names: one file, and then another. -/
def firstTable : FileTable := (FileTable.ofCapacity 65536).added "b.y"

def bothTables : FileTable := firstTable.added "a.y"

theorem intern_firstTable : (FileTable.ofCapacity 65536).intern "b.y" = (0, firstTable) := by
  have hnew : (FileTable.ofCapacity 65536).index? "b.y" = none := by
    simp [FileTable.index?, FileTable.ofCapacity]
  rw [FileTable.intern, hnew]
  rfl

theorem intern_bothTables : firstTable.intern "a.y" = (1, bothTables) := by
  have hnew : firstTable.index? "a.y" = none := by
    rw [firstTable, FileTable.index?_added]
    simp [FileTable.index?, FileTable.ofCapacity]
  rw [FileTable.intern, hnew]
  rfl

/-- Two leaves in one file, `x` a line behind `z`, and then `y` in another file. -/
def twoFileSteps : List (Action × Option String) :=
  [(.setInput "b.y", none),
    (.advance [0x7A], none),
    (.leaf (.ofBytes [0x7A]), some "z"),
    (.advance [0x0A], none),
    (.advance [0x78], none),
    (.leaf (.ofBytes [0x78]), some "x"),
    (.setInput "a.y", none),
    (.advance [0x79], none),
    (.leaf (.ofBytes [0x79]), some "y")]

/-- The builder after the leaves, for the index and the table that interning gives. -/
def twoFileBuilder (file : UInt32) (table : FileTable) : Builder :=
  ⟨⟨⟨3, 2, 1, file⟩, ⟨4, 2, 2, file⟩, table, 8⟩, .standard⟩

/-- The session after the leaves, for the indices and the table that interning gives. -/
def twoFileSession (first second : UInt32) (table : FileTable) : Session :=
  ⟨twoFileBuilder second table,
    ⟨[("y", .node (leafAt 0x79 ⟨second, 2, 2⟩).node),
      ("x", .node (leafAt 0x78 ⟨first, 2, 1⟩).node),
      ("z", .node (leafAt 0x7A ⟨first, 1, 1⟩).node)]⟩⟩

theorem run_twoFileSteps :
    (Session.ofBuilder (.ofSettings .standard)).run twoFileSteps
      = twoFileSession 0 1 bothTables := by
  have hrun : (Session.ofBuilder (.ofSettings .standard)).run twoFileSteps
      = twoFileSession ((FileTable.ofCapacity 65536).intern "b.y").1
          (((FileTable.ofCapacity 65536).intern "b.y").2.intern "a.y").1
          (((FileTable.ofCapacity 65536).intern "b.y").2.intern "a.y").2 := rfl
  rw [hrun, intern_firstTable, intern_bothTables]

/-- The leaf in the other file and the first leaf go into a list, which is in the other file. -/
def hiddenSteps : List (Action × Option String) :=
  twoFileSteps ++ [(.list [some "y", some "z"], some "group")]

/-- The branch of the second leaf and the list. -/
def hiddenBranch : Action := .branch (.ofBytes [0x62]) [some "x", some "group"]

/-- The session before the branch is made. -/
def hiddenSession : Session :=
  ⟨twoFileBuilder 1 bothTables,
    ⟨[("group", .node (.assemble (.ofName "#list") .list ⟨1, 2, 2⟩
        ((leafAt 0x79 ⟨1, 2, 2⟩).node.bytes ++ (leafAt 0x7A ⟨0, 1, 1⟩).node.bytes))),
      ("x", .node (leafAt 0x78 ⟨0, 2, 1⟩).node)]⟩⟩

/-- What the branch describes: it starts at the second leaf, and holds the first. -/
def hiddenOutline : Outline :=
  .branch ⟨.ofBytes [0x62], ⟨0, 2, 1⟩, some "b.y"⟩
    [.literal ⟨.ofBytes [0x78], ⟨0, 2, 1⟩, some "b.y"⟩ .leaf,
      .literal ⟨.ofBytes [0x79], ⟨1, 2, 2⟩, some "a.y"⟩ .leaf,
      .literal ⟨.ofBytes [0x7A], ⟨0, 1, 1⟩, some "b.y"⟩ .leaf]

theorem run_hiddenSteps :
    hiddenSession = (Session.ofBuilder (.ofSettings .standard)).run hiddenSteps := by
  have hsplit : (Session.ofBuilder (.ofSettings .standard)).run hiddenSteps
      = ((Session.ofBuilder (.ofSettings .standard)).run twoFileSteps).run
          [(.list [some "y", some "z"], some "group")] := rfl
  rw [hsplit, run_twoFileSteps]
  rfl

set_option maxRecDepth 4000 in
theorem perform_hiddenBranch :
    (hiddenSession.perform hiddenBranch).1.result = .ok (.value (.node hiddenOutline.node)) := rfl

theorem branch_after_hidden_child :
    (((Session.ofBuilder (.ofSettings .standard)).run hiddenSteps).perform hiddenBranch).1.result
        = .ok (.value (.node hiddenOutline.node))
      ∧ hiddenOutline.node.Fits
      ∧ ∃ tree child : Tree, Tree.decode hiddenOutline.node.bytes
            = .ok (tree, hiddenOutline.node.size)
          ∧ child ∈ tree.children ∧ child.header.position.hasFile = true
          ∧ child.header.position.file = tree.header.position.file
          ∧ child.header.position.precedes tree.header.position = true := by
  have hfits : hiddenOutline.node.Fits := by decide +kernel
  refine ⟨?_, hfits, hiddenOutline.tree,
    (Outline.literal ⟨.ofBytes [0x7A], ⟨0, 1, 1⟩, some "b.y"⟩ .leaf).tree,
    Outline.decode_bytes hfits, ?_, rfl, rfl, rfl⟩
  · rw [← run_hiddenSteps]
    exact perform_hiddenBranch
  · exact .tail _ (.tail _ (.head _))

/-! ## 6. Children behind lists that it can see -/

/-- Three leaves in one file, `x` and `w` a line behind `z`, and then `y` in another file. -/
def fourLeafSteps : List (Action × Option String) :=
  [(.setInput "b.y", none),
    (.advance [0x7A], none),
    (.leaf (.ofBytes [0x7A]), some "z"),
    (.advance [0x0A], none),
    (.advance [0x78], none),
    (.leaf (.ofBytes [0x78]), some "x"),
    (.advance [0x77], none),
    (.leaf (.ofBytes [0x77]), some "w"),
    (.setInput "a.y", none),
    (.advance [0x79], none),
    (.leaf (.ofBytes [0x79]), some "y")]

/-- The builder after the leaves, for the index and the table that interning gives. -/
def fourLeafBuilder (file : UInt32) (table : FileTable) : Builder :=
  ⟨⟨⟨4, 2, 2, file⟩, ⟨5, 2, 3, file⟩, table, 8⟩, .standard⟩

/-- The session after the leaves, for the indices and the table that interning gives. -/
def fourLeafSession (first second : UInt32) (table : FileTable) : Session :=
  ⟨fourLeafBuilder second table,
    ⟨[("y", .node (leafAt 0x79 ⟨second, 2, 3⟩).node),
      ("w", .node (leafAt 0x77 ⟨first, 2, 2⟩).node),
      ("x", .node (leafAt 0x78 ⟨first, 2, 1⟩).node),
      ("z", .node (leafAt 0x7A ⟨first, 1, 1⟩).node)]⟩⟩

theorem run_fourLeafSteps :
    (Session.ofBuilder (.ofSettings .standard)).run fourLeafSteps
      = fourLeafSession 0 1 bothTables := by
  have hrun : (Session.ofBuilder (.ofSettings .standard)).run fourLeafSteps
      = fourLeafSession ((FileTable.ofCapacity 65536).intern "b.y").1
          (((FileTable.ofCapacity 65536).intern "b.y").2.intern "a.y").1
          (((FileTable.ofCapacity 65536).intern "b.y").2.intern "a.y").2 := rfl
  rw [hrun, intern_firstTable, intern_bothTables]

/-- The leaf `x` goes into a list in a list, both in its own file, and the leaf `z` behind `y` into
a list in the other file. -/
def listingSteps : List (Action × Option String) :=
  [(.list [some "x"], some "inner"),
    (.list [some "inner"], some "near"),
    (.list [some "y", some "z"], some "far")]

/-- The branch of the leaf `w` and the two lists. -/
def listedBranch : Action := .branch (.ofBytes [0x62]) [some "w", some "near", some "far"]

/-- What the branch is made of. -/
def listedGroups : List Group :=
  [.node (leafAt 0x77 ⟨0, 2, 2⟩),
    .list (fourLeafBuilder 1 bothTables)
      [.list (fourLeafBuilder 1 bothTables) [.node (leafAt 0x78 ⟨0, 2, 1⟩)]],
    .list (fourLeafBuilder 1 bothTables)
      [.node (leafAt 0x79 ⟨1, 2, 3⟩), .node (leafAt 0x7A ⟨0, 1, 1⟩)]]

/-- The session before the branch is made. -/
def listedSession : Session :=
  ⟨fourLeafBuilder 1 bothTables,
    ⟨[("far", .node (.assemble (.ofName "#list") .list ⟨1, 2, 3⟩
        ((leafAt 0x79 ⟨1, 2, 3⟩).node.bytes ++ (leafAt 0x7A ⟨0, 1, 1⟩).node.bytes))),
      ("near", .node (.assemble (.ofName "#list") .list ⟨0, 2, 1⟩
        (leafAt 0x78 ⟨0, 2, 1⟩).node.bytes)),
      ("w", .node (leafAt 0x77 ⟨0, 2, 2⟩).node)]⟩⟩

/-- What the branch describes: it starts at `x`, which it has from the list in its file. -/
def listedOutline : Outline :=
  .branch ⟨.ofBytes [0x62], ⟨0, 2, 1⟩, some "b.y"⟩
    [.literal ⟨.ofBytes [0x77], ⟨0, 2, 2⟩, some "b.y"⟩ .leaf,
      .literal ⟨.ofBytes [0x78], ⟨0, 2, 1⟩, some "b.y"⟩ .leaf,
      .literal ⟨.ofBytes [0x79], ⟨1, 2, 3⟩, some "a.y"⟩ .leaf,
      .literal ⟨.ofBytes [0x7A], ⟨0, 1, 1⟩, some "b.y"⟩ .leaf]

theorem run_listingSteps :
    listedSession
      = (Session.ofBuilder (.ofSettings .standard)).run (fourLeafSteps ++ listingSteps) := by
  have hsplit : (Session.ofBuilder (.ofSettings .standard)).run (fourLeafSteps ++ listingSteps)
      = ((Session.ofBuilder (.ofSettings .standard)).run fourLeafSteps).run listingSteps := rfl
  rw [hsplit, run_fourLeafSteps]
  rfl

set_option maxRecDepth 4000 in
theorem perform_listedBranch :
    (listedSession.perform listedBranch).1.result = .ok (.value (.node listedOutline.node)) := rfl

/-- The trails of the four children: `w` was merged itself, the lists around `x` are in the file of
the branch, and the list around `y` and `z` is not. -/
theorem trailsAll_listedGroups :
    Group.trailsAll listedGroups
      = [⟨[], leafAt 0x77 ⟨0, 2, 2⟩⟩,
        ⟨[⟨0, 2, 1⟩, ⟨0, 2, 1⟩], leafAt 0x78 ⟨0, 2, 1⟩⟩,
        ⟨[⟨1, 2, 3⟩], leafAt 0x79 ⟨1, 2, 3⟩⟩,
        ⟨[⟨1, 2, 3⟩], leafAt 0x7A ⟨0, 1, 1⟩⟩] := rfl

/-- The branch of `w`, of `x` in two lists and of `y` and `z` in another starts at `x`.  It is not
behind `w` and `x`; it can not see `z`, and is behind it. -/
theorem branch_starts_before_visible_hidden :
    listedSession
        = (Session.ofBuilder (.ofSettings .standard)).run (fourLeafSteps ++ listingSteps)
      ∧ (listedSession.perform listedBranch).1.result = .ok (.value (.node listedOutline.node))
      ∧ listedOutline.node.Fits
      ∧ listedGroups.map Group.value
          = (listedSession.takeAll [some "w", some "near", some "far"]).1
      ∧ ∃ tree w x y z : Tree,
          Tree.decode listedOutline.node.bytes = .ok (tree, listedOutline.node.size)
          ∧ tree.header.position = ⟨0, 2, 1⟩
          ∧ tree.children = [w, x, y, z]
          ∧ List.Forall₂ (CameIn tree) tree.children (Group.trailsAll listedGroups)
          ∧ w.header.position = ⟨0, 2, 2⟩
          ∧ w.header.position.precedes tree.header.position = false
          ∧ x.header.position = ⟨0, 2, 1⟩
          ∧ x.header.position.precedes tree.header.position = false
          ∧ z.header.position = ⟨0, 1, 1⟩
          ∧ z.header.position.precedes tree.header.position = true := by
  have hfits : listedOutline.node.Fits := by decide +kernel
  have hgroups : listedGroups.map Group.value
      = (listedSession.takeAll [some "w", some "near", some "far"]).1 := rfl
  obtain ⟨tree, hdecode, hposition, -, hall⟩ := branch_starts_before_visible
    (.ofSettings .standard) (fourLeafSteps ++ listingSteps) _ _ listedSession run_listingSteps _
    perform_listedBranch hfits
  have hcame := hall listedGroups hgroups
  have hfour := hcame
  rw [trailsAll_listedGroups] at hfour
  obtain ⟨w, _, hw, hthree, hchildren⟩ := List.forall₂_cons_right_iff.1 hfour
  obtain ⟨x, _, hx, htwo, rfl⟩ := List.forall₂_cons_right_iff.1 hthree
  obtain ⟨y, _, -, hone, rfl⟩ := List.forall₂_cons_right_iff.1 htwo
  obtain ⟨z, _, hz, hnone, rfl⟩ := List.forall₂_cons_right_iff.1 hone
  obtain rfl := List.forall₂_nil_right_iff.1 hnone
  have hstart : tree.header.position = ⟨0, 2, 1⟩ := hposition
  have hwAt : w.header.position = ⟨0, 2, 2⟩ := by rw [hw.header_eq]; rfl
  have hxAt : x.header.position = ⟨0, 2, 1⟩ := by rw [hx.header_eq]; rfl
  have hzAt : z.header.position = ⟨0, 1, 1⟩ := by rw [hz.header_eq]; rfl
  have hwFile : w.header.position.file = tree.header.position.file := by rw [hwAt, hstart]
  have hxFile : x.header.position.file = tree.header.position.file := by rw [hxAt, hstart]
  refine ⟨run_listingSteps, perform_listedBranch, hfits, hgroups, tree, w, x, y, z, hdecode, hstart,
    hchildren, hcame, hwAt, hw.not_before (by rw [hwAt]; rfl) hwFile (by simp), hxAt,
    hx.not_before (by rw [hxAt]; rfl) hxFile (by simp [hstart]), hzAt, ?_⟩
  rw [hzAt, hstart]
  rfl

end SyntaxTree
