/-
# Grouping into lists leaves no trace

A list exists only to be merged into something else, where it stands for its items.  This file
proves that the detour can not be seen in a branch (`branch_of_groups`): however its children were
grouped into lists, and lists of lists, its data is that of the children given one by one.

`Group` is a nesting of list calls over passes and finished nodes.  Each call is made by a builder
of its own, since the cursor may have moved between the calls.

The position of the branch is another matter.  A list is stamped with a position when it is made,
and the branch sees only that one.  The stamps make no difference if

* all nodes with a file are in one file, so that the earliest may be taken in stages
  (`Position.earliest_append`), and
* every list has such a node, or it would be stamped where the cursor happens to be (`Anchored`).

Then the branch is the same as a whole (`earliest_nodes`).
-/
import SyntaxTree.Proofs.EarliestPosition
import SyntaxTree.Proofs.RoundTrip

namespace SyntaxTree

/-! ## 1. Groups -/

/-- A finished node as a merge takes it: no list, and of whole words. -/
structure PlainNode where
  node : Node
  kind_ne_list : node.kind ≠ .list
  aligned : node.data.length % 8 = 0

namespace PlainNode

/-- The node of an outline. -/
def ofOutline (outline : Outline) : PlainNode where
  node := outline.node
  kind_ne_list := outline.node_kind ▸ outline.kind_ne_list
  aligned := outline.length_data_mod

/-- Where the node is. -/
def position (member : PlainNode) : Position := member.node.position

/-- Every node that a run makes is one of these, or a list. -/
theorem exists_of_made {start : Builder} {steps : List (Action × Option String)} {action : Action}
    {node : Node}
    (hmade : (((Session.ofBuilder start).run steps).perform action).1.result
      = .ok (.value (.node node)))
    (hkind : node.kind ≠ .list) : ∃ member : PlainNode, member.node = node := by
  obtain ⟨sketch, -, hvalue⟩ := Draft.sketch_of_made hmade
  obtain ⟨outline, -, rfl⟩ := Sketch.eq_node_of_value hvalue hkind
  exact ⟨ofOutline outline, rfl⟩

/-- Nodes one after another are whole words. -/
theorem length_flatMap_bytes_mod (members : List PlainNode) :
    (members.flatMap fun member => member.node.bytes).length % 8 = 0 := by
  induction members with
  | nil => rfl
  | cons member rest ih =>
    have hdata := member.aligned
    rw [List.flatMap_cons, List.length_append, Node.length_bytes, Node.size, Header.width]
    omega

end PlainNode

/-- A child of a merge: nothing, a node, or a list call over children. -/
inductive Group where
  | pass
  | node (member : PlainNode)
  | list (builder : Builder) (groups : List Group)

namespace Group

mutual

/-- Makes the value of a group, with a list call for each list in it. -/
def build : Group → Outcome Error Value
  | pass => .ok .pass
  | node member => .ok (.node member.node)
  | list builder groups => do
    let values ← buildAll groups
    builder.list values

/-- Makes the values of several groups. -/
def buildAll : List Group → Outcome Error (List Value)
  | [] => .ok []
  | group :: rest => do
    let first ← build group
    let others ← buildAll rest
    return first :: others

end

mutual

/-- The nodes in a group at any depth, in order. -/
def members : Group → List PlainNode
  | pass => []
  | node member => [member]
  | list _ groups => membersAll groups

/-- The nodes in several groups. -/
def membersAll : List Group → List PlainNode
  | [] => []
  | group :: rest => members group ++ membersAll rest

end

mutual

/-- Every list in the group has a node with a file in it. -/
def Anchored : Group → Prop
  | pass => True
  | node _ => True
  | list _ groups =>
    (∃ member ∈ membersAll groups, member.position.hasFile = true) ∧ AnchoredAll groups

/-- Every list in the groups has a node with a file in it. -/
def AnchoredAll : List Group → Prop
  | [] => True
  | group :: rest => Anchored group ∧ AnchoredAll rest

end

theorem membersAll_map_node (members : List PlainNode) :
    membersAll (members.map node) = members := by
  induction members with
  | nil => rfl
  | cons member rest ih =>
    rw [List.map_cons, membersAll, ih]
    rfl

/-- Without lists there is nothing to anchor. -/
theorem anchoredAll_map_node (members : List PlainNode) : AnchoredAll (members.map node) := by
  induction members with
  | nil => trivial
  | cons member rest ih => exact ⟨trivial, ih⟩

/-! ## 2. What the calls make -/

mutual

/-- The node that the calls for a group make, unless it is a pass. -/
def node? : Group → Option Node
  | pass => none
  | node member => some member.node
  | list builder groups =>
    some (.assemble (.ofName "#list") .list (builder.mergedPosition none (nodes groups))
      ((nodes groups).flatMap Node.contribution))

/-- The nodes that the calls for several groups make. -/
def nodes : List Group → List Node
  | [] => []
  | group :: rest => (node? group).toList ++ nodes rest

end

/-- The value that the calls for a group make. -/
def value (group : Group) : Value := group.node?.elim .pass .node

/-- A merge of groups takes their nodes: none of them is the coordinates of a token. -/
theorem parts_map_value (into : Tag) : ∀ groups : List Group,
    Builder.parts into (groups.map value) = .ok (nodes groups)
  | [] => rfl
  | group :: rest => by
    have ih := parts_map_value into rest
    rw [List.map_cons, nodes, value]
    cases group.node? with
    | none => exact ih
    | some made =>
      simp only [Option.elim_some, Builder.parts, ih]
      rfl

theorem value?_merge_groups (builder : Builder) (name : Tag) (kind : Kind) (groups : List Group)
    (fixed : Option Position) :
    (builder.merge name kind (groups.map value) fixed).value?
      = some (.assemble name kind (builder.mergedPosition fixed (nodes groups))
          ((nodes groups).flatMap Node.contribution)) := by
  rw [Builder.merge, parts_map_value]
  rfl

mutual

/-- The calls for a group do not fail. -/
theorem value?_build : ∀ group : Group, group.build.value? = some group.value
  | pass => rfl
  | node _ => rfl
  | list builder groups => by
    rw [build, Outcome.value?_bind, value?_buildAll groups, Option.bind_some, Builder.list,
      Outcome.value?_bind, value?_merge_groups]
    rfl

theorem value?_buildAll : ∀ groups : List Group,
    (buildAll groups).value? = some (groups.map value)
  | [] => rfl
  | group :: rest => by
    rw [buildAll, Outcome.value?_bind, value?_build group, Option.bind_some, Outcome.value?_bind,
      value?_buildAll rest]
    rfl

end

/-! ## 3. The data -/

mutual

/-- **A group contributes its nodes**, and the lists in it contribute nothing of their own: whole
words are not padded, so what a list loses with its header is all that it had added. -/
theorem contribution_node? : ∀ group : Group,
    group.node?.toList.flatMap Node.contribution
      = group.members.flatMap fun member => member.node.bytes
  | pass => rfl
  | node member => by
    have hone : member.node.contribution = member.node.bytes := if_neg member.kind_ne_list
    simp [node?, members, hone]
  | list builder groups => by
    have hall := contribution_nodes groups
    have hwords := PlainNode.length_flatMap_bytes_mod (membersAll groups)
    have hlist (position : Position) : (Node.assemble (.ofName "#list") .list position
        ((nodes groups).flatMap Node.contribution)).contribution
          = padded ((nodes groups).flatMap Node.contribution) := if_pos rfl
    simp only [node?, members, Option.toList_some, List.flatMap_singleton]
    rw [hlist, hall, padded_of_aligned hwords]

theorem contribution_nodes : ∀ groups : List Group,
    (nodes groups).flatMap Node.contribution
      = (membersAll groups).flatMap fun member => member.node.bytes
  | [] => rfl
  | group :: rest => by
    rw [nodes, membersAll, List.flatMap_append, List.flatMap_append, contribution_node? group,
      contribution_nodes rest]

end

/-! ## 4. The position -/

variable {file : UInt32}

mutual

/-- The one position of an anchored group within a file is the earliest in it. -/
theorem earliest_node? : ∀ group : Group, group.Anchored →
    Position.WithinFile file (group.members.map PlainNode.position) →
    Position.WithinFile file (group.node?.toList.map Node.position)
      ∧ Position.earliest (group.node?.toList.map Node.position)
        = Position.earliest (group.members.map PlainNode.position)
  | pass, _, hfile => ⟨hfile, rfl⟩
  | node member, _, hfile => ⟨hfile, rfl⟩
  | list builder groups, hanchored, hfile => by
    obtain ⟨⟨anchor, hanchor, hknown⟩, hall⟩ := hanchored
    obtain ⟨-, hstaged⟩ := earliest_nodes groups hall hfile
    cases hfound : Position.earliest ((membersAll groups).map PlainNode.position) with
    | none =>
      -- the anchor has a file
      have hnone := Position.earliest_eq_none_iff.1 hfound _ (List.mem_map_of_mem hanchor)
      rw [hknown] at hnone
      exact Bool.noConfusion hnone
    | some found =>
      have hstamp : builder.mergedPosition none (nodes groups) = found := by
        rw [Builder.mergedPosition_eq, hstaged, hfound]
        rfl
      have hposition : (list builder groups).node?.toList.map Node.position = [found] := by
        rw [node?, hstamp]
        rfl
      rw [hposition, members, hfound]
      refine ⟨?_, Position.earliest_singleton (Position.hasFile_of_earliest hfound)⟩
      intro p hp _
      rw [List.mem_singleton.1 hp]
      exact Position.of_earliest hfound hfile

/-- **The earliest of anchored groups within a file is the earliest of all nodes in them.** -/
theorem earliest_nodes : ∀ groups : List Group, AnchoredAll groups →
    Position.WithinFile file ((membersAll groups).map PlainNode.position) →
    Position.WithinFile file ((nodes groups).map Node.position)
      ∧ Position.earliest ((nodes groups).map Node.position)
        = Position.earliest ((membersAll groups).map PlainNode.position)
  | [], _, hfile => ⟨hfile, rfl⟩
  | group :: rest, hanchored, hfile => by
    rw [membersAll, List.map_append, Position.withinFile_append] at hfile
    obtain ⟨hone, heq⟩ := earliest_node? group hanchored.1 hfile.1
    obtain ⟨hothers, heqs⟩ := earliest_nodes rest hanchored.2 hfile.2
    rw [nodes, membersAll, List.map_append, List.map_append]
    refine ⟨Position.withinFile_append.2 ⟨hone, hothers⟩, ?_⟩
    rw [Position.earliest_append hone hothers, Position.earliest_append hfile.1 hfile.2, heq, heqs]

end

/-! ## 5. Branches -/

/-- The branch that a builder makes of groups. -/
def branch (builder : Builder) (name : Tag) (groups : List Group) : Node :=
  .assemble name .branch (builder.mergedPosition none (nodes groups))
    ((nodes groups).flatMap Node.contribution)

theorem value?_branch (builder : Builder) (name : Tag) (groups : List Group) :
    (builder.branch name (groups.map value)).value? = some (.node (branch builder name groups)) := by
  rw [Builder.branch, Outcome.value?_bind, value?_merge_groups]
  rfl

theorem data_branch (builder : Builder) (name : Tag) (groups : List Group) :
    (branch builder name groups).data
      = (membersAll groups).flatMap fun member => member.node.bytes := by
  rw [branch, Node.assemble, contribution_nodes,
    padded_of_aligned (PlainNode.length_flatMap_bytes_mod _)]

/-- Only the nodes in the groups count for where a merge starts. -/
theorem mergedPosition_nodes (builder : Builder) {groups : List Group}
    (hanchored : AnchoredAll groups)
    (hfile : Position.WithinFile file ((membersAll groups).map PlainNode.position)) :
    builder.mergedPosition none (nodes groups)
      = (Position.earliest ((membersAll groups).map PlainNode.position)).getD
          builder.tracker.currentPosition := by
  obtain ⟨-, hstaged⟩ := earliest_nodes groups hanchored hfile
  rw [Builder.mergedPosition_eq, hstaged]
  rfl

/-- Two anchored groupings of the same nodes, all in one file, make the same branch. -/
theorem branch_congr (builder : Builder) (name : Tag) {groups others : List Group}
    (hsame : membersAll groups = membersAll others)
    (hgroups : AnchoredAll groups) (hothers : AnchoredAll others)
    (hfile : Position.WithinFile file ((membersAll groups).map PlainNode.position)) :
    branch builder name groups = branch builder name others := by
  rw [branch, branch, mergedPosition_nodes builder hgroups hfile,
    mergedPosition_nodes builder hothers (hsame ▸ hfile), contribution_nodes, contribution_nodes,
    hsame]

end Group

/-- **Grouping into lists leaves no trace in a branch.**  For any builder and any children grouped
into lists to any depth, the calls succeed, and the data of the branch is that of the branch of
the nodes in them one by one, which is those nodes and nothing else.  If the nodes that have a
file share it, and every list has such a node in it, the two branches are the same, with their
positions. -/
theorem branch_of_groups (builder : Builder) (name : Tag) (groups : List Group) :
    ∃ grouped flat : Node,
      (Group.buildAll groups >>= builder.branch name).result = .ok (.node grouped)
        ∧ (builder.branch name
            ((Group.membersAll groups).map fun member => .node member.node)).result
              = .ok (.node flat)
        ∧ grouped.data = flat.data
        ∧ flat.data = (Group.membersAll groups).flatMap (fun member => member.node.bytes)
        ∧ ∀ file : UInt32,
            (∀ member ∈ Group.membersAll groups, member.position.hasFile = true →
              member.position.file = file) →
            Group.AnchoredAll groups → grouped = flat ∧ grouped.bytes = flat.bytes := by
  -- the nodes one by one are a grouping too, and one without lists
  let singles : List Group := (Group.membersAll groups).map .node
  have hsingles : Group.membersAll singles = Group.membersAll groups :=
    Group.membersAll_map_node (Group.membersAll groups)
  have hvalues : (Group.membersAll groups).map (fun member => Value.node member.node)
      = singles.map Group.value := by
    rw [List.map_map]
    rfl
  have hgrouped : (Group.buildAll groups >>= builder.branch name).value?
      = some (.node (Group.branch builder name groups)) := by
    rw [Outcome.value?_bind, Group.value?_buildAll, Option.bind_some, Group.value?_branch]
  have hflat := Group.value?_branch builder name singles
  refine ⟨Group.branch builder name groups, Group.branch builder name singles,
    Outcome.value?_eq_some.1 hgrouped, ?_, ?_, ?_, ?_⟩
  · rw [hvalues]
    exact Outcome.value?_eq_some.1 hflat
  · rw [Group.data_branch, Group.data_branch, hsingles]
  · rw [Group.data_branch, hsingles]
  · intro file hfile hanchored
    have hwithin : Position.WithinFile file
        ((Group.membersAll groups).map PlainNode.position) := by
      intro p hp hknown
      obtain ⟨member, hmember, rfl⟩ := List.mem_map.1 hp
      exact hfile member hmember hknown
    have heq := Group.branch_congr builder name hsingles.symm hanchored
      (Group.anchoredAll_map_node _) hwithin
    exact ⟨heq, congrArg Node.bytes heq⟩

/-- A leaf of one letter somewhere in a file. -/
def leafAt (letter : UInt8) (position : Position) : PlainNode :=
  .ofOutline (.literal ⟨.ofBytes [letter], position, none⟩ .leaf)

/-- A builder whose cursor is in a file. -/
def builderAt (line column : UInt32) : Builder :=
  ⟨⟨⟨0, line, column, 0⟩, ⟨0, line, column, 0⟩, .ofCapacity 1, 8⟩, .standard⟩

/-- Three leaves, one of them nowhere, in lists that were made at different places. -/
def nestedGroups : List Group :=
  [.list (builderAt 7 0) [.node (leafAt 0x78 ⟨0, 2, 1⟩), .pass],
    .list (builderAt 9 0) [.list (builderAt 8 4) [.node (leafAt 0x79 ⟨0, 1, 5⟩)]],
    .node (leafAt 0x7A .unknown)]

theorem branch_of_nestedGroups :
    (∀ member ∈ Group.membersAll nestedGroups, member.position.hasFile = true →
        member.position.file = 0)
      ∧ Group.AnchoredAll nestedGroups
      ∧ ∃ grouped flat : Node,
          (Group.buildAll nestedGroups >>= (builderAt 9 0).branch .blank).result
              = .ok (.node grouped)
            ∧ ((builderAt 9 0).branch .blank
                ((Group.membersAll nestedGroups).map fun member => .node member.node)).result
                  = .ok (.node flat)
            ∧ grouped = flat ∧ grouped.bytes = flat.bytes := by
  have hfile : ∀ member ∈ Group.membersAll nestedGroups, member.position.hasFile = true →
      member.position.file = 0 := by
    decide
  have hanchored : Group.AnchoredAll nestedGroups := by
    refine ⟨⟨⟨_, .head _, rfl⟩, trivial, trivial, trivial⟩,
      ⟨⟨_, .head _, rfl⟩, ⟨⟨_, .head _, rfl⟩, trivial, trivial⟩, trivial⟩, trivial, trivial⟩
  obtain ⟨grouped, flat, hgrouped, hflat, -, -, hsame⟩ :=
    branch_of_groups (builderAt 9 0) .blank nestedGroups
  exact ⟨hfile, hanchored, grouped, flat, hgrouped, hflat, hsame 0 hfile hanchored⟩

/-- A list without a node is stamped where the cursor is, and that may be in front of all. -/
example : (Group.branch (builderAt 3 0) .blank
      [.list (builderAt 1 0) [], .node (leafAt 0x78 ⟨0, 2, 1⟩)]).position = ⟨0, 1, 1⟩
    ∧ (Group.branch (builderAt 3 0) .blank
      [.node (leafAt 0x78 ⟨0, 2, 1⟩)]).position = ⟨0, 2, 1⟩ := by
  decide

end SyntaxTree
