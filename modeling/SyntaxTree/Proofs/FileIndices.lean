/-
# Every file index in a document resolves

A node is stamped with a file index when it is made, and the file names are written when the
document is made, much later.  This file proves that the two fit together (`document_resolves`):
an index in a document either has a meaning of its own or is the place of a name among the file
names, and it is the same name that the index had when the node was stamped.  Tables that fill
up on the way are no exception: their index for a file without room has a meaning of its own.

* `Stamp.ResolvesIn` is the statement about one stamp and one table.  It survives every growth
  of the table (`Stamp.ResolvesIn.mono`).
* `Tracker.Located` is the invariant of the tracker: both its cursors are in files the table
  knows.  Every action keeps it and lets the table grow only (`Builder.movedTo_after`).
* `Sketch.ResolvesIn` says it of all stamps of a value, at every depth.  A new stamp is put
  where a cursor is, where one of the children is, or nowhere, so what an action describes
  resolves if what it takes does (`Builder.resolvesIn_describe`).
* `Draft.Resolved` joins the two, and holds after every run (`Draft.Resolved.run`).
-/
import SyntaxTree.Proofs.Draft
import SyntaxTree.Proofs.FileTable

namespace SyntaxTree

/-! ## 1. Files that a table knows -/

namespace FileTable

/-- The index has a meaning of its own, or the table has a name for it. -/
def Knows (table : FileTable) (file : UInt32) : Prop :=
  file = Position.unknownNumber ∨ file = Position.tableFull
    ∨ ∃ name : String, table.get? file = some name

theorem Knows.mono {table later : FileTable} {file : UInt32} (h : table.Knows file)
    (hext : table.Extends later) : later.Knows file := by
  obtain hunknown | hfull | ⟨name, hname⟩ := h
  · exact .inl hunknown
  · exact .inr (.inl hfull)
  · exact .inr (.inr ⟨name, hext file name hname⟩)

/-- The table knows the index that interning gives back. -/
theorem knows_intern {table : FileTable} (h : table.Coherent) (name : String) :
    (table.intern name).2.Knows (table.intern name).1 := by
  obtain hfull | hname := get?_intern h name
  · exact .inr (.inl hfull)
  · exact .inr (.inr ⟨name, hname⟩)

end FileTable

/-! ## 2. The tracker -/

namespace Tracker

/-- Both cursors are in files that the table knows. -/
structure Located (tracker : Tracker) : Prop where
  coherent : tracker.files.Coherent
  previous : tracker.files.Knows tracker.previous.file
  current : tracker.files.Knows tracker.current.file

/-- The tracker is located, and no index has changed its name since an earlier one. -/
structure MovedTo (tracker later : Tracker) : Prop where
  located : later.Located
  extends_files : tracker.files.Extends later.files

theorem located_ofSettings (settings : Settings) : (ofSettings settings).Located :=
  ⟨FileTable.coherent_ofCapacity _, .inl rfl, .inl rfl⟩

variable {tracker later : Tracker}

theorem Located.stay (h : tracker.Located) : tracker.MovedTo tracker :=
  ⟨h, .refl tracker.files⟩

theorem Located.advance (h : tracker.Located) (text : List UInt8) :
    tracker.MovedTo (tracker.advance text) := by
  refine ⟨⟨h.coherent, h.current, ?_⟩, .refl tracker.files⟩
  have hfile : (tracker.advance text).current.file = tracker.current.file :=
    Cursor.file_advance tracker.tabWidth text tracker.current
  rw [hfile]
  exact h.current

/-- Interning a name keeps both cursors where they are. -/
theorem Located.intern (h : tracker.Located) (name : String) :
    tracker.MovedTo { tracker with files := (tracker.files.intern name).2 } := by
  have hext := FileTable.extends_intern tracker.files name
  exact ⟨⟨FileTable.coherent_intern h.coherent name, h.previous.mono hext, h.current.mono hext⟩,
    hext⟩

/-- The cursor goes to a file that was just interned, and with it the last token or not. -/
theorem Located.enterFile (h : tracker.Located) (name : String) {previous current : Cursor}
    (hcurrent : current.file = (tracker.files.intern name).1)
    (hprevious : previous.file = current.file ∨ previous.file = tracker.previous.file) :
    tracker.MovedTo { tracker with
      files := (tracker.files.intern name).2
      previous := previous
      current := current } := by
  have hin := h.intern name
  have hknows := FileTable.knows_intern h.coherent name
  rw [← hcurrent] at hknows
  refine ⟨⟨hin.located.coherent, ?_, hknows⟩, hin.extends_files⟩
  obtain heq | heq := hprevious
  · exact heq ▸ hknows
  · exact heq ▸ hin.located.previous

theorem Located.enter {file : Option String} (h : tracker.Located)
    (hmove : (tracker.enter file : Outcome Error Tracker).value? = some later) :
    tracker.MovedTo later := by
  cases file with
  | none =>
    obtain rfl := Option.some.inj hmove
    exact h.stay
  | some name =>
    obtain rfl := Option.some.inj hmove
    exact h.enterFile name rfl (.inr rfl)

theorem Located.reposition {directive : String} (h : tracker.Located)
    (hmove : (tracker.reposition directive).value? = some later) : tracker.MovedTo later := by
  unfold Tracker.reposition at hmove
  split at hmove
  · exact absurd hmove (by simp)
  · rw [Outcome.value?_bind] at hmove
    obtain ⟨entered, henter, hrest⟩ := Option.bind_eq_some_iff.1 hmove
    obtain rfl := Option.some.inj hrest
    -- the line and the column change, and the file does not
    have hin := h.enter henter
    exact ⟨⟨hin.located.coherent, hin.located.previous, hin.located.current⟩, hin.extends_files⟩

end Tracker

namespace Builder

variable {builder : Builder}

/-- **Every action keeps the tracker located and every index its name.** -/
theorem movedTo_after (h : builder.tracker.Located) (action : Action) :
    builder.tracker.MovedTo (builder.after action).tracker := by
  cases action with
  | advance text => exact h.advance text
  | count text => exact h.advance text
  | reposition directive =>
    rw [after, Builder.reposition, Outcome.value?_bind]
    cases hmove : (builder.tracker.reposition directive).value? with
    | none => exact h.stay
    | some later => exact h.reposition hmove
  | setInput file => exact h.enterFile file rfl (.inl rfl)
  | intern file => exact h.intern file
  | _ => exact h.stay

end Builder

/-! ## 3. Stamps -/

namespace Stamp

/-- The file of the stamp has a meaning of its own, or the table has the name for it that the
stamp was made with. -/
def ResolvesIn (stamp : Stamp) (table : FileTable) : Prop :=
  stamp.position.file = Position.unknownNumber ∨ stamp.position.file = Position.tableFull
    ∨ ∃ name : String, stamp.file = some name ∧ table.get? stamp.position.file = some name

theorem ResolvesIn.mono {stamp : Stamp} {table later : FileTable} (h : stamp.ResolvesIn table)
    (hext : table.Extends later) : stamp.ResolvesIn later := by
  obtain hunknown | hfull | ⟨name, hstamp, hname⟩ := h
  · exact .inl hunknown
  · exact .inr (.inl hfull)
  · exact .inr (.inr ⟨name, hstamp, hext _ name hname⟩)

theorem ResolvesIn.knows {stamp : Stamp} {table : FileTable} (h : stamp.ResolvesIn table) :
    table.Knows stamp.position.file := by
  obtain hunknown | hfull | ⟨name, -, hname⟩ := h
  · exact .inl hunknown
  · exact .inr (.inl hfull)
  · exact .inr (.inr ⟨name, hname⟩)

end Stamp

/-- A stamp in a known file resolves when it is made. -/
theorem Builder.resolvesIn_stamp {builder : Builder} (name : Tag) {position : Position}
    (h : builder.tracker.files.Knows position.file) :
    (builder.stamp name position).ResolvesIn builder.tracker.files := by
  obtain hunknown | hfull | ⟨file, hfile⟩ := h
  · exact .inl hunknown
  · exact .inr (.inl hfull)
  · exact .inr (.inr ⟨file, hfile, hfile⟩)

/-- The earliest position is one of the positions, or the one there was before. -/
theorem Position.mem_of_foldl_earlier : ∀ (positions : List Position) {best : Option Position}
    {found : Position}, positions.foldl earlier best = some found →
      best = some found ∨ found ∈ positions
  | [], _, _, h => .inl h
  | position :: rest, best, found, h => by
    have hone : earlier best position = best ∨ earlier best position = some position := by
      unfold earlier
      split
      · split
        · exact .inr rfl
        · split
          · exact .inr rfl
          · exact .inl rfl
      · exact .inl rfl
    obtain hbest | hmem := mem_of_foldl_earlier rest h
    · obtain heq | heq := hone
      · exact .inl (heq ▸ hbest)
      · rw [heq] at hbest
        exact .inr (Option.some.inj hbest ▸ List.mem_cons_self)
    · exact .inr (List.mem_cons_of_mem position hmem)

theorem Position.mem_of_earliest {positions : List Position} {found : Position}
    (h : earliest positions = some found) : found ∈ positions := by
  obtain hnone | hmem := mem_of_foldl_earlier positions h
  · exact absurd hnone.symm (Option.some_ne_none found)
  · exact hmem

/-! ## 4. Values -/

namespace Sketch

/-- All stamps of a value, at every depth. -/
def stamps : Sketch → List Stamp
  | node outline => outline.parts.map Outline.stamp
  | list stamp items => stamp :: (Outline.partsAll items).map Outline.stamp
  | _ => []

/-- Every stamp of the value, at every depth, resolves. -/
def ResolvesIn (sketch : Sketch) (table : FileTable) : Prop :=
  ∀ stamp ∈ sketch.stamps, stamp.ResolvesIn table

variable {sketch : Sketch} {table later : FileTable}

theorem resolvesIn_pass (table : FileTable) : pass.ResolvesIn table := by
  intro stamp hstamp
  exact absurd hstamp List.not_mem_nil

theorem ResolvesIn.mono (h : sketch.ResolvesIn table) (hext : table.Extends later) :
    sketch.ResolvesIn later := by
  intro stamp hstamp
  exact (h stamp hstamp).mono hext

/-- The stamp of the value itself is one of its stamps. -/
theorem ResolvesIn.stamp? {stamp : Stamp} (h : sketch.ResolvesIn table)
    (hstamp : sketch.stamp? = some stamp) : stamp.ResolvesIn table := by
  refine h stamp ?_
  cases sketch with
  | pass => exact absurd hstamp (Option.some_ne_none stamp).symm
  | count start stop => exact absurd hstamp (Option.some_ne_none stamp).symm
  | node outline =>
    obtain rfl := Option.some.inj hstamp
    cases outline <;> exact List.mem_cons_self
  | list stamp items =>
    obtain rfl := Option.some.inj hstamp
    exact List.mem_cons_self

/-- The stamps of what the value adds to a merge are among its stamps. -/
theorem ResolvesIn.items {item part : Outline} (h : sketch.ResolvesIn table)
    (hitem : item ∈ sketch.items) (hpart : part ∈ item.parts) :
    part.stamp.ResolvesIn table := by
  refine h part.stamp ?_
  cases sketch with
  | pass => exact absurd hitem List.not_mem_nil
  | count start stop => exact absurd hitem List.not_mem_nil
  | node outline =>
    obtain rfl := List.mem_singleton.1 hitem
    exact List.mem_map_of_mem hpart
  | list stamp items =>
    have hmem : part ∈ Outline.partsAll items := Outline.mem_partsAll.2 ⟨item, hitem, hpart⟩
    exact List.mem_cons_of_mem stamp (List.mem_map_of_mem hmem)

/-- A branch resolves if its own stamp and its children do. -/
theorem resolvesIn_branch {stamp : Stamp} {children : List Outline}
    (hstamp : stamp.ResolvesIn table)
    (hchildren : ∀ child ∈ children, ∀ part ∈ child.parts, part.stamp.ResolvesIn table) :
    (node (.branch stamp children)).ResolvesIn table := by
  intro other hother
  rcases List.mem_cons.1 hother with rfl | hother
  · exact hstamp
  · obtain ⟨part, hpart, rfl⟩ := List.mem_map.1 hother
    obtain ⟨child, hchild, hpart⟩ := Outline.mem_partsAll.1 hpart
    exact hchildren child hchild part hpart

end Sketch

namespace Builder

variable {builder : Builder} {children : List Sketch}

/-- A merge starts in a file the table knows: that of a child, or that of the cursor. -/
theorem knows_sketchPosition (h : builder.tracker.Located)
    (hchildren : ∀ child ∈ children, child.ResolvesIn builder.tracker.files) :
    builder.tracker.files.Knows (builder.sketchPosition children).file := by
  unfold sketchPosition
  cases hfound : Position.earliest ((children.filterMap Sketch.stamp?).map Stamp.position) with
  | none => exact h.current
  | some found =>
    obtain ⟨stamp, hstamp, rfl⟩ := List.mem_map.1 (Position.mem_of_earliest hfound)
    obtain ⟨child, hchild, hstamp⟩ := List.mem_filterMap.1 hstamp
    exact ((hchildren child hchild).stamp? hstamp).knows

/-- What the children add to a merge resolves. -/
theorem resolvesIn_flatMap_items {table : FileTable}
    (hchildren : ∀ child ∈ children, child.ResolvesIn table) :
    ∀ item ∈ children.flatMap Sketch.items, ∀ part ∈ item.parts,
      part.stamp.ResolvesIn table := by
  intro item hitem part hpart
  obtain ⟨child, hchild, hitem⟩ := List.mem_flatMap.1 hitem
  exact (hchildren child hchild).items hitem hpart

theorem resolvesIn_literal (h : builder.tracker.Located) (name : Tag) (content : Content) :
    (builder.sketchLiteral name content).ResolvesIn builder.tracker.files := by
  intro stamp hstamp
  obtain rfl := List.mem_singleton.1 hstamp
  exact resolvesIn_stamp name h.previous

theorem resolvesIn_sketchBranch (h : builder.tracker.Located)
    (hchildren : ∀ child ∈ children, child.ResolvesIn builder.tracker.files) {name : Tag}
    {made : Sketch} (hmade : builder.sketchBranch name children = some made) :
    made.ResolvesIn builder.tracker.files := by
  unfold sketchBranch at hmade
  split at hmade
  · exact absurd hmade (by simp)
  · obtain rfl := Option.some.inj hmade
    exact Sketch.resolvesIn_branch (resolvesIn_stamp name (knows_sketchPosition h hchildren))
      (resolvesIn_flatMap_items hchildren)

theorem resolvesIn_sketchList (h : builder.tracker.Located)
    (hchildren : ∀ child ∈ children, child.ResolvesIn builder.tracker.files)
    {made : Sketch} (hmade : builder.sketchList children = some made) :
    made.ResolvesIn builder.tracker.files := by
  unfold sketchList at hmade
  split at hmade
  · exact absurd hmade (by simp)
  · obtain rfl := Option.some.inj hmade
    -- the stamps of a list are those of a branch of the same items
    exact Sketch.resolvesIn_branch (resolvesIn_stamp _ (knows_sketchPosition h hchildren))
      (resolvesIn_flatMap_items hchildren)

/-- The file names themselves are at no position. -/
theorem resolvesIn_filesOutline (builder : Builder) :
    (Sketch.node builder.filesOutline).ResolvesIn builder.tracker.files := by
  refine Sketch.resolvesIn_branch (.inl rfl) ?_
  intro child hchild part hpart
  obtain ⟨name, -, rfl⟩ := List.mem_map.1 hchild
  obtain rfl := List.mem_singleton.1 hpart
  exact .inl rfl

theorem resolvesIn_sketchDocument {root made : Sketch}
    (hroot : root.ResolvesIn builder.tracker.files)
    (hmade : builder.sketchDocument root = some made) :
    made.ResolvesIn builder.tracker.files := by
  unfold sketchDocument at hmade
  split at hmade
  · exact absurd hmade (by simp)
  · obtain rfl := Option.some.inj hmade
    refine Sketch.resolvesIn_branch (.inl rfl) ?_
    intro child hchild part hpart
    rcases List.mem_cons.1 hchild with rfl | hchild
    · exact builder.resolvesIn_filesOutline.items List.mem_cons_self hpart
    · exact hroot.items hchild hpart

theorem resolvesIn_sketchNest (h : builder.tracker.Located) {name : Tag} :
    ∀ (times : Nat) {sketch made : Sketch}, sketch.ResolvesIn builder.tracker.files →
      builder.sketchNest name times sketch = some made → made.ResolvesIn builder.tracker.files
  | 0, _, _, hsketch, hmade => Option.some.inj hmade ▸ hsketch
  | times + 1, sketch, made, hsketch, hmade => by
    obtain ⟨wrapped, hwrapped, hmade⟩ := Option.bind_eq_some_iff.1 hmade
    have hone : ∀ child ∈ [sketch], child.ResolvesIn builder.tracker.files := by
      intro child hchild
      obtain rfl := List.mem_singleton.1 hchild
      exact hsketch
    exact resolvesIn_sketchNest h times (resolvesIn_sketchBranch h hone hwrapped) hmade

/-- **What an action describes resolves, if what it takes does.** -/
theorem resolvesIn_describe (h : builder.tracker.Located) {taken : List Sketch}
    (htaken : ∀ child ∈ taken, child.ResolvesIn builder.tracker.files) {action : Action}
    {made : Sketch} (hmade : builder.describe taken action = some made) :
    made.ResolvesIn builder.tracker.files := by
  have hhead : ∀ {first : Sketch}, taken.head? = some first →
      first.ResolvesIn builder.tracker.files := fun hfirst =>
    htaken _ (List.mem_of_head? hfirst)
  cases action with
  | advance _ | reposition _ | setInput _ | intern _ | write _ =>
    exact absurd hmade.symm (Option.some_ne_none made)
  | count text =>
    obtain rfl := Option.some.inj hmade
    exact fun _ hstamp => absurd hstamp List.not_mem_nil
  | pass =>
    obtain rfl := Option.some.inj hmade
    exact Sketch.resolvesIn_pass _
  | fileNames =>
    obtain rfl := Option.some.inj hmade
    exact builder.resolvesIn_filesOutline
  | null | leaf _ | text _ _ =>
    obtain rfl := Option.some.inj hmade
    exact resolvesIn_literal h _ _
  | escapedText _ _ _ | integer _ _ _ _ | real _ _ | usual _ _ =>
    -- the text may spell nothing, and then there is no value to speak of
    obtain ⟨read, -, rfl⟩ := Option.map_eq_some_iff.1 hmade
    exact resolvesIn_literal h _ _
  | branch name children => exact resolvesIn_sketchBranch h htaken hmade
  | list children => exact resolvesIn_sketchList h htaken hmade
  | wrap slot name times =>
    obtain ⟨first, hfirst, hmade⟩ := Option.bind_eq_some_iff.1 hmade
    exact resolvesIn_sketchNest h times (hhead hfirst) hmade
  | document slot =>
    obtain ⟨first, hfirst, hmade⟩ := Option.bind_eq_some_iff.1 hmade
    exact resolvesIn_sketchDocument (hhead hfirst) hmade

end Builder

/-! ## 5. Runs -/

namespace Draft

/-- The tracker is located, and every value in a slot resolves in its table. -/
structure Resolved (draft : Draft) : Prop where
  located : draft.builder.tracker.Located
  slots : draft.slots.All fun sketch => sketch.ResolvesIn draft.builder.tracker.files

theorem resolved_ofBuilder {start : Builder} (h : start.tracker.Located) :
    (ofBuilder start).Resolved :=
  ⟨h, Slots.all_empty _⟩

variable {draft : Draft}

/-- One action keeps the draft resolved: values made before it resolve in the grown table, and
the value it makes resolved in the table it started from. -/
theorem Resolved.performInto (h : draft.Resolved) (action : Action) (slot : Option String) :
    (draft.performInto action slot).Resolved := by
  have hmoved := Builder.movedTo_after h.located action
  obtain ⟨htaken, hrest⟩ := h.slots.takeAll (Sketch.resolvesIn_pass _) action.takes
  replace hrest := hrest.imp fun _ hsketch => hsketch.mono hmoved.extends_files
  unfold Draft.performInto perform
  cases hmade : draft.builder.describe (draft.slots.takeAll .pass action.takes).1 action with
  | none =>
    simp only [hmade]
    exact ⟨hmoved.located, hrest⟩
  | some made =>
    simp only [hmade]
    have hnew := (Builder.resolvesIn_describe h.located htaken hmade).mono hmoved.extends_files
    exact ⟨hmoved.located, hrest.store hnew slot⟩

/-- **Every run keeps the draft resolved.** -/
theorem Resolved.run : ∀ (steps : List (Action × Option String)) {draft : Draft},
    draft.Resolved → (draft.run steps).Resolved
  | [], _, h => h
  | (action, slot) :: rest, _, h => Resolved.run rest (h.performInto action slot)

theorem Resolved.get (h : draft.Resolved) (slot : Option String) :
    (draft.get slot).ResolvesIn draft.builder.tracker.files :=
  h.slots.get (Sketch.resolvesIn_pass _) slot

end Draft

/-! ## 6. Documents -/

/-- The tree of a file name: a text at no position. -/
def Tree.ofFileName (name : String) : Tree :=
  .scalar (.ofKind (.ofName "#file") .text .unknown
      (Header.width + alignUp (Utf8.ofString name).length))
    (.text (trimNuls name))

namespace Builder

theorem tree_fileOutline (builder : Builder) (name : String) :
    (builder.fileOutline name).tree = .ofFileName name := by
  rw [fileOutline, Outline.tree, Content.scalar, text_trimZeros_ofString]
  rfl

/-- The branch of the file names is read back as their texts, in the order of the table. -/
theorem tree_filesOutline (builder : Builder) :
    builder.filesOutline.tree = .branch builder.filesOutline.header
      (builder.tracker.files.toList.map .ofFileName) := by
  have hnames : (builder.tracker.files.toList.map builder.fileOutline).map Outline.tree
      = builder.tracker.files.toList.map .ofFileName := by
    rw [List.map_map]
    exact List.map_congr_left fun name _ => builder.tree_fileOutline name
  rw [← hnames, ← Outline.trees_eq_map]
  rfl

theorem decode_documentOutline (builder : Builder) (root : Sketch)
    (h : (builder.documentOutline root).node.Fits) :
    Tree.decode (builder.documentOutline root).node.bytes
      = .ok (.branch (builder.documentOutline root).header
          (.branch builder.filesOutline.header
              (builder.tracker.files.toList.map .ofFileName)
            :: root.items.map Outline.tree),
        (builder.documentOutline root).node.size) := by
  rw [Outline.decode_bytes h, ← tree_filesOutline, ← Outline.trees_eq_map]
  rfl

/-- A builder as it is made, for an input without a name or with one. -/
inductive Fresh (settings : Settings) : Builder → Prop where
  | unnamed : Fresh settings (.ofSettings settings)
  | named (name : String) {builder : Builder}
      (h : (forInput settings name : Outcome Error Builder).result = .ok builder) :
      Fresh settings builder

theorem Fresh.located {settings : Settings} {builder : Builder} (h : Fresh settings builder) :
    builder.tracker.Located := by
  cases h with
  | unnamed => exact Tracker.located_ofSettings settings
  | named name h =>
    obtain rfl := Except.ok.inj h
    exact ((Tracker.located_ofSettings settings).enterFile name rfl (.inl rfl)).located

end Builder

theorem Sketch.isCount_iff {sketch : Sketch} :
    sketch.isCount = true ↔ ∃ start stop : Position, sketch.value = .count start stop := by
  cases sketch <;> simp [isCount, value]

/-- **Every file index in a document resolves.**  After any run of a new builder, making a
document of a value fails exactly if the value is the coordinates of a token.  Otherwise the
document is read back as a branch at no position: first the branch of the file names, one text
for each name in the order of the table, and then what the root adds.  In what it adds, the file
of every node at every depth has a meaning of its own, or is the place of the name that it had
when the node was made. -/
theorem document_resolves {settings : Settings} {start : Builder} (hstart : start.Fresh settings)
    (steps : List (Action × Option String)) (slot : Option String) (session : Session)
    (hsession : session = (Session.ofBuilder start).run steps) :
    ((∃ cause : Error, (session.builder.document (session.get slot)).result = .error cause)
        ↔ ∃ first last : Position, session.get slot = .count first last)
      ∧ ∀ document : Node,
          (session.builder.document (session.get slot)).result = .ok document → document.Fits →
          ∃ (root : Sketch) (header filesHeader : Header) (names : List String),
            root = ((Draft.ofBuilder start).run steps).get slot
            ∧ root.value = session.get slot
            ∧ session.builder.tracker.files.Coherent
            ∧ names = session.builder.tracker.files.toList
            ∧ Tree.decode document.bytes
                = .ok (.branch header (.branch filesHeader (names.map .ofFileName)
                    :: root.items.map Outline.tree), document.size)
            ∧ header.position = .unknown ∧ filesHeader.name = .ofName "files"
            ∧ ∀ item ∈ root.items,
                item.tree.preorder.map Prod.fst = item.parts.map Outline.tree
                ∧ ∀ part ∈ item.parts,
                    part.tree.header.position.file = Position.unknownNumber
                    ∨ part.tree.header.position.file = Position.tableFull
                    ∨ ∃ name : String, part.stamp.file = some name
                      ∧ names[part.tree.header.position.file.toNat]? = some name := by
  have hresolved := (Draft.resolved_ofBuilder hstart.located).run steps
  have hrun : session = ((Draft.ofBuilder start).run steps).session :=
    hsession.trans (Draft.run_session steps (Draft.ofBuilder start))
  generalize (Draft.ofBuilder start).run steps = draft at hresolved hrun
  subst hrun
  rw [Draft.get_session, ← Sketch.isCount_iff]
  have hvalue := draft.builder.value?_document (draft.get slot)
  refine ⟨?_, ?_⟩
  · rw [← Outcome.value?_eq_none, Draft.session, hvalue]
    cases (draft.get slot).isCount <;> simp
  · intro document hdocument hfits
    rw [Draft.session, ← Outcome.value?_eq_some, hvalue] at hdocument
    split at hdocument
    · exact absurd hdocument.symm (Option.some_ne_none document)
    · obtain rfl := Option.some.inj hdocument
      refine ⟨draft.get slot, _, _, _, rfl, rfl, hresolved.located.coherent, rfl,
        draft.builder.decode_documentOutline (draft.get slot) hfits, rfl, rfl, ?_⟩
      intro item hitem
      refine ⟨item.map_fst_preorder, ?_⟩
      intro part hpart
      have hpos : part.tree.header.position = part.stamp.position := by
        rw [Outline.header_tree]
        rfl
      have hstamp := (hresolved.get slot).items hitem hpart
      rw [Stamp.ResolvesIn, FileTable.get?_eq_toList] at hstamp
      rw [hpos]
      exact hstamp

/-- Room for one file name. -/
def oneFile : Settings := { Settings.standard with fileCapacity := 1 }

/-- The table of one name, which is full. -/
def oneName : FileTable := (FileTable.ofCapacity 1).added "a.y"

theorem intern_first : (FileTable.ofCapacity 1).intern "a.y" = (0, oneName) := by
  have hnew : (FileTable.ofCapacity 1).index? "a.y" = none := by
    simp [FileTable.index?, FileTable.ofCapacity]
  rw [FileTable.intern, hnew]
  rfl

theorem intern_second : oneName.intern "b.y" = (Position.tableFull, oneName) := by
  have hnew : oneName.index? "b.y" = none := by
    rw [oneName, FileTable.index?_added]
    simp [FileTable.index?, FileTable.ofCapacity]
  rw [FileTable.intern, hnew]
  rfl

/-- A leaf in a file, and one in a second file for which there is no room. -/
def leafSteps : List (Action × Option String) :=
  [(.setInput "a.y", none),
    (.advance [0x78], none),
    (.leaf (.ofBytes [0x78]), some "x"),
    (.setInput "b.y", none),
    (.leaf (.ofBytes [0x79]), some "y")]

/-- A leaf of one letter, under a file index. -/
def letterNode (letter : UInt8) (file : UInt32) : Node :=
  .assemble (.ofBytes [letter]) .leaf ⟨file, 1, 1⟩ []

/-- The session after the leaves, for the indices and the table that interning gives. -/
def leafSession (first second : UInt32) (table : FileTable) : Session :=
  ⟨⟨⟨⟨0, 1, 0, second⟩, ⟨1, 1, 1, second⟩, table, 8⟩, oneFile⟩,
    ⟨[("y", .node (letterNode 0x79 second)), ("x", .node (letterNode 0x78 first))]⟩⟩

theorem run_leafSteps :
    (Session.ofBuilder (.ofSettings oneFile)).run leafSteps
      = leafSession 0 Position.tableFull oneName := by
  have hrun : (Session.ofBuilder (.ofSettings oneFile)).run leafSteps
      = leafSession ((FileTable.ofCapacity 1).intern "a.y").1
          (((FileTable.ofCapacity 1).intern "a.y").2.intern "b.y").1
          (((FileTable.ofCapacity 1).intern "a.y").2.intern "b.y").2 := rfl
  rw [hrun, intern_first, intern_second]

/-- The leaves in a list. -/
def rootSteps : List (Action × Option String) :=
  leafSteps ++ [(.list [some "x", some "y"], some "root")]

/-- The session that is left: both leaves are in the list, which starts at the first. -/
def rootSession : Session :=
  ⟨⟨⟨⟨0, 1, 0, Position.tableFull⟩, ⟨1, 1, 1, Position.tableFull⟩, oneName, 8⟩, oneFile⟩,
    ⟨[("root", .node (.assemble (.ofName "#list") .list ⟨0, 1, 1⟩
      ((letterNode 0x78 0).bytes ++ (letterNode 0x79 Position.tableFull).bytes)))]⟩⟩

theorem run_rootSteps :
    rootSession = (Session.ofBuilder (.ofSettings oneFile)).run rootSteps := by
  have hsplit : (Session.ofBuilder (.ofSettings oneFile)).run rootSteps
      = ((Session.ofBuilder (.ofSettings oneFile)).run leafSteps).run
          [(.list [some "x", some "y"], some "root")] := rfl
  rw [hsplit, run_leafSteps]
  rfl

/-- The document of the list: its items stand behind the one file name. -/
def rootDocument : Node :=
  .assemble (.ofName "yyast") .branch .unknown
    ((Node.assemble (.ofName "files") .branch .unknown (Builder.fileNode "a.y").bytes).bytes
      ++ ((letterNode 0x78 0).bytes ++ (letterNode 0x79 Position.tableFull).bytes))

theorem document_resolves_full_table :
    Builder.Fresh oneFile (.ofSettings oneFile)
      ∧ rootSession = (Session.ofBuilder (.ofSettings oneFile)).run rootSteps
      ∧ (rootSession.builder.document (rootSession.get (some "root"))).result = .ok rootDocument
      ∧ rootDocument.Fits
      ∧ ∃ (header filesHeader : Header) (items : List Outline),
          Tree.decode rootDocument.bytes
              = .ok (.branch header (.branch filesHeader [.ofFileName "a.y"]
                  :: items.map Outline.tree), rootDocument.size)
            ∧ header.position = .unknown ∧ filesHeader.name = .ofName "files"
            ∧ ∀ item ∈ items, ∀ part ∈ item.parts,
                part.tree.header.position.file = Position.unknownNumber
                ∨ part.tree.header.position.file = Position.tableFull
                ∨ ∃ name : String, part.stamp.file = some name
                  ∧ ["a.y"][part.tree.header.position.file.toNat]? = some name := by
  have hfresh : Builder.Fresh oneFile (.ofSettings oneFile) := .unnamed
  have hdocument : (rootSession.builder.document (rootSession.get (some "root"))).result
      = .ok rootDocument := rfl
  have hfits : rootDocument.Fits := by decide +kernel
  obtain ⟨-, hall⟩ := document_resolves hfresh rootSteps (some "root") _ run_rootSteps
  obtain ⟨root, header, filesHeader, names, -, -, -, rfl, hdecode, hnowhere, hname, hitems⟩ :=
    hall rootDocument hdocument hfits
  exact ⟨hfresh, run_rootSteps, hdocument, hfits, header, filesHeader, root.items, hdecode,
    hnowhere, hname, fun item hitem => (hitems item hitem).2⟩

end SyntaxTree
