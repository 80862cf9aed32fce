/-
# The file table only grows

The table keeps its names twice, by index and by hash.  `Coherent` says that the two agree and
that the table is within its capacity, which keeps every index clear of the two numbers with a
meaning of their own.

Interning a name does one of three things (`intern_cases`): it finds the name, it finds the
table full, or it adds the name at the end.  From this follow what later files use: the table
stays coherent (`coherent_intern`), no index changes its name (`extends_intern`), and the index
that is given back names the file or says that there was no room (`get?_intern`).
-/
import SyntaxTree.FileTable

namespace SyntaxTree
namespace FileTable

/-! ## 1. The invariant -/

/-- The names by hash are the names by index, and there are not too many of them. -/
structure Coherent (table : FileTable) : Prop where
  index?_iff : ∀ (name : String) (index : UInt32),
    table.index? name = some index ↔ table.get? index = some name
  size_le : table.size ≤ table.capacity
  capacity_le : table.capacity ≤ Position.tableFull.toNat

/-- Every name of `table` has the same index in `later`. -/
def Extends (table later : FileTable) : Prop :=
  ∀ (index : UInt32) (name : String), table.get? index = some name → later.get? index = some name

theorem Extends.refl (table : FileTable) : Extends table table := fun _ _ h => h

theorem coherent_ofCapacity (capacity : Nat) : Coherent (ofCapacity capacity) := by
  refine ⟨?_, Nat.zero_le _, Nat.min_le_right _ _⟩
  intro name index
  simp [index?, get?, ofCapacity]

/-- An index with a name is below the size. -/
theorem toNat_lt_of_get? {table : FileTable} {index : UInt32} {name : String}
    (h : table.get? index = some name) : index.toNat < table.size :=
  (Array.getElem?_eq_some_iff.1 h).1

theorem get?_eq_toList (table : FileTable) (index : UInt32) :
    table.get? index = table.toList[index.toNat]? := by
  rw [get?, toList, Array.getElem?_toList]

/-! ## 2. Interning -/

/-- The table with one more name. -/
def added (table : FileTable) (name : String) : FileTable :=
  { table with
    names := table.names.push name
    indices := table.indices.insert name (UInt32.ofNat table.size) }

/-- **What interning can do**: find the name, find no room, or add the name at the end. -/
theorem intern_cases (table : FileTable) (name : String) :
    (∃ index : UInt32, table.index? name = some index ∧ table.intern name = (index, table))
      ∨ table.index? name = none ∧ table.capacity ≤ table.size
        ∧ table.intern name = (Position.tableFull, table)
      ∨ table.index? name = none ∧ table.size < table.capacity
        ∧ table.intern name = (UInt32.ofNat table.size, table.added name) := by
  unfold intern
  cases hindex : table.index? name with
  | some index => exact .inl ⟨index, rfl, rfl⟩
  | none =>
    by_cases hfull : table.isFull = true
    · exact .inr (.inl ⟨rfl, of_decide_eq_true hfull, if_pos hfull⟩)
    · have hroom : table.size < table.capacity := by
        simpa [isFull] using hfull
      exact .inr (.inr ⟨rfl, hroom, if_neg hfull⟩)

theorem get?_added (table : FileTable) (name : String) (index : UInt32) :
    (table.added name).get? index
      = if index.toNat = table.size then some name else table.get? index :=
  Array.getElem?_push

theorem index?_added (table : FileTable) (name other : String) :
    (table.added name).index? other
      = if name = other then some (UInt32.ofNat table.size) else table.index? other := by
  simp only [index?, added, Std.HashMap.getElem?_insert, beq_iff_eq]

/-- The next index is a number of its own: below the capacity nothing wraps around. -/
theorem Coherent.toNat_ofNat_size {table : FileTable} (h : Coherent table)
    (hroom : table.size < table.capacity) : (UInt32.ofNat table.size).toNat = table.size := by
  have hbound : Position.tableFull.toNat < UInt32.size := by decide
  have hcap := h.capacity_le
  exact UInt32.toNat_ofNat_of_lt (by omega)

theorem extends_added (table : FileTable) (name : String) : Extends table (table.added name) := by
  intro index other hget
  have hlt := toNat_lt_of_get? hget
  rw [get?_added, if_neg (by omega), hget]

theorem Coherent.added {table : FileTable} (h : Coherent table) {name : String}
    (hnew : table.index? name = none) (hroom : table.size < table.capacity) :
    Coherent (table.added name) := by
  have hnext := h.toNat_ofNat_size hroom
  refine ⟨?_, ?_, h.capacity_le⟩
  · intro other index
    rw [index?_added, get?_added]
    by_cases hname : name = other
    · subst hname
      -- an old index can not have the new name, which was not in the table
      have hold : table.get? index ≠ some name := by
        intro hget
        rw [← h.index?_iff, hnew] at hget
        cases hget
      rw [if_pos rfl]
      constructor
      · intro hindex
        obtain rfl := Option.some.inj hindex
        rw [if_pos hnext]
      · intro hget
        split at hget
        · next hlast => rw [← hlast, UInt32.ofNat_toNat]
        · exact absurd hget hold
    · rw [if_neg hname, h.index?_iff]
      constructor
      · intro hget
        have hlt := toNat_lt_of_get? hget
        rw [if_neg (by omega), hget]
      · intro hget
        split at hget
        · exact absurd (Option.some.inj hget) hname
        · exact hget
  · simp only [size, FileTable.added, Array.size_push] at hroom ⊢
    exact hroom

/-- **Interning keeps the table coherent.** -/
theorem coherent_intern {table : FileTable} (h : Coherent table) (name : String) :
    Coherent (table.intern name).2 := by
  obtain ⟨index, -, heq⟩ | ⟨-, -, heq⟩ | ⟨hnew, hroom, heq⟩ := intern_cases table name
  · rw [heq]
    exact h
  · rw [heq]
    exact h
  · rw [heq]
    exact h.added hnew hroom

/-- **No index ever changes its name.** -/
theorem extends_intern (table : FileTable) (name : String) :
    Extends table (table.intern name).2 := by
  obtain ⟨index, -, heq⟩ | ⟨-, -, heq⟩ | ⟨-, -, heq⟩ := intern_cases table name
  · rw [heq]
    exact Extends.refl table
  · rw [heq]
    exact Extends.refl table
  · rw [heq]
    exact extends_added table name

/-- **The index that is given back names the file**, unless there was no room. -/
theorem get?_intern {table : FileTable} (h : Coherent table) (name : String) :
    (table.intern name).1 = Position.tableFull
      ∨ (table.intern name).2.get? (table.intern name).1 = some name := by
  obtain ⟨index, hindex, heq⟩ | ⟨-, -, heq⟩ | ⟨-, hroom, heq⟩ := intern_cases table name
  · rw [heq]
    exact .inr ((h.index?_iff name index).1 hindex)
  · rw [heq]
    exact .inl rfl
  · rw [heq, get?_added, if_pos (h.toNat_ofNat_size hroom)]
    exact .inr rfl

end FileTable
end SyntaxTree
