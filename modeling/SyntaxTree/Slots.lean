/-
# Slots

Values kept by name.  Where a value is looked for, no name at all stands for an empty slot,
and an empty slot gives a default.  A value is taken out of its slot when it is used.

Changing every value commutes with looking up, clearing, storing and taking (`map_get`,
`map_clear`, `map_store`, `map_takeAll`): slots know nothing about what they hold.  For the same
reason a property of every value (`All`) is kept as long as it holds of what is stored.
-/
namespace SyntaxTree

/-! ## 1. The type and its operations -/

/-- Values by name. -/
structure Slots (α : Type) where
  entries : List (String × α)

namespace Slots

variable {α β : Type}

/-- No values. -/
def empty : Slots α := ⟨[]⟩

/-- The value in a slot, or the default of an empty one. -/
def get (slots : Slots α) (default : α) : Option String → α
  | none => default
  | some slot => (slots.entries.lookup slot).getD default

/-- The slots without the value in one of them. -/
def clear (slots : Slots α) : Option String → Slots α
  | none => slots
  | some slot => ⟨slots.entries.filter fun entry => entry.1 != slot⟩

/-- The slots with a value in one of them. -/
def store (slots : Slots α) (value : α) : Option String → Slots α
  | none => slots
  | some slot => ⟨(slot, value) :: (slots.clear (some slot)).entries⟩

/-- Takes values out of slots, from left to right. -/
def takeAll (slots : Slots α) (default : α) : List (Option String) → List α × Slots α
  | [] => ([], slots)
  | slot :: rest =>
    let (values, after) := (slots.clear slot).takeAll default rest
    (slots.get default slot :: values, after)

/-- The slots with every value changed. -/
def map (f : α → β) (slots : Slots α) : Slots β :=
  ⟨slots.entries.map fun entry => (entry.1, f entry.2)⟩

/-! ## 2. Changing every value -/

theorem lookup_map_entries (f : α → β) (slot : String) : ∀ entries : List (String × α),
    (entries.map fun entry => (entry.1, f entry.2)).lookup slot
      = (entries.lookup slot).map f
  | [] => rfl
  | (name, value) :: rest => by
    simp only [List.map_cons, List.lookup_cons]
    split
    · rfl
    · exact lookup_map_entries f slot rest

@[simp] theorem map_get (f : α → β) (slots : Slots α) (default : α) (slot : Option String) :
    (slots.map f).get (f default) slot = f (slots.get default slot) := by
  cases slot with
  | none => rfl
  | some slot =>
    simp only [get, map, lookup_map_entries]
    cases slots.entries.lookup slot <;> rfl

@[simp] theorem map_clear (f : α → β) (slots : Slots α) (slot : Option String) :
    (slots.map f).clear slot = (slots.clear slot).map f := by
  cases slot with
  | none => rfl
  | some slot =>
    simp only [clear, map, List.filter_map]
    rfl

@[simp] theorem map_store (f : α → β) (slots : Slots α) (value : α) (slot : Option String) :
    (slots.map f).store (f value) slot = (slots.store value slot).map f := by
  cases slot with
  | none => rfl
  | some slot =>
    simp only [store, map_clear]
    rfl

@[simp] theorem map_takeAll (f : α → β) (default : α) :
    ∀ (names : List (Option String)) (slots : Slots α),
      (slots.map f).takeAll (f default) names
        = ((slots.takeAll default names).1.map f, (slots.takeAll default names).2.map f)
  | [], slots => rfl
  | slot :: rest, slots => by
    simp only [takeAll, map_get, map_clear, map_takeAll f default rest, List.map_cons]

/-! ## 3. A property of every value -/

variable {P Q : α → Prop} {slots : Slots α}

/-- Every value has the property. -/
def All (P : α → Prop) (slots : Slots α) : Prop := ∀ entry ∈ slots.entries, P entry.2

theorem all_empty (P : α → Prop) : (empty : Slots α).All P := by
  intro entry hentry
  exact absurd hentry List.not_mem_nil

theorem All.imp (h : slots.All P) (hPQ : ∀ value, P value → Q value) : slots.All Q := by
  intro entry hentry
  exact hPQ entry.2 (h entry hentry)

theorem All.get (h : slots.All P) {default : α} (hdefault : P default) (slot : Option String) :
    P (slots.get default slot) := by
  cases slot with
  | none => exact hdefault
  | some slot =>
    rw [Slots.get]
    cases hlookup : slots.entries.lookup slot with
    | none => exact hdefault
    | some value =>
      obtain ⟨before, after, heq, -⟩ := List.lookup_eq_some_iff.1 hlookup
      refine h (slot, value) ?_
      rw [heq]
      exact List.mem_append_right before List.mem_cons_self

theorem All.clear (h : slots.All P) (slot : Option String) : (slots.clear slot).All P := by
  cases slot with
  | none => exact h
  | some slot =>
    intro entry hentry
    exact h entry (List.mem_filter.1 hentry).1

theorem All.store (h : slots.All P) {value : α} (hvalue : P value) (slot : Option String) :
    (slots.store value slot).All P := by
  cases slot with
  | none => exact h
  | some slot =>
    intro entry hentry
    rcases List.mem_cons.1 hentry with rfl | hentry
    · exact hvalue
    · exact h.clear (some slot) entry hentry

theorem All.takeAll (h : slots.All P) {default : α} (hdefault : P default)
    (names : List (Option String)) :
    (∀ value ∈ (slots.takeAll default names).1, P value)
      ∧ (slots.takeAll default names).2.All P := by
  induction names generalizing slots with
  | nil => exact ⟨fun _ hvalue => absurd hvalue List.not_mem_nil, h⟩
  | cons slot rest ih =>
    obtain ⟨hvalues, hafter⟩ := ih (h.clear slot)
    refine ⟨?_, hafter⟩
    intro value hvalue
    rcases List.mem_cons.1 hvalue with rfl | hvalue
    · exact h.get hdefault slot
    · exact hvalues value hvalue

end Slots
end SyntaxTree
