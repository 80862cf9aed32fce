/-
# Interning is a bijection that never moves

A run of a file table is any sequence of names that are interned one after another.  This file says
what the two halves of the table, the names by index and the indices by name, are to each other
after every call of every run (`interning_stable_bijection`):

* they are inverse to each other, so the names are distinct, and there are no more of them than
  the capacity and the two reserved numbers leave room for;
* a call gives the index of its name, or says that there is no room, and it says so exactly if the
  name is new and the table is full;
* an index once given stays: every later call gives it again, and it keeps its name;
* indices are given in order.  `accepted` is the names of the calls that got an index; the table is
  these names without the repeated ones.

What one call does is `intern_cases`; the rest is one induction over the calls for each of these,
from the empty table on.
-/
import Mathlib.Algebra.Group.Nat.Defs
import Mathlib.Data.List.Induction
import Mathlib.Data.List.Nodup
import SyntaxTree.Proofs.FileTable

namespace SyntaxTree
namespace FileTable

/-! ## 1. The two halves of a coherent table -/

theorem length_toList (table : FileTable) : table.toList.length = table.size :=
  Array.length_toList

theorem toList_added (table : FileTable) (name : String) :
    (table.added name).toList = table.toList ++ [name] :=
  Array.toList_push

namespace Coherent

variable {table : FileTable}

/-- Every position of the table is a number that an index can have. -/
theorem toNat_ofNat_position (h : Coherent table) {position : Nat}
    (hlt : position < table.size) : (UInt32.ofNat position).toNat = position := by
  have hbound : Position.tableFull.toNat < UInt32.size := by decide
  have hsize := h.size_le
  have hcap := h.capacity_le
  exact UInt32.toNat_ofNat_of_lt (by omega)

/-- The index of a name is its position. -/
theorem map_index?_eq_some_iff (h : Coherent table) {name : String} {position : Nat} :
    (table.index? name).map UInt32.toNat = some position ↔ table.toList[position]? = some name := by
  rw [Option.map_eq_some_iff]
  constructor
  · rintro ⟨index, hindex, rfl⟩
    rw [← get?_eq_toList]
    exact (h.index?_iff name index).1 hindex
  · intro hget
    have hlt : position < table.size := by
      rw [← length_toList]
      exact (List.getElem?_eq_some_iff.1 hget).1
    have hposition := h.toNat_ofNat_position hlt
    refine ⟨UInt32.ofNat position, ?_, hposition⟩
    rw [h.index?_iff, get?_eq_toList, hposition]
    exact hget

theorem index?_eq_none_iff (h : Coherent table) {name : String} :
    table.index? name = none ↔ name ∉ table.toList := by
  constructor
  · intro hnone hmem
    obtain ⟨position, hget⟩ := List.mem_iff_getElem?.1 hmem
    have hindex := h.map_index?_eq_some_iff.2 hget
    rw [hnone] at hindex
    cases hindex
  · intro hmem
    rcases hindex : table.index? name with _ | index
    · rfl
    · have hget := (h.index?_iff name index).1 hindex
      rw [get?_eq_toList] at hget
      exact absurd (List.mem_of_getElem? hget) hmem

/-- A name stands at one position only, since it has one index only. -/
theorem nodup_toList (h : Coherent table) : table.toList.Nodup := by
  rw [List.nodup_iff_injective_get]
  intro i j hij
  have hi : table.toList[i.val]? = some (table.toList.get i) := List.getElem?_eq_getElem i.isLt
  have hj : table.toList[j.val]? = some (table.toList.get i) := by
    rw [hij]
    exact List.getElem?_eq_getElem j.isLt
  have heq := (h.map_index?_eq_some_iff.2 hi).symm.trans (h.map_index?_eq_some_iff.2 hj)
  exact Fin.ext (Option.some.inj heq)

/-- **No index of a name is one of the two reserved numbers.** -/
theorem ne_reserved_of_get? (h : Coherent table) {index : UInt32} {name : String}
    (hget : table.get? index = some name) :
    index ≠ Position.unknownNumber ∧ index ≠ Position.tableFull := by
  have hlt := toNat_lt_of_get? hget
  have hsize := h.size_le
  have hcap := h.capacity_le
  have hfull : Position.tableFull.toNat < Position.unknownNumber.toNat := by decide
  refine ⟨?_, ?_⟩
  · rintro rfl
    omega
  · rintro rfl
    omega

end Coherent

/-! ## 2. One call -/

theorem capacity_intern (table : FileTable) (name : String) :
    (table.intern name).2.capacity = table.capacity := by
  obtain ⟨index, -, heq⟩ | ⟨-, -, heq⟩ | ⟨-, -, heq⟩ := intern_cases table name
  · rw [heq]
  · rw [heq]
  · rw [heq]
    rfl

/-- What a call for a name may answer, for a table of at most `bound` names, and what it leaves
behind. -/
structure Answers (table : FileTable) (bound : Nat) (name : String) (answer : UInt32)
    (next : FileTable) : Prop where
  /-- There is no room exactly if the name is new and the table is full. -/
  eq_tableFull_iff : answer = Position.tableFull ↔ name ∉ table.toList ∧ table.size = bound
  unchanged : answer = Position.tableFull → next = table
  /-- Otherwise the answer is the index of the name. -/
  get?_answer : answer ≠ Position.tableFull → next.get? answer = some name
  ne_unknown : answer ≠ Position.unknownNumber

theorem Coherent.answers {table : FileTable} (h : Coherent table) (name : String) :
    Answers table table.capacity name (table.intern name).1 (table.intern name).2 := by
  have hsize := h.size_le
  obtain ⟨index, hindex, heq⟩ | ⟨hnew, hfull, heq⟩ | ⟨hnew, hroom, heq⟩ := intern_cases table name
  · rw [heq]
    have hget := (h.index?_iff name index).1 hindex
    obtain ⟨hunknown, htableFull⟩ := h.ne_reserved_of_get? hget
    refine ⟨⟨fun hanswer => absurd hanswer htableFull, ?_⟩, fun _ => rfl, fun _ => hget, hunknown⟩
    rintro ⟨hmem, -⟩
    rw [h.index?_eq_none_iff.2 hmem] at hindex
    cases hindex
  · rw [heq]
    have hmem := h.index?_eq_none_iff.1 hnew
    have hunknown : Position.tableFull ≠ Position.unknownNumber := by decide
    exact ⟨⟨fun _ => ⟨hmem, Nat.le_antisymm hsize hfull⟩, fun _ => rfl⟩, fun _ => rfl,
      fun hanswer => absurd rfl hanswer, hunknown⟩
  · rw [heq]
    have hget : (table.added name).get? (UInt32.ofNat table.size) = some name := by
      rw [get?_added, if_pos (h.toNat_ofNat_size hroom)]
    obtain ⟨hunknown, htableFull⟩ := (h.added hnew hroom).ne_reserved_of_get? hget
    refine ⟨⟨fun hanswer => absurd hanswer htableFull, ?_⟩,
      fun hanswer => absurd hanswer htableFull, fun _ => hget, hunknown⟩
    rintro ⟨-, hfull⟩
    omega

/-- A name that has an index is found, and nothing changes. -/
theorem Coherent.intern_of_get? {table : FileTable} (h : Coherent table) {name : String}
    {index : UInt32} (hget : table.get? index = some name) :
    table.intern name = (index, table) := by
  rw [intern, (h.index?_iff name index).2 hget]

/-! ## 3. Runs -/

/-- The table after names have been interned one after another. -/
def internAll (table : FileTable) (names : List String) : FileTable :=
  names.foldl (fun table name => (table.intern name).2) table

/-- The names of the calls that are given an index, in the order of the calls. -/
def accepted (table : FileTable) : List String → List String
  | [] => []
  | name :: rest =>
    if (table.intern name).1 = Position.tableFull then accepted (table.intern name).2 rest
    else name :: accepted (table.intern name).2 rest

theorem internAll_concat (table : FileTable) (names : List String) (name : String) :
    table.internAll (names ++ [name]) = ((table.internAll names).intern name).2 := by
  rw [internAll, List.foldl_append]
  rfl

theorem accepted_append (table : FileTable) (names more : List String) :
    table.accepted (names ++ more)
      = table.accepted names ++ (table.internAll names).accepted more := by
  induction names generalizing table with
  | nil => rfl
  | cons name rest ih =>
    rw [List.cons_append, accepted, accepted]
    split
    · exact ih _
    · rw [ih, List.cons_append]
      rfl

variable {table : FileTable}

theorem Coherent.internAll (h : Coherent table) (names : List String) :
    Coherent (table.internAll names) := by
  induction names generalizing table with
  | nil => exact h
  | cons name rest ih => exact ih (coherent_intern h name)

theorem extends_internAll (table : FileTable) (names : List String) :
    Extends table (table.internAll names) := by
  induction names generalizing table with
  | nil => exact Extends.refl table
  | cons name rest ih =>
    intro index stored hget
    exact ih _ index stored (extends_intern table name index stored hget)

theorem capacity_internAll (table : FileTable) (names : List String) :
    (table.internAll names).capacity = table.capacity := by
  induction names generalizing table with
  | nil => rfl
  | cons name rest ih => exact (ih _).trans (capacity_intern table name)

/-- One more name stands last among the distinct ones, unless it is there already. -/
theorem eraseDups_concat (names : List String) (name : String) :
    (names ++ [name]).eraseDups
      = if name ∈ names then names.eraseDups else names.eraseDups ++ [name] := by
  rw [List.eraseDups_append]
  by_cases hmem : name ∈ names
  · simp [List.removeAll, hmem]
  · simp [List.removeAll, hmem, List.eraseDups_cons]

/-- **The table is the accepted names, each where it was first accepted.** -/
theorem toList_internAll (capacity : Nat) (calls : List String) :
    ((ofCapacity capacity).internAll calls).toList
      = ((ofCapacity capacity).accepted calls).eraseDups := by
  -- calls are added at the end, where the table grows
  induction calls using List.reverseRecOn with
  | nil => rfl
  | append_singleton calls name ih =>
    have hcoherent := (coherent_ofCapacity capacity).internAll calls
    have hanswers := hcoherent.answers name
    have hmem : name ∈ (ofCapacity capacity).accepted calls
        ↔ name ∈ ((ofCapacity capacity).internAll calls).toList := by
      rw [ih, List.mem_eraseDups]
    rw [internAll_concat, accepted_append, accepted, accepted]
    obtain ⟨index, hindex, heq⟩ | ⟨-, -, heq⟩ | ⟨hnew, hroom, heq⟩ :=
      intern_cases ((ofCapacity capacity).internAll calls) name
    · have hstored : name ∈ ((ofCapacity capacity).internAll calls).toList := by
        by_contra hnot
        rw [hcoherent.index?_eq_none_iff.2 hnot] at hindex
        cases hindex
      have hanswer : index ≠ Position.tableFull := by
        intro hfull
        rw [heq] at hanswers
        exact (hanswers.eq_tableFull_iff.1 hfull).1 hstored
      rw [heq, if_neg hanswer, eraseDups_concat, if_pos (hmem.2 hstored), ih]
    · rw [heq, if_pos rfl, List.append_nil, ih]
    · have hanswer : UInt32.ofNat ((ofCapacity capacity).internAll calls).size
          ≠ Position.tableFull := by
        intro hfull
        rw [heq] at hanswers
        have hsize := (hanswers.eq_tableFull_iff.1 hfull).2
        omega
      have hnot := hcoherent.index?_eq_none_iff.1 hnew
      rw [heq, if_neg hanswer, eraseDups_concat, if_neg (mt hmem.1 hnot), toList_added, ih]

/-! ## 4. The bijection -/

/-- The names by index and the indices by name are inverse to each other, for at most `bound`
names. -/
structure Bijective (table : FileTable) (bound : Nat) : Prop where
  nodup : table.toList.Nodup
  size_le : table.size ≤ bound
  /-- Exactly the stored names have an index, which is their position. -/
  index?_iff : ∀ (name : String) (position : Nat),
    (table.index? name).map UInt32.toNat = some position ↔ table.toList[position]? = some name

theorem Coherent.bijective (h : Coherent table) : table.Bijective table.capacity :=
  ⟨h.nodup_toList, h.size_le, fun _ _ => h.map_index?_eq_some_iff⟩

/-- The table of a capacity after a sequence of calls. -/
def afterCalls (capacity : Nat) (calls : List String) : FileTable :=
  (ofCapacity capacity).internAll calls

/-- **Interning is a bijection that never moves, within a hard bound.**  For every capacity, after
every sequence of calls:

* the names and the indices are inverse to each other, and there are at most as many as the
  capacity and the reserved numbers allow;
* the next call, for any name, is answered as `Answers` says; an index that it gives is given to
  the same name after all further calls, and keeps its name;
* that index counts the distinct names accepted before this one: what has index `k` is number
  `k + 1` among them. -/
theorem interning_stable_bijection (capacity : Nat) (calls : List String) :
    (afterCalls capacity calls).Bijective (min capacity (2 ^ 32 - 2))
      ∧ ∀ (name : String) (answer : UInt32) (next : FileTable),
          (afterCalls capacity calls).intern name = (answer, next) →
            Answers (afterCalls capacity calls) (min capacity (2 ^ 32 - 2)) name answer next
              ∧ (answer ≠ Position.tableFull →
                  (∀ later : List String,
                    (next.internAll later).get? answer = some name
                      ∧ (next.internAll later).intern name = (answer, next.internAll later))
                    ∧ ((ofCapacity capacity).accepted (calls ++ [name])).eraseDups[answer.toNat]?
                        = some name) := by
  have hcoherent : Coherent (afterCalls capacity calls) :=
    (coherent_ofCapacity capacity).internAll calls
  have hcapacity : (afterCalls capacity calls).capacity = min capacity (2 ^ 32 - 2) :=
    capacity_internAll (ofCapacity capacity) calls
  refine ⟨hcapacity ▸ hcoherent.bijective, ?_⟩
  intro name answer next hintern
  have hanswers := hcoherent.answers name
  have hnext := coherent_intern hcoherent name
  rw [hintern] at hanswers hnext
  refine ⟨hcapacity ▸ hanswers, ?_⟩
  intro hindex
  have hget := hanswers.get?_answer hindex
  refine ⟨?_, ?_⟩
  · intro later
    have hlater := extends_internAll next later answer name hget
    exact ⟨hlater, (hnext.internAll later).intern_of_get? hlater⟩
  · have hcalls : (ofCapacity capacity).internAll (calls ++ [name]) = next := by
      rw [internAll_concat]
      exact congrArg Prod.snd hintern
    rw [← toList_internAll, hcalls, ← get?_eq_toList]
    exact hget

/-- A table for one name gives it index zero, refuses a second name, and gives the first one its
index again. -/
theorem interning_stable_bijection_one : ∃ (table : FileTable),
    (afterCalls 1 []).intern "a.y" = (0, table)
      ∧ table.intern "b.y" = (Position.tableFull, table)
      ∧ (table.internAll ["b.y"]).intern "a.y" = (0, table.internAll ["b.y"]) := by
  obtain ⟨index, table, hfirst⟩ : ∃ (index : UInt32) (table : FileTable),
      (afterCalls 1 []).intern "a.y" = (index, table) := ⟨_, _, rfl⟩
  obtain ⟨answer, next, hsecond⟩ : ∃ (answer : UInt32) (next : FileTable),
      table.intern "b.y" = (answer, next) := ⟨_, _, rfl⟩
  obtain ⟨hanswers, hstays⟩ := (interning_stable_bijection 1 []).2 _ _ _ hfirst
  have hroom : index ≠ Position.tableFull := by
    rw [Ne, hanswers.eq_tableFull_iff]
    rintro ⟨-, hsize⟩
    cases hsize
  have haccepted : (ofCapacity 1).accepted ["a.y"] = ["a.y"] := by
    have hanswer : ((ofCapacity 1).intern "a.y").1 = index := congrArg Prod.fst hfirst
    rw [accepted, hanswer, if_neg hroom]
    rfl
  obtain ⟨hlater, hplace⟩ := hstays hroom
  obtain rfl : index = 0 := by
    rw [List.nil_append, haccepted] at hplace
    have hlt := (List.getElem?_eq_some_iff.1 hplace).1
    rw [← UInt32.toNat_inj]
    exact Nat.lt_one_iff.1 hlt
  have htable : afterCalls 1 ["a.y"] = table := congrArg Prod.snd hfirst
  have hnames : table.toList = ["a.y"] := by
    rw [← htable, afterCalls, toList_internAll, haccepted]
    decide
  have hsize : table.size = 1 := by
    rw [← length_toList, hnames]
    rfl
  obtain ⟨hrefuses, -⟩ := (interning_stable_bijection 1 ["a.y"]).2 "b.y" answer next
    (htable ▸ hsecond)
  rw [htable] at hrefuses
  obtain rfl : answer = Position.tableFull := by
    rw [hrefuses.eq_tableFull_iff, hnames, hsize]
    decide
  obtain rfl := hrefuses.unchanged rfl
  exact ⟨next, hfirst, hsecond, (hlater ["b.y"]).2⟩

end FileTable
end SyntaxTree
