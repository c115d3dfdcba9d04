/-
# Multimaps that hold a set of values for each key

The collection a distributed multimap keeps when it is configured as set-valued:
putting a value that is already there changes nothing, and neither does removing
one that is not.  `put` and `remove` therefore say whether they changed the
contents, which is what listeners are told about.
-/
import Mathlib

/-- A set of values for each key, empty where the key is absent. -/
@[ext] structure SetMultimap (κ ν : Type*) where
  get : κ → Finset ν

namespace SetMultimap

/-- No key has a value. -/
def empty {κ ν : Type*} : SetMultimap κ ν := ⟨fun _ => ∅⟩

variable {κ ν : Type*} [DecidableEq κ] [DecidableEq ν]

/-- `put(k, v)`; `true` where the value was not there. -/
def put (m : SetMultimap κ ν) (k : κ) (v : ν) : SetMultimap κ ν × Bool :=
  (⟨Function.update m.get k (insert v (m.get k))⟩, decide (v ∉ m.get k))

/-- `remove(k, v)`; `true` where the value was there. -/
def remove (m : SetMultimap κ ν) (k : κ) (v : ν) : SetMultimap κ ν × Bool :=
  (⟨Function.update m.get k ((m.get k).erase v)⟩, decide (v ∈ m.get k))

/-- The list holds each entry of the multimap once: an answer of `entrySet()`. -/
def IsEntrySet (m : SetMultimap κ ν) (entries : List (κ × ν)) : Prop :=
  entries.Nodup ∧ ∀ k v, (k, v) ∈ entries ↔ v ∈ m.get k

omit [DecidableEq κ] [DecidableEq ν] in
theorem isEntrySet_empty : (empty : SetMultimap κ ν).IsEntrySet [] :=
  ⟨List.nodup_nil, fun k v => by simp [empty]⟩

variable (m : SetMultimap κ ν) (k : κ) (v : ν)

theorem get_put (j : κ) :
    (m.put k v).1.get j = if j = k then insert v (m.get k) else m.get j := by
  simp [put, Function.update_apply]

theorem get_remove (j : κ) :
    (m.remove k v).1.get j = if j = k then (m.get k).erase v else m.get j := by
  simp [remove, Function.update_apply]

/-- A put takes nothing away. -/
theorem subset_get_put (j : κ) : m.get j ⊆ (m.put k v).1.get j := by
  rw [get_put]
  split_ifs with hj
  · subst hj
    exact Finset.subset_insert _ _
  · exact Finset.Subset.refl _

theorem mem_get_put : v ∈ (m.put k v).1.get k := by
  rw [get_put, if_pos rfl]
  exact Finset.mem_insert_self _ _

/-- A put that changes nothing leaves the multimap as it was. -/
theorem put_of_mem (h : v ∈ m.get k) : m.put k v = (m, false) := by
  refine Prod.ext ?_ (by simp [put, h])
  refine SetMultimap.ext ?_
  rw [put, Finset.insert_eq_of_mem h, Function.update_eq_self]

/-- A removal that changes nothing leaves the multimap as it was. -/
theorem remove_of_notMem (h : v ∉ m.get k) : m.remove k v = (m, false) := by
  refine Prod.ext ?_ (by simp [remove, h])
  refine SetMultimap.ext ?_
  rw [remove, Finset.erase_eq_of_notMem h, Function.update_eq_self]

end SetMultimap
