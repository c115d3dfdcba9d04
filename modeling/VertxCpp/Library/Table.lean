/-
# Finite maps with the interface of `std::unordered_map`

A table is a partial function from keys to values, which is all that can be
observed of an unordered map through `find`, `at`, `emplace`, `operator[]`,
`erase` and assignment.  The operations differ in what they do to a key that is
already there, and in whether a lookup can insert: `emplace` keeps the value it
finds, `assign` overwrites it, and `subscript` (`operator[]`) leaves a default
value behind where there was none.

Each operation has one lemma per reading, at the key it touches and at the
others, so that proofs never unfold a table.
-/
import Mathlib

/-- A map from keys to values.  `find` is `none` where the key is absent, where
`at` would throw. -/
@[ext] structure Table (κ ν : Type*) where
  find : κ → Option ν

namespace Table

variable {κ ν : Type*}

/-- No key is present. -/
def empty : Table κ ν := ⟨fun _ => none⟩

@[simp] theorem find_empty (k : κ) : (empty : Table κ ν).find k = none := rfl

variable [DecidableEq κ]

/-- `t[k] = v` and `at(k) = v`: the value is overwritten. -/
def assign (t : Table κ ν) (k : κ) (v : ν) : Table κ ν :=
  ⟨fun j => if j = k then some v else t.find j⟩

/-- `erase(k)`. -/
def erase (t : Table κ ν) (k : κ) : Table κ ν := ⟨fun j => if j = k then none else t.find j⟩

/-- `emplace(k, v)` and `try_emplace(k, v)`: a value already there is kept. -/
def emplace (t : Table κ ν) (k : κ) (v : ν) : Table κ ν :=
  match t.find k with
  | some _ => t
  | none => t.assign k v

/-- `t[k]` read, with `d` the default value of the type: the value found and the
table, which holds `d` at `k` where nothing was. -/
def subscript (t : Table κ ν) (k : κ) (d : ν) : ν × Table κ ν :=
  match t.find k with
  | some v => (v, t)
  | none => (d, t.assign k d)

theorem find_assign (t : Table κ ν) (k j : κ) (v : ν) :
    (t.assign k v).find j = if j = k then some v else t.find j := rfl

theorem find_erase (t : Table κ ν) (k j : κ) :
    (t.erase k).find j = if j = k then none else t.find j := rfl

@[simp] theorem find_assign_self (t : Table κ ν) (k : κ) (v : ν) :
    (t.assign k v).find k = some v := if_pos rfl

@[simp] theorem find_assign_of_ne (t : Table κ ν) {k j : κ} (v : ν) (h : j ≠ k) :
    (t.assign k v).find j = t.find j := if_neg h

@[simp] theorem find_erase_self (t : Table κ ν) (k : κ) : (t.erase k).find k = none := if_pos rfl

@[simp] theorem find_erase_of_ne (t : Table κ ν) {k j : κ} (h : j ≠ k) :
    (t.erase k).find j = t.find j := if_neg h

/-- A key that was absent and is taken out again. -/
theorem erase_assign_of_none {t : Table κ ν} {k : κ} (h : t.find k = none) (v : ν) :
    (t.assign k v).erase k = t := by
  ext1
  funext j
  rw [find_erase, find_assign]
  split_ifs with hj
  · rw [hj, h]
  · rfl

/-- A value that is overwritten is gone. -/
theorem assign_assign (t : Table κ ν) (k : κ) (v w : ν) :
    (t.assign k v).assign k w = t.assign k w := by
  ext1
  funext j
  rw [find_assign, find_assign, find_assign]
  split_ifs <;> rfl

theorem emplace_of_some {t : Table κ ν} {k : κ} {w : ν} (h : t.find k = some w) (v : ν) :
    t.emplace k v = t := by
  simp [emplace, h]

theorem emplace_of_none {t : Table κ ν} {k : κ} (h : t.find k = none) (v : ν) :
    t.emplace k v = t.assign k v := by
  simp [emplace, h]

/-- `emplace` changes nothing exactly where the key is there. -/
theorem emplace_eq_self_iff (t : Table κ ν) (k : κ) (v : ν) :
    t.emplace k v = t ↔ t.find k ≠ none := by
  cases hfind : t.find k with
  | some w => simp [emplace_of_some hfind]
  | none =>
    rw [emplace_of_none hfind]
    refine ⟨fun h => ?_, fun h => absurd rfl h⟩
    have hkey := congrArg (fun t => t.find k) h
    simp [hfind] at hkey

theorem find_emplace (t : Table κ ν) (k j : κ) (v : ν) :
    (t.emplace k v).find j = (t.find j).or (if j = k then some v else none) := by
  cases hfind : t.find k with
  | some w =>
    rw [emplace_of_some hfind]
    split_ifs with hj
    · rw [hj, hfind, Option.some_or]
    · rw [Option.or_none]
  | none =>
    rw [emplace_of_none hfind, find_assign]
    split_ifs with hj
    · rw [hj, hfind, Option.none_or]
    · rw [Option.or_none]

/-- **The first entry of a key wins**, and what was there before wins over it. -/
theorem find_foldl_emplace (entries : List (κ × ν)) (t : Table κ ν) (k : κ) :
    (entries.foldl (fun t entry => t.emplace entry.1 entry.2) t).find k
      = (t.find k).or ((entries.find? fun entry => k = entry.1).map Prod.snd) := by
  induction entries generalizing t with
  | nil => simp
  | cons entry entries ih =>
    rw [List.foldl_cons, ih, find_emplace, Option.or_assoc, List.find?_cons]
    by_cases hk : k = entry.1 <;> simp [hk]

theorem subscript_of_some {t : Table κ ν} {k : κ} {v : ν} (h : t.find k = some v) (d : ν) :
    t.subscript k d = (v, t) := by
  simp [subscript, h]

theorem subscript_of_none {t : Table κ ν} {k : κ} (h : t.find k = none) (d : ν) :
    t.subscript k d = (d, t.assign k d) := by
  simp [subscript, h]

/-- A lookup by `operator[]` changes nothing exactly where the key is there. -/
theorem subscript_eq_self_iff (t : Table κ ν) (k : κ) (d : ν) :
    (t.subscript k d).2 = t ↔ t.find k ≠ none := by
  cases hfind : t.find k with
  | some w => simp [subscript_of_some hfind]
  | none =>
    rw [subscript_of_none hfind]
    refine ⟨fun h => ?_, fun h => absurd rfl h⟩
    have hkey := congrArg (fun t => t.find k) h
    simp [hfind] at hkey

end Table
