/-
# Words that end where they say

A code none of whose words is the beginning of another (`PrefixFree`) can be read from the
front: two concatenations of words that have the same letters have the same words
(`PrefixFree.uniquelyDecodable`).  A code is one where the first letters of a word tell its
length (`prefixFree_of_size`).
-/
import Mathlib

namespace PrefixCode

open InformationTheory

variable {α β : Type*} {S : Set (List α)}

/-- No word is the beginning of another. -/
def PrefixFree (S : Set (List α)) : Prop := ∀ v ∈ S, ∀ w ∈ S, v <+: w → v = w

/-- The first of two words that begin the same text. -/
theorem PrefixFree.eq_of_append (h : PrefixFree S) {v w x y : List α} (hv : v ∈ S) (hw : w ∈ S)
    (heq : v ++ x = w ++ y) : v = w := by
  rcases List.prefix_or_prefix_of_prefix (List.prefix_append v x)
    (heq ▸ List.prefix_append w y) with hvw | hwv
  · exact h v hv w hw hvw
  · exact (h w hw v hv hwv).symm

/-- **Read from the front.** -/
theorem PrefixFree.uniquelyDecodable (h : PrefixFree S) (hne : [] ∉ S) :
    UniquelyDecodable S := by
  intro L₁
  induction L₁ with
  | nil =>
    intro L₂ _ hL₂ heq
    cases L₂ with
    | nil => rfl
    | cons w L₂ =>
      have hw : w = [] := (List.append_eq_nil_iff.1 heq.symm).1
      exact absurd (hw ▸ hL₂ w List.mem_cons_self) hne
  | cons v L₁ ih =>
    intro L₂ hL₁ hL₂ heq
    have hv := hL₁ v List.mem_cons_self
    cases L₂ with
    | nil =>
      have hnil : v = [] := (List.append_eq_nil_iff.1 heq).1
      exact absurd (hnil ▸ hv) hne
    | cons w L₂ =>
      rw [List.flatten_cons, List.flatten_cons] at heq
      obtain rfl := h.eq_of_append hv (hL₂ w List.mem_cons_self) heq
      rw [ih L₂ (fun u hu => hL₁ u (List.mem_cons_of_mem _ hu))
        (fun u hu => hL₂ u (List.mem_cons_of_mem _ hu)) (List.append_cancel_left heq)]

/-- The first `k` letters of a word tell its length. -/
theorem prefixFree_of_size {k : ℕ} (size : List α → ℕ)
    (h : ∀ w ∈ S, k ≤ w.length ∧ size (w.take k) = w.length) : PrefixFree S := by
  intro v hv w hw hvw
  obtain ⟨hk, hsize⟩ := h v hv
  have htake : v.take k = w.take k := by
    obtain ⟨rest, rfl⟩ := hvw
    rw [List.take_append_of_le_length hk]
  refine hvw.eq_of_length ?_
  rw [← hsize, htake, (h w hw).2]

/-- What is written word by word is read word by word. -/
theorem flatten_map_inj (h : UniquelyDecodable S) {f : β → List α} {l m : List β}
    (hl : ∀ b ∈ l, f b ∈ S) (hm : ∀ b ∈ m, f b ∈ S) :
    (l.map f).flatten = (m.map f).flatten ↔ l.map f = m.map f := by
  refine ⟨h _ _ ?_ ?_, fun heq => by rw [heq]⟩
  · rintro _ hw
    obtain ⟨b, hb, rfl⟩ := List.mem_map.1 hw
    exact hl b hb
  · rintro _ hw
    obtain ⟨b, hb, rfl⟩ := List.mem_map.1 hw
    exact hm b hb

end PrefixCode
