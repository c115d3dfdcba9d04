/-
# Reading raw memory with a 32-bit cursor

A pointer gives no bounds: what stands behind it is a function from indices to
bytes, of which only the first few belong to the object pointed to.  A reader
walks it with a cursor held in a 32-bit C `int`.  `Cursor` keeps the position
together with what bounds have to be checked on afterwards, the indices read and
the end positions computed, so that a safety property is a property of the final
cursor (`Cursor.Inside`).

Positions are counted by natural numbers `p` and held as `wrap p`: up to `2^31`
the two agree but for the last, which wraps to the least `int`.  Reading what is
known to stand at `p` is exact (`Cursor.take_of_holds`), and a read that stays
inside tells how far the cursor was (`Cursor.inside_take`).
-/
import Mathlib

/-- Bytes around a pointer, by their distance from it. -/
abbrev Memory := ℤ → UInt8

namespace Memory

/-- The bytes `bs` stand at index `i`. -/
def Holds (mem : Memory) (i : ℤ) (bs : List UInt8) : Prop :=
  ∀ k (h : k < bs.length), mem (i + k) = bs[k]

theorem Holds.append {mem : Memory} {i : ℤ} {bs cs : List UInt8} (h : mem.Holds i (bs ++ cs)) :
    mem.Holds i bs ∧ mem.Holds (i + bs.length) cs := by
  refine ⟨fun k hk => ?_, fun k hk => ?_⟩
  · have := h k (by rw [List.length_append]; omega)
    rwa [List.getElem_append_left hk] at this
  · have := h (bs.length + k) (by rw [List.length_append]; omega)
    rw [List.getElem_append_right (by omega)] at this
    simpa [add_assoc] using this

theorem Holds.append_of {mem : Memory} {i : ℤ} {bs cs : List UInt8} (hb : mem.Holds i bs)
    (hc : mem.Holds (i + bs.length) cs) : mem.Holds i (bs ++ cs) := by
  intro k hk
  rcases Nat.lt_or_ge k bs.length with h | h
  · rw [List.getElem_append_left h]
    exact hb k h
  · rw [List.length_append] at hk
    rw [List.getElem_append_right h, ← hc (k - bs.length) (by omega)]
    congr 1
    omega

theorem Holds.cons {mem : Memory} {i : ℤ} {b : UInt8} {bs : List UInt8}
    (h : mem.Holds i (b :: bs)) : mem i = b ∧ mem.Holds (i + 1) bs := by
  obtain ⟨hb, hbs⟩ := (show mem.Holds i ([b] ++ bs) from h).append
  exact ⟨by simpa using hb 0 (by simp), by simpa using hbs⟩

theorem Holds.mono {mem : Memory} {i : ℤ} {bs cs : List UInt8} (h : mem.Holds i cs)
    (hp : bs <+: cs) : mem.Holds i bs := by
  obtain ⟨ds, rfl⟩ := hp
  exact h.append.1

theorem holds_singleton (mem : Memory) (i : ℤ) : mem.Holds i [mem i] := by
  intro k hk
  obtain rfl : k = 0 := by simpa using hk
  simp

/-- What a memory holds of a given length, read off. -/
def window (mem : Memory) (i : ℤ) (n : ℕ) : List UInt8 :=
  (List.range n).map fun k : ℕ => mem (i + k)

@[simp] theorem length_window (mem : Memory) (i : ℤ) (n : ℕ) : (mem.window i n).length = n := by
  simp [window]

theorem holds_window (mem : Memory) (i : ℤ) (n : ℕ) : mem.Holds i (mem.window i n) :=
  fun k hk => by simp [window]

/-- A memory with the bytes `bs` put at its front. -/
def overlay (bs : List UInt8) (mem : Memory) : Memory :=
  fun i => if h : 0 ≤ i ∧ i.toNat < bs.length then bs[i.toNat] else mem i

theorem holds_overlay (bs : List UInt8) (mem : Memory) : (overlay bs mem).Holds 0 bs := by
  intro k hk
  simp [overlay, hk]

/-- A memory holding two strings at one place holds the shorter as a prefix of
the longer. -/
theorem Holds.initial {mem : Memory} {i : ℤ} {bs cs : List UInt8} (hb : mem.Holds i bs)
    (hc : mem.Holds i cs) (h : bs.length ≤ cs.length) : bs <+: cs := by
  rw [List.prefix_iff_eq_take]
  refine List.ext_getElem (by simp [h]) fun k h₁ h₂ => ?_
  rw [List.getElem_take, ← hb k h₁, hc k (by omega)]

/-- The value a 32-bit two's complement integer holds after an addition.  It is
opened by its lemmas only: unfolding it brings `2 ^ 32` into every unification. -/
@[irreducible] def wrap (i : ℤ) : ℤ := i.bmod (2 ^ 32)

theorem wrap_of_mem {i : ℤ} (h₁ : -2 ^ 31 ≤ i) (h₂ : i < 2 ^ 31) : wrap i = i := by
  unfold wrap
  exact Int.bmod_eq_of_le (by omega) (by omega)

theorem wrap_of_lt {p : ℕ} (h : p < 2 ^ 31) : wrap p = p := wrap_of_mem (by omega) (by omega)

theorem wrap_lt (i : ℤ) : wrap i < 2 ^ 31 := by
  unfold wrap
  have := Int.bmod_lt (x := i) (m := 2 ^ 32) (by norm_num)
  omega

theorem wrap_wrap_add (i j : ℤ) : wrap (wrap i + j) = wrap (i + j) := by
  simp [wrap]

/-- Up to `2^31` only the last position is not itself: it is the least `int`. -/
theorem wrap_nonneg_iff {p : ℕ} (h : p ≤ 2 ^ 31) : 0 ≤ wrap p ↔ p < 2 ^ 31 := by
  rcases Nat.lt_or_ge p (2 ^ 31) with hp | hp
  · rw [wrap_of_lt hp]
    exact ⟨fun _ => hp, fun _ => Int.natCast_nonneg p⟩
  · have : p = 2 ^ 31 := by omega
    subst this
    decide +kernel

/-- The indices `p, p + 1, …, p + n - 1`. -/
def span (p n : ℕ) : List ℤ := (List.range' p n).map Int.ofNat

theorem span_append (p m n : ℕ) : span p m ++ span (p + m) n = span p (m + n) := by
  rw [span, span, span, ← List.map_append, List.range'_append_1]

theorem span_succ (p n : ℕ) : span p (n + 1) = (p : ℤ) :: span (p + 1) n := by
  simp [span, List.range'_succ]

theorem mem_span {p n : ℕ} {i : ℤ} : i ∈ span p n ↔ (p : ℤ) ≤ i ∧ i < p + n := by
  simp only [span, List.mem_map, List.mem_range'_1]
  constructor
  · rintro ⟨k, hk, rfl⟩
    simp only [Int.ofNat_eq_natCast]
    omega
  · intro h
    exact ⟨i.toNat, by omega, by simp only [Int.ofNat_eq_natCast]; omega⟩

/-- Where a reader stands, what it has read and which end positions it has
computed, oldest first. -/
@[ext] structure Cursor where
  pos : ℤ
  reads : List ℤ
  ends : List ℤ

namespace Cursor

/-- The cursor at the first byte, before anything is read. -/
def start : Cursor := ⟨0, [], []⟩

/-- `mem[pos++]`. -/
def next (mem : Memory) (c : Cursor) : UInt8 × Cursor :=
  (mem c.pos, { c with pos := wrap (c.pos + 1), reads := c.reads ++ [c.pos] })

/-- `n` bytes, one after another. -/
def take (mem : Memory) : ℕ → Cursor → List UInt8 × Cursor
  | 0, c => ([], c)
  | n + 1, c => ((c.next mem).1 :: (take mem n (c.next mem).2).1, (take mem n (c.next mem).2).2)

theorem take_succ (mem : Memory) (n : ℕ) (c : Cursor) :
    take mem (n + 1) c
      = ((c.next mem).1 :: (take mem n (c.next mem).2).1, (take mem n (c.next mem).2).2) := rfl

theorem length_take (mem : Memory) (n : ℕ) (c : Cursor) : (take mem n c).1.length = n := by
  induction n generalizing c with
  | zero => rfl
  | succ n ih => rw [take_succ, List.length_cons, ih]

/-- A reader moves on by what it reads, whatever that is. -/
theorem pos_take (mem : Memory) (n : ℕ) {c : Cursor} {i : ℤ} (h : c.pos = wrap i) :
    (take mem n c).2.pos = wrap (i + n) := by
  induction n generalizing c i with
  | zero => simpa [take] using h
  | succ n ih =>
    have hnext : (c.next mem).2.pos = wrap (i + 1) := by rw [next, h, wrap_wrap_add]
    rw [take_succ, ih hnext]
    congr 1
    push_cast
    ring

/-- Every index read lies in `0 … n`, and no computed end leaves the 32-bit range. -/
def Inside (n : ℕ) (c : Cursor) : Prop :=
  (∀ i ∈ c.reads, 0 ≤ i ∧ i ≤ n) ∧ ∀ e ∈ c.ends, -2 ^ 31 ≤ e ∧ e < 2 ^ 31

/-- **Reading what stands there.**  At position `p`, with no read past the last
`int`, `take` returns the bytes and leaves the cursor behind them. -/
theorem take_of_holds {mem : Memory} {bs : List UInt8} {p : ℕ} (reads ends : List ℤ)
    (h : mem.Holds p bs) (hp : p + bs.length ≤ 2 ^ 31) :
    take mem bs.length ⟨wrap p, reads, ends⟩
      = (bs, ⟨wrap (p + bs.length : ℕ), reads ++ span p bs.length, ends⟩) := by
  induction bs generalizing p reads with
  | nil => simp [take, span]
  | cons b bs ih =>
    simp only [List.length_cons] at hp
    obtain ⟨hb, hbs⟩ := h.cons
    have hw : wrap p = p := wrap_of_lt (by omega)
    have hnext : next mem ⟨wrap p, reads, ends⟩
        = (b, ⟨wrap (p + 1 : ℕ), reads ++ [(p : ℤ)], ends⟩) := by
      simp [next, hw, hb]
    have := ih (p := p + 1) (reads ++ [(p : ℤ)]) (by simpa using hbs) (by omega)
    rw [List.length_cons, take_succ, hnext]
    simp only [this, Prod.mk.injEq, true_and, Cursor.mk.injEq, and_true]
    refine ⟨by rw [show p + 1 + bs.length = p + (bs.length + 1) by omega], ?_⟩
    rw [span_succ, List.append_assoc, List.singleton_append]

/-- The cursor of a reader that has read the first `p` bytes once each, in order,
and has computed the end positions `ends`. -/
def upTo (p : ℕ) (ends : List ℤ) : Cursor := ⟨wrap p, span 0 p, ends⟩

theorem start_eq_upTo : start = upTo 0 [] := by
  rw [upTo, wrap_of_lt (by norm_num)]
  rfl

theorem upTo_pos {p : ℕ} (ends : List ℤ) (h : p < 2 ^ 31) : (upTo p ends).pos = p := by
  rw [upTo, wrap_of_lt h]

theorem take_upTo {mem : Memory} {bs : List UInt8} {p : ℕ} (ends : List ℤ)
    (h : mem.Holds p bs) (hp : p + bs.length ≤ 2 ^ 31) :
    take mem bs.length (upTo p ends) = (bs, upTo (p + bs.length) ends) := by
  have hspan := span_append 0 p bs.length
  rw [zero_add] at hspan
  rw [upTo, take_of_holds _ ends h hp, hspan, upTo]

theorem reads_subset_take (mem : Memory) (n : ℕ) (c : Cursor) :
    c.reads ⊆ (take mem n c).2.reads := by
  induction n generalizing c with
  | zero => exact List.Subset.refl _
  | succ n ih => exact List.Subset.trans (List.subset_append_left _ _) (ih (c.next mem).2)

/-- The position held is the first one read. -/
theorem pos_mem_take (mem : Memory) (n : ℕ) (c : Cursor) :
    c.pos ∈ (take mem (n + 1) c).2.reads :=
  reads_subset_take mem n (c.next mem).2 (List.mem_append_right _ (List.mem_singleton_self _))

/-- Reading only adds to the log, so what ends inside was inside before. -/
theorem Inside.of_take {mem : Memory} {m : ℕ} (n : ℕ) {c : Cursor}
    (h : (take mem n c).2.Inside m) : c.Inside m := by
  induction n generalizing c with
  | zero => exact h
  | succ n ih =>
    have hnext : (c.next mem).2.Inside m := ih h
    exact ⟨fun i hi => hnext.1 i (List.mem_append_left _ hi), hnext.2⟩

/-- The first of the bytes read is read at the position held. -/
theorem Inside.pos_of_take {mem : Memory} {m : ℕ} (n : ℕ) {c : Cursor}
    (h : (take mem (n + 1) c).2.Inside m) : 0 ≤ c.pos ∧ c.pos ≤ m := by
  have hnext : (c.next mem).2.Inside m := Inside.of_take n h
  exact hnext.1 _ (List.mem_append_right _ (List.mem_singleton_self _))

/-- **A read that stays inside tells where the cursor was.**  After `n + 1` reads
from `p` inside `0 … m`, the last index `p + n` is at most `m` and is an `int`. -/
theorem inside_take {mem : Memory} {m n p : ℕ} {reads ends : List ℤ} (hp : p ≤ 2 ^ 31)
    (h : (take mem (n + 1) ⟨wrap p, reads, ends⟩).2.Inside m) : p + n ≤ m ∧ p + n < 2 ^ 31 := by
  induction n generalizing p reads with
  | zero =>
    have hpos := Inside.pos_of_take 0 h
    dsimp only at hpos
    have hlt : p < 2 ^ 31 := (wrap_nonneg_iff hp).1 hpos.1
    rw [wrap_of_lt hlt] at hpos
    omega
  | succ n ih =>
    have hpos := Inside.pos_of_take (n + 1) h
    dsimp only at hpos
    have hlt : p < 2 ^ 31 := (wrap_nonneg_iff hp).1 hpos.1
    have hnext : (next mem ⟨wrap p, reads, ends⟩).2
        = ⟨wrap (p + 1 : ℕ), reads ++ [wrap p], ends⟩ := by
      simp [next, wrap_wrap_add]
    rw [take_succ, hnext] at h
    have := ih (by omega) h
    omega

end Cursor

end Memory
