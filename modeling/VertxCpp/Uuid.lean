/-
# `uuid::generateUUID`

`src/vertx/uuid.hpp`: 31 numbers from two distributions, written as hexadecimal digits between
three dashes, a dash with a `4` and a dash.  What the distributions return is a parameter.

The text is a version-4 uuid, every such text can come out, and each comes out of one sequence
of numbers only (`generateUUID_spec`): nothing that is drawn is lost on the way into the text,
so the reply addresses of two requests are the same exactly where all 31 numbers are.  None of
them has a `ping` in it (`not_ping_replyAddress`), so it takes another field for the frame of a
reply to be taken for a heartbeat.
-/
import VertxCpp.EventBus

namespace VertxCpp

open EventBus

namespace Uuid

/-- What `dis` returns. -/
abbrev Dis : Type := Set.Icc (0 : ℕ) 15

/-- What `dis2` returns. -/
abbrev Dis2 : Type := Set.Icc (8 : ℕ) 11

/-- `ss << i`, behind `ss << std::hex`. -/
def hex (i : ℕ) : Bytes := (Nat.toDigits 16 i).map fun c => c.val.toUInt8

/-- `for (i = 0; i < count; i++) ss << dis(gen)`, where `dis` has been called `first` times
before. -/
def putDis (dis : ℕ → Dis) (first count : ℕ) : Bytes :=
  (List.range count).flatMap fun i => hex (dis (first + i))

/-- `generateUUID()`, with the numbers that `dis` returns, one call after the other, and the one
that `dis2` returns. -/
def generateUUID (dis : ℕ → Dis) (dis2 : Dis2) : Bytes :=
  putDis dis 0 8 ++ bytes "-" ++ putDis dis 8 4 ++ bytes "-4" ++ putDis dis 12 3 ++ bytes "-"
    ++ hex dis2 ++ putDis dis 15 3 ++ bytes "-" ++ putDis dis 18 12

/-! ### Digits -/

/-- The digit of a number below 16. -/
def digit (n : ℕ) : UInt8 := n.digitChar.val.toUInt8

/-- A lower-case hexadecimal digit. -/
def IsHex (c : UInt8) : Prop := c ∈ bytes "0123456789abcdef"

instance (c : UInt8) : Decidable (IsHex c) := inferInstanceAs (Decidable (c ∈ _))

theorem hex_of_lt {n : ℕ} (h : n < 16) : hex n = [digit n] := by
  rw [hex, Nat.toDigits_of_lt_base h]
  rfl

theorem digit_inj {m n : ℕ} (hm : m < 16) (hn : n < 16) : digit m = digit n ↔ m = n := by
  have hall : ∀ m n : Fin 16, digit m = digit n → m = n := by decide +kernel
  refine ⟨fun h => ?_, fun h => h ▸ rfl⟩
  exact congrArg Fin.val (hall ⟨m, hm⟩ ⟨n, hn⟩ h)

theorem isHex_digit {n : ℕ} (h : n < 16) : IsHex (digit n) := by
  have hall : ∀ n : Fin 16, IsHex (digit n) := by decide +kernel
  exact hall ⟨n, h⟩

/-- The number that a digit stands for. -/
def value (c : UInt8) : Dis := ⟨min 15 ((bytes "0123456789abcdef").idxOf c), by simp⟩

theorem digit_value {c : UInt8} (h : IsHex c) : digit (value c) = c := by
  have hall : ∀ c ∈ bytes "0123456789abcdef", digit (value c) = c := by decide +kernel
  exact hall c h

theorem Dis.lt (d : Dis) : (d : ℕ) < 16 := Nat.lt_succ_of_le d.2.2

theorem Dis2.lt (d : Dis2) : (d : ℕ) < 16 := by
  have := d.2.2
  omega

theorem putDis_eq (dis : ℕ → Dis) (first count : ℕ) :
    putDis dis first count = (List.range count).map fun i => digit (dis (first + i)) := by
  simp only [putDis, hex_of_lt (Dis.lt _)]
  exact List.flatMap_pure_eq_map _ _

@[simp] theorem length_putDis (dis : ℕ → Dis) (first count : ℕ) :
    (putDis dis first count).length = count := by
  simp [putDis_eq]

theorem putDis_inj {dis dis' : ℕ → Dis} {first count : ℕ} :
    putDis dis first count = putDis dis' first count ↔
      ∀ i < count, dis (first + i) = dis' (first + i) := by
  simp [putDis_eq, digit_inj (Dis.lt _) (Dis.lt _), Subtype.ext_iff]

theorem isHex_putDis (dis : ℕ → Dis) (first count : ℕ) :
    ∀ c ∈ putDis dis first count, IsHex c := by
  intro c hc
  rw [putDis_eq, List.mem_map] at hc
  obtain ⟨i, -, rfl⟩ := hc
  exact isHex_digit (Dis.lt _)

/-- Hexadecimal digits come out of the numbers they stand for. -/
theorem putDis_value {s : Bytes} (hs : ∀ c ∈ s, IsHex c) {first count : ℕ}
    (hlen : first + count ≤ s.length) :
    putDis (fun i => value (s.getD i 0)) first count = (s.drop first).take count := by
  rw [putDis_eq]
  refine List.ext_getElem (by simp; omega) fun i hi hi' => ?_
  have hlt : first + i < s.length := by
    rw [List.length_map, List.length_range] at hi
    omega
  rw [List.getElem_map, List.getElem_range, List.getElem_take, List.getElem_drop,
    List.getD_eq_getElem _ _ hlt, digit_value (hs _ (List.getElem_mem hlt))]

/-! ### The texts that come out -/

/-- A version-4 uuid in lower case. -/
def IsV4 (t : Bytes) : Prop :=
  ∃ low mid high seq node : Bytes, ∃ variant ∈ bytes "89ab",
    t = low ++ bytes "-" ++ mid ++ bytes "-4" ++ high ++ bytes "-" ++ [variant] ++ seq
      ++ bytes "-" ++ node ∧
    (low.length = 8 ∧ mid.length = 4 ∧ high.length = 3 ∧ seq.length = 3 ∧ node.length = 12) ∧
    ∀ c ∈ low ++ mid ++ high ++ seq ++ node, IsHex c

theorem isV4_generateUUID (dis : ℕ → Dis) (dis2 : Dis2) : IsV4 (generateUUID dis dis2) := by
  have hvariant : ∀ d : Fin 4, digit (8 + d) ∈ bytes "89ab" := by decide +kernel
  have hdis2 : digit dis2 ∈ bytes "89ab" := by
    have hlow := dis2.2.1
    have hhigh := dis2.2.2
    have hsum := hvariant ⟨dis2 - 8, by omega⟩
    rwa [show 8 + ((dis2 : ℕ) - 8) = dis2 by omega] at hsum
  refine ⟨_, _, _, _, _, _, hdis2, ?_, ⟨length_putDis dis 0 8, length_putDis dis 8 4,
    length_putDis dis 12 3, length_putDis dis 15 3, length_putDis dis 18 12⟩, ?_⟩
  · rw [generateUUID, hex_of_lt dis2.lt]
  · simp only [List.mem_append]
    rintro c ((((h | h) | h) | h) | h) <;> exact isHex_putDis dis _ _ c h

theorem exists_of_isV4 {t : Bytes} (h : IsV4 t) : ∃ dis dis2, generateUUID dis dis2 = t := by
  obtain ⟨low, mid, high, seq, node, variant, hvariant, rfl, ⟨h₁, h₂, h₃, h₄, h₅⟩, hhex⟩ := h
  have hall : ∀ c ∈ bytes "89ab", ∃ d : Fin 4, digit (8 + d) = c := by decide +kernel
  obtain ⟨d, rfl⟩ := hall variant hvariant
  refine ⟨fun i => value ((low ++ mid ++ high ++ seq ++ node).getD i 0),
    ⟨8 + d, by simp; omega⟩, ?_⟩
  have hlen : (low ++ mid ++ high ++ seq ++ node).length = 30 := by simp; omega
  have hpart (a b c : Bytes) : ((a ++ b ++ c).drop a.length).take b.length = b := by simp
  have hlow := hpart [] low (mid ++ high ++ seq ++ node)
  have hmid := hpart low mid (high ++ seq ++ node)
  have hhigh := hpart (low ++ mid) high (seq ++ node)
  have hseq := hpart (low ++ mid ++ high) seq node
  have hnode := hpart (low ++ mid ++ high ++ seq) node []
  simp only [List.length_append, List.length_nil, List.append_assoc, List.nil_append,
    List.append_nil, h₁, h₂, h₃, h₄, h₅] at hlow hmid hhigh hseq hnode
  rw [generateUUID, putDis_value hhex (by omega), putDis_value hhex (by omega),
    putDis_value hhex (by omega), putDis_value hhex (by omega), putDis_value hhex (by omega),
    hex_of_lt (by simp; omega)]
  simp only [List.append_assoc, hlow, hmid, hhigh, hseq, hnode]

/-- **Nothing that is drawn is lost.** -/
theorem generateUUID_inj {dis dis' : ℕ → Dis} {dis2 dis2' : Dis2} :
    generateUUID dis dis2 = generateUUID dis' dis2' ↔
      (∀ i < 30, dis i = dis' i) ∧ dis2 = dis2' := by
  constructor
  · intro h
    simp only [generateUUID, hex_of_lt (Dis2.lt _)] at h
    obtain ⟨h, hnode⟩ := List.append_inj' h (by simp)
    obtain ⟨h, -⟩ := List.append_inj' h rfl
    obtain ⟨h, hseq⟩ := List.append_inj' h (by simp)
    obtain ⟨h, hvariant⟩ := List.append_inj' h rfl
    obtain ⟨h, -⟩ := List.append_inj' h rfl
    obtain ⟨h, hhigh⟩ := List.append_inj' h (by simp)
    obtain ⟨h, -⟩ := List.append_inj' h rfl
    obtain ⟨h, hmid⟩ := List.append_inj' h (by simp)
    obtain ⟨hlow, -⟩ := List.append_inj' h rfl
    rw [putDis_inj] at hlow hmid hhigh hseq hnode
    refine ⟨fun i hi => ?_, ?_⟩
    · have hat (first : ℕ) (hle : first ≤ i)
          (h : dis (first + (i - first)) = dis' (first + (i - first))) : dis i = dis' i := by
        rwa [Nat.add_sub_cancel' hle] at h
      rcases Nat.lt_or_ge i 8 with h8 | h8
      · exact hat 0 (by omega) (hlow _ (by omega))
      rcases Nat.lt_or_ge i 12 with h12 | h12
      · exact hat 8 h8 (hmid _ (by omega))
      rcases Nat.lt_or_ge i 15 with h15 | h15
      · exact hat 12 h12 (hhigh _ (by omega))
      rcases Nat.lt_or_ge i 18 with h18 | h18
      · exact hat 15 h15 (hseq _ (by omega))
      · exact hat 18 h18 (hnode _ (by omega))
    · exact Subtype.ext ((digit_inj (Dis2.lt _) (Dis2.lt _)).1 (by simpa using hvariant))
  · rintro ⟨h, rfl⟩
    have hput (first count : ℕ) (hle : first + count ≤ 30) :
        putDis dis first count = putDis dis' first count :=
      putDis_inj.2 fun i hi => h _ (by omega)
    rw [generateUUID, generateUUID, hput 0 8 (by omega), hput 8 4 (by omega), hput 12 3 (by omega),
      hput 15 3 (by omega), hput 18 12 (by omega)]

theorem exists_iff_isV4 {t : Bytes} : (∃ dis dis2, generateUUID dis dis2 = t) ↔ IsV4 t := by
  constructor
  · rintro ⟨dis, dis2, rfl⟩
    exact isV4_generateUUID dis dis2
  · exact exists_of_isV4

/-- The texts are as many as the sequences of numbers. -/
theorem ncard_isV4 : {t | IsV4 t}.ncard = 2 ^ 122 := by
  let text (p : (Fin 30 → Dis) × Dis2) : Bytes := generateUUID (fun i => p.1 (Fin.ofNat 30 i)) p.2
  have hinj : Function.Injective text := by
    intro p q h
    obtain ⟨hdis, hdis2⟩ := generateUUID_inj.1 h
    refine Prod.ext (funext fun i => ?_) hdis2
    have hi := hdis i i.isLt
    rwa [Fin.ofNat_val_eq_self] at hi
  have hrange : Set.range text = {t | IsV4 t} := by
    ext t
    rw [Set.mem_ofPred_eq, ← exists_iff_isV4]
    constructor
    · rintro ⟨p, rfl⟩
      exact ⟨_, _, rfl⟩
    · rintro ⟨dis, dis2, rfl⟩
      refine ⟨(fun i => dis i, dis2), generateUUID_inj.2 ⟨fun i hi => ?_, rfl⟩⟩
      simp [Nat.mod_eq_of_lt hi]
  rw [← hrange, Set.ncard_range_of_injective hinj, Nat.card_prod, Nat.card_fun]
  simp [Nat.card_eq_fintype_card]

/-- A uuid has digits and dashes only. -/
theorem isHex_of_mem {t : Bytes} (h : IsV4 t) {c : UInt8} (hc : c ∈ t) :
    IsHex c ∨ c ∈ bytes "-" := by
  obtain ⟨low, mid, high, seq, node, variant, hvariant, rfl, -, hhex⟩ := h
  have hvariants : ∀ c ∈ bytes "89ab", IsHex c := by decide +kernel
  have hfour : ∀ c ∈ bytes "-4", IsHex c ∨ c ∈ bytes "-" := by decide +kernel
  simp only [List.mem_append, List.mem_singleton] at hc hhex
  rcases hc with (((((((((h | h) | h) | h) | h) | h) | rfl) | h) | h) | h)
  · exact Or.inl (hhex c (by simp [h]))
  · exact Or.inr h
  · exact Or.inl (hhex c (by simp [h]))
  · exact hfour c h
  · exact Or.inl (hhex c (by simp [h]))
  · exact Or.inr h
  · exact Or.inl (hvariants c hvariant)
  · exact Or.inl (hhex c (by simp [h]))
  · exact Or.inr h
  · exact Or.inl (hhex c (by simp [h]))

/-- Neither a uuid nor the text in front of it has the second letter of `ping`. -/
theorem not_ping_replyAddress {t : Bytes} (h : IsV4 t) :
    ¬ bytes "ping" <:+: replyAddress t := by
  intro hping
  have hmem : (105 : UInt8) ∈ replyAddress t := hping.subset (by decide)
  rw [replyAddress, List.mem_append] at hmem
  rcases hmem with hmark | hmem
  · exact absurd hmark (by decide)
  · rcases isHex_of_mem h hmem with hhex | hdash
    · exact absurd hhex (by decide)
    · exact absurd hdash (by decide)

/-- **What `generateUUID` returns**: the version-4 uuids in lower case, each from one sequence of
numbers, so that there are `2 ^ 122`.  None makes a heartbeat of the address of a reply. -/
theorem generateUUID_spec :
    (∀ (dis dis' : ℕ → Dis) (dis2 dis2' : Dis2),
      replyAddress (generateUUID dis dis2) = replyAddress (generateUUID dis' dis2') ↔
        (∀ i < 30, dis i = dis' i) ∧ dis2 = dis2') ∧
    (∀ t, (∃ dis dis2, generateUUID dis dis2 = t) ↔ IsV4 t) ∧
    {t | IsV4 t}.ncard = 2 ^ 122 ∧
    ∀ dis dis2, ¬ bytes "ping" <:+: replyAddress (generateUUID dis dis2) := by
  refine ⟨fun dis dis' dis2 dis2' => ?_, fun t => exists_iff_isV4, ncard_isV4, fun dis dis2 => ?_⟩
  · rw [replyAddress, replyAddress, List.append_right_inj, generateUUID_inj]
  · exact not_ping_replyAddress (isV4_generateUUID dis dis2)

end Uuid

end VertxCpp
