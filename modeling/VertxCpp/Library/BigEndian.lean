/-
# Big-endian 32-bit words

A word is four bytes, the most significant first (`BigEndian.bytes`,
`BigEndian.join`), and the two maps are inverse to each other.  Everything is
reduced to the value of `join` as a number (`join_toNat`): a disjunction of
shifted bytes is their weighted sum, and the rest is division by powers of two.
-/
import Mathlib

namespace BigEndian

/-- The word of four bytes, the most significant first. -/
def join (a b c d : UInt8) : UInt32 :=
  a.toUInt32 <<< 24 ||| b.toUInt32 <<< 16 ||| c.toUInt32 <<< 8 ||| d.toUInt32

/-- The four bytes of a word, the most significant first. -/
def bytes (w : UInt32) : List UInt8 :=
  [(w >>> 24).toUInt8, (w >>> 16).toUInt8, (w >>> 8).toUInt8, w.toUInt8]

@[simp] theorem length_bytes (w : UInt32) : (bytes w).length = 4 := rfl

/-- **The value of a word** is the sum of its bytes with their weights. -/
theorem join_toNat (a b c d : UInt8) :
    (join a b c d).toNat
      = a.toNat * 2 ^ 24 + b.toNat * 2 ^ 16 + c.toNat * 2 ^ 8 + d.toNat := by
  have ha := a.toNat_lt
  have hb := b.toNat_lt
  have hc := c.toNat_lt
  have hd := d.toNat_lt
  have hor (x y k : ℕ) (hy : y < 2 ^ k) : x <<< k ||| y = x * 2 ^ k + y := by
    rw [← Nat.shiftLeft_add_eq_or_of_lt hy, Nat.shiftLeft_eq]
  have hshift (x : UInt8) : (x.toUInt32 <<< 24).toNat = x.toNat <<< 24 ∧
      (x.toUInt32 <<< 16).toNat = x.toNat <<< 16 ∧ (x.toUInt32 <<< 8).toNat = x.toNat <<< 8 := by
    have hx := x.toNat_lt
    simp only [Nat.shiftLeft_eq]
    refine ⟨?_, ?_, ?_⟩ <;> · simp [Nat.shiftLeft_eq]; omega
  rw [join, UInt32.toNat_or, UInt32.toNat_or, UInt32.toNat_or, (hshift a).1, (hshift b).2.1,
    (hshift c).2.2, UInt8.toNat_toUInt32]
  rw [hor a.toNat _ 24 (by rw [Nat.shiftLeft_eq]; omega), Nat.shiftLeft_eq b.toNat,
    show a.toNat * 2 ^ 24 + b.toNat * 2 ^ 16 = (a.toNat * 2 ^ 8 + b.toNat) <<< 16 by
      rw [Nat.shiftLeft_eq]; omega,
    hor _ _ 16 (by rw [Nat.shiftLeft_eq]; omega), Nat.shiftLeft_eq c.toNat,
    show (a.toNat * 2 ^ 8 + b.toNat) * 2 ^ 16 + c.toNat * 2 ^ 8
      = ((a.toNat * 2 ^ 8 + b.toNat) * 2 ^ 8 + c.toNat) <<< 8 by rw [Nat.shiftLeft_eq]; omega,
    hor _ _ 8 hd]
  omega

/-- **Joining the bytes of a word gives the word back.** -/
@[simp] theorem join_bytes (w : UInt32) :
    join (w >>> 24).toUInt8 (w >>> 16).toUInt8 (w >>> 8).toUInt8 w.toUInt8 = w := by
  have hw := w.toNat_lt
  apply UInt32.toNat_inj.mp
  rw [join_toNat]
  simp only [UInt32.toNat_toUInt8, UInt32.toNat_shiftRight, UInt32.toNat_ofNat,
    Nat.shiftRight_eq_div_pow, Nat.reduceMod, Nat.reducePow]
  omega

/-- **The bytes of a joined word are the ones it was joined from.** -/
@[simp] theorem bytes_join (a b c d : UInt8) : bytes (join a b c d) = [a, b, c, d] := by
  have ha := a.toNat_lt
  have hb := b.toNat_lt
  have hc := c.toNat_lt
  have hd := d.toNat_lt
  have hbyte (x y : UInt8) (h : x.toNat = y.toNat) : x = y := UInt8.toNat_inj.mp h
  simp only [bytes, List.cons.injEq, and_true]
  refine ⟨hbyte _ _ ?_, hbyte _ _ ?_, hbyte _ _ ?_, hbyte _ _ ?_⟩ <;>
    · simp [join_toNat, Nat.shiftRight_eq_div_pow]
      omega

/-- Masking a byte out before shifting it down changes nothing, the shifted word
being cut to its last byte anyway. -/
theorem toUInt8_mask (w : UInt32) :
    ((w &&& 0xff000000) >>> 24).toUInt8 = (w >>> 24).toUInt8 ∧
      ((w &&& 0x00ff0000) >>> 16).toUInt8 = (w >>> 16).toUInt8 ∧
      ((w &&& 0x0000ff00) >>> 8).toUInt8 = (w >>> 8).toUInt8 ∧
      (w &&& 0x000000ff).toUInt8 = w.toUInt8 := by
  have hmask (n : ℕ) : n &&& 255 = n % 256 := Nat.and_two_pow_sub_one_eq_mod n 8
  refine ⟨?_, ?_, ?_, ?_⟩ <;>
    · apply UInt8.toNat_inj.mp
      simp only [UInt32.toNat_toUInt8, UInt32.toNat_shiftRight, UInt32.toNat_and,
        UInt32.toNat_ofNat, Nat.shiftRight_and_distrib, Nat.reduceMod, Nat.reduceShiftRight,
        Nat.reducePow, hmask, Nat.mod_mod]

end BigEndian
