/-
# Length-prefixed segments

A `Segment` is a signed big-endian word followed by as many bytes as it says, none
where it is negative.  Its length and its content agree by construction, so a
reader that trusts the length can be proved right without a side condition on
every segment.

At every place of every memory stands a segment (`exists_holds_segment`): the format
has no error of its own, only segments that reach further than the object they are
read from.
-/
import VertxCpp.Library.BigEndian
import VertxCpp.Library.Memory

open Memory

/-- A signed length and as many bytes as it says; a negative length says none. -/
@[ext] structure Segment where
  len : Int32
  chars : List UInt8
  length_chars : chars.length = len.toInt.toNat

namespace Segment

/-- The segment on the wire: its length, big-endian, and its bytes. -/
def bytes (f : Segment) : List UInt8 := BigEndian.bytes f.len.toUInt32 ++ f.chars

@[simp] theorem length_bytes (f : Segment) : f.bytes.length = 4 + f.chars.length := by
  simp [bytes]

/-- A string short enough for its length to be positive in 32 bits is a segment. -/
def ofChars (s : List UInt8) (h : s.length < 2 ^ 31) : Segment where
  len := Int32.ofNat s.length
  chars := s
  length_chars := by rw [Int32.toInt_ofNat_of_lt h, Int.toNat_natCast]

theorem len_nonpos_iff (f : Segment) : ¬ 0 < f.len.toInt ↔ f.chars = [] := by
  rw [← List.length_eq_zero_iff, f.length_chars]
  omega

end Segment

/-- Four bytes of a memory are a word. -/
theorem exists_holds_word (mem : Memory) (i : ℤ) :
    ∃ w : Int32, mem.Holds i (BigEndian.bytes w.toUInt32) := by
  refine ⟨(BigEndian.join (mem i) (mem (i + 1)) (mem (i + 2)) (mem (i + 3))).toInt32, ?_⟩
  have hwindow : BigEndian.bytes
      (BigEndian.join (mem i) (mem (i + 1)) (mem (i + 2)) (mem (i + 3))).toInt32.toUInt32
        = mem.window i 4 := by
    rw [show (BigEndian.join (mem i) (mem (i + 1)) (mem (i + 2)) (mem (i + 3))).toInt32.toUInt32
      = BigEndian.join (mem i) (mem (i + 1)) (mem (i + 2)) (mem (i + 3)) from rfl,
      BigEndian.bytes_join]
    simp [Memory.window, List.range_succ]
  rw [hwindow]
  exact mem.holds_window i 4

/-- **A segment stands everywhere**, reaching however far it may. -/
theorem exists_holds_segment (mem : Memory) (i : ℤ) : ∃ f : Segment, mem.Holds i f.bytes := by
  obtain ⟨w, hw⟩ := exists_holds_word mem i
  refine ⟨⟨w, mem.window (i + 4) w.toInt.toNat, by simp⟩, ?_⟩
  exact hw.append_of (mem.holds_window _ _)
