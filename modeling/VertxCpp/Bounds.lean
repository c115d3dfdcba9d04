/-
# When the decoder stays inside its input

`to_message` gets a pointer and no length, so four length words of the input
decide how far it reads.  It stays inside the string and its terminating NUL
exactly where these begin with a complete frame whose positions are all `int`s
(`inside_toMessage_iff`): a truncated frame, a length that reaches past the end
and a sum that leaves the 32-bit range are all one condition.

One direction is `toMessage_of_holds`.  For the other the decoder is followed
forward: what it has read stays in the log, so a run that ends inside was inside
after each of its steps, and each step then says how far it went and which
segment stands there.
-/
import VertxCpp.RoundTrip

namespace VertxCpp

open Memory

section Inside

variable {mem : Memory} {n p : ℕ} {ends : List ℤ} {c : Cursor} {bs : Bytes}

theorem inside_of_intValue (h : (intValue mem c).2.Inside n) : c.Inside n := by
  rw [intValue_snd] at h
  exact Cursor.Inside.of_take 4 h

theorem inside_of_charValue (h : (charValue mem c).2.Inside n) : c.Inside n := by
  rw [charValue_snd] at h
  exact Cursor.Inside.of_take 1 h

theorem inside_intValue_of_stringValue (h : (stringValue mem c).2.Inside n) :
    (intValue mem c).2.Inside n := by
  rw [stringValue] at h
  dsimp only at h
  split_ifs at h with hpos
  · have hstart := Cursor.Inside.of_take _ h
    exact ⟨hstart.1, fun e he => hstart.2 e (List.mem_append_left _ he)⟩
  · exact h

theorem inside_of_stringValue (h : (stringValue mem c).2.Inside n) : c.Inside n :=
  inside_of_intValue (inside_intValue_of_stringValue h)

/-- The first byte of the length is read. -/
theorem pos_mem_stringValue (mem : Memory) (c : Cursor) :
    c.pos ∈ (stringValue mem c).2.reads := by
  have hword : c.pos ∈ (intValue mem c).2.reads := Cursor.pos_mem_take mem 3 c
  rw [stringValue]
  dsimp only
  split_ifs with hpos
  · exact Cursor.reads_subset_take _ _ _ hword
  · exact hword

/-- The bytes `bs` stand at the front of the memory and reach at most one byte past
index `n`; the position behind them is an `int` or the one after the last. -/
def Stands (mem : Memory) (n : ℕ) (bs : Bytes) : Prop :=
  mem.Holds 0 bs ∧ bs.length ≤ n + 1 ∧ bs.length ≤ 2 ^ 31

theorem Stands.append {cs : Bytes} (h : Stands mem n bs) (hc : mem.Holds bs.length cs)
    (h₁ : bs.length + cs.length ≤ n + 1) (h₂ : bs.length + cs.length ≤ 2 ^ 31) :
    Stands mem n (bs ++ cs) := by
  rw [← List.length_append] at h₁ h₂
  exact ⟨h.1.append_of (by rwa [zero_add]), h₁, h₂⟩

/-- A word read inside lies inside. -/
theorem word_of_inside (hbs : Stands mem n bs)
    (h : (intValue mem (Cursor.upTo bs.length ends)).2.Inside n) :
    ∃ i : Int32, Stands mem n (bs ++ BigEndian.bytes i.toUInt32) ∧
      (intValue mem (Cursor.upTo bs.length ends)).2
        = Cursor.upTo (bs ++ BigEndian.bytes i.toUInt32).length ends := by
  obtain ⟨i, hi⟩ := exists_holds_word mem bs.length
  rw [intValue_snd] at h
  have hlast := Cursor.inside_take (n := 3) hbs.2.2 h
  have hfour := BigEndian.length_bytes i.toUInt32
  refine ⟨i, hbs.append hi (by omega) (by omega), ?_⟩
  rw [intValue_upTo ends hi (by omega), List.length_append, hfour]

/-- A byte read inside lies inside. -/
theorem char_of_inside (hbs : Stands mem n bs)
    (h : (charValue mem (Cursor.upTo bs.length ends)).2.Inside n) :
    ∃ b : UInt8, Stands mem n (bs ++ [b]) ∧
      (charValue mem (Cursor.upTo bs.length ends)).2 = Cursor.upTo (bs ++ [b]).length ends := by
  have hb := mem.holds_singleton bs.length
  rw [charValue_snd] at h
  have hlast := Cursor.inside_take (n := 0) hbs.2.2 h
  refine ⟨_, hbs.append hb (by simp; omega) (by simp; omega), ?_⟩
  rw [charValue_upTo ends hb (by omega), List.length_append, List.length_singleton]

/-- **A segment read inside lies inside.**  Its length word is an `int` inside the
input, and so is the end it announces unless it announces nothing. -/
theorem segment_of_inside (hbs : Stands mem n bs)
    (h : (stringValue mem (Cursor.upTo bs.length ends)).2.Inside n) :
    ∃ f : Segment, Stands mem n (bs ++ f.bytes) ∧
      (f.chars ≠ [] → (bs ++ f.bytes).length < 2 ^ 31) ∧
      (stringValue mem (Cursor.upTo bs.length ends)).2
        = Cursor.upTo (bs ++ f.bytes).length (ends ++ segmentEnds bs.length f) := by
  obtain ⟨f, hf⟩ := exists_holds_segment mem bs.length
  have hlen := f.length_bytes
  obtain ⟨i, ⟨-, hword, hint⟩, -⟩ := word_of_inside hbs (inside_intValue_of_stringValue h)
  rw [List.length_append, BigEndian.length_bytes] at hword hint
  have hbound : bs.length + f.bytes.length ≤ n + 1 ∧ bs.length + f.bytes.length ≤ 2 ^ 31 ∧
      (f.chars ≠ [] → bs.length + f.bytes.length < 2 ^ 31) := by
    by_cases hchars : f.chars = []
    · have hfour : f.bytes.length = 4 := by rw [hlen, hchars]; rfl
      rw [hfour]
      exact ⟨hword, hint, fun hne => absurd hchars hne⟩
    · have hpos : 0 < f.len.toInt := by
        by_contra hneg
        exact hchars (f.len_nonpos_iff.1 hneg)
      have hsize : (f.chars.length : ℤ) = f.len.toInt := by rw [f.length_chars]; omega
      obtain ⟨k, hk⟩ : ∃ k, f.chars.length = k + 1 := ⟨f.chars.length - 1, by omega⟩
      rw [stringValue, intValue_upTo ends hf.append.1 hint] at h
      simp only [hpos, if_true] at h
      -- the end position is in the log, so it is an `int` and the sum did not wrap
      have hstart := Cursor.Inside.of_take _ h
      have hstop := hstart.2 _ (List.mem_append_right _ (List.mem_singleton_self _))
      rw [wrap_of_mem hstop.1 hstop.2, show ((Cursor.upTo (bs.length + 4) ends).pos + f.len.toInt
        - (Cursor.upTo (bs.length + 4) ends).pos).toNat = k + 1 by omega] at h
      have hlast := Cursor.inside_take (p := bs.length + 4) (n := k) hint h
      rw [Cursor.upTo_pos ends (by omega)] at hstop
      rw [hlen]
      omega
  obtain ⟨h₁, h₂, h₃⟩ := hbound
  refine ⟨f, hbs.append hf h₁ h₂, fun hne => ?_, ?_⟩
  · rw [List.length_append]
    exact h₃ hne
  · rw [stringValue_upTo ends hf h₂ h₃, List.length_append]

end Inside

/-- The steps of the decoder, one inside the other. -/
theorem toMessage_snd (mem : Memory) (request : Bool) :
    (toMessage mem request).2
      = (stringValue mem (intValue mem (stringValue mem (intValue mem (stringValue mem
          (stringValue mem (charValue mem (charValue mem (charValue mem (intValue mem
            Cursor.start).2).2).2).2).2).2).2).2).2).2 := by
  unfold toMessage
  rfl

/-- **A run that stays inside read a frame.**  If the decoder ends with every read
in `0 … n` and every end an `int`, the memory holds a complete frame that reaches
at most one byte past index `n`. -/
theorem layout_of_inside {mem : Memory} {n : ℕ} {request : Bool}
    (h : (toMessage mem request).2.Inside n) :
    ∃ l : Layout, mem.Holds 0 l.bytes ∧ l.bytes.length ≤ n + 1 ∧ l.Fits := by
  rw [toMessage_snd, Cursor.start_eq_upTo] at h
  -- backwards: the run was inside after each of its steps
  have h₉ := inside_of_stringValue h
  have h₈ := inside_of_intValue h₉
  have h₇ := inside_of_stringValue h₈
  have h₆ := inside_of_intValue h₇
  have h₅ := inside_of_stringValue h₆
  have h₄ := inside_of_stringValue h₅
  have h₃ := inside_of_charValue h₄
  have h₂ := inside_of_charValue h₃
  have h₁ := inside_of_charValue h₂
  have s₀ : Stands mem n [] := ⟨fun k hk => absurd hk (by simp), by simp, by simp⟩
  -- forwards: so each step says what stands there and where the next one begins
  obtain ⟨messageSize, s₁, e₁⟩ := word_of_inside s₀ h₁
  simp only [List.length_nil] at e₁
  simp only [e₁] at h₂ h₃ h₄ h₅ h₆ h₇ h₈ h₉ h
  obtain ⟨protocolVersion, s₂, e₂⟩ := char_of_inside s₁ h₂
  simp only [e₂] at h₃ h₄ h₅ h₆ h₇ h₈ h₉ h
  obtain ⟨systemCodecId, s₃, e₃⟩ := char_of_inside s₂ h₃
  simp only [e₃] at h₄ h₅ h₆ h₇ h₈ h₉ h
  obtain ⟨send, s₄, e₄⟩ := char_of_inside s₃ h₄
  simp only [e₄] at h₅ h₆ h₇ h₈ h₉ h
  obtain ⟨address, s₅, -, e₅⟩ := segment_of_inside s₄ h₅
  simp only [e₅] at h₆ h₇ h₈ h₉ h
  obtain ⟨replay, s₆, -, e₆⟩ := segment_of_inside s₅ h₆
  simp only [e₆] at h₇ h₈ h₉ h
  obtain ⟨port, s₇, e₇⟩ := word_of_inside s₆ h₇
  simp only [e₇] at h₈ h₉ h
  obtain ⟨host, s₈, -, e₈⟩ := segment_of_inside s₇ h₈
  simp only [e₈] at h₉ h
  obtain ⟨headers, s₉, e₉⟩ := word_of_inside s₈ h₉
  simp only [e₉] at h
  obtain ⟨body, ⟨hholds, hlen, hint⟩, hbody, -⟩ := segment_of_inside s₉ h
  exact ⟨⟨messageSize, protocolVersion, systemCodecId, send, address, replay, port, host, headers,
    body⟩, hholds, hlen, hint, hbody⟩

theorem mem_segmentEnds {p : ℕ} {f : Segment} {e : ℤ} (h : e ∈ segmentEnds p f) :
    f.chars ≠ [] ∧ e = (p + f.bytes.length : ℕ) := by
  rw [segmentEnds] at h
  split_ifs at h with hchars
  · exact absurd h List.not_mem_nil
  · exact ⟨hchars, List.mem_singleton.1 h⟩

/-- The ends computed over a frame that fits are `int`s. -/
theorem Layout.ends_mem {l : Layout} (hl : l.Fits) {e : ℤ} (he : e ∈ l.ends) :
    -2 ^ 31 ≤ e ∧ e < 2 ^ 31 := by
  obtain ⟨hlen, hbody⟩ := hl
  have hf (f : Segment) : f.bytes.length = 4 + f.chars.length := f.length_bytes
  have hsplit : l.bytes.length = l.header.length + l.body.bytes.length := List.length_append
  have hheader := l.length_header
  rw [Layout.ends, Layout.headerEnds, List.mem_append, List.mem_append, List.mem_append] at he
  rcases he with ((he | he) | he) | he
  · obtain ⟨-, rfl⟩ := mem_segmentEnds he
    have := hf l.address
    omega
  · obtain ⟨-, rfl⟩ := mem_segmentEnds he
    have := hf l.address
    have := hf l.replay
    omega
  · obtain ⟨-, rfl⟩ := mem_segmentEnds he
    have := hf l.address
    have := hf l.replay
    have := hf l.host
    omega
  · obtain ⟨hne, rfl⟩ := mem_segmentEnds he
    have := hbody hne
    omega

/-- **The decoder stays inside its input exactly on complete frames.**  For a
string `s` and whatever stands behind it, every index read lies in `0 … |s|` and
every end position is an `int` if and only if `s` with its terminating NUL begins
with a complete frame that fits the positions of an `int`. -/
theorem inside_toMessage_iff {s : Bytes} {mem : Memory} (hs : CStr s mem) (request : Bool) :
    (toMessage mem request).2.Inside s.length ↔ ∃ l : Layout, l.bytes <+: s ++ [0] ∧ l.Fits := by
  constructor
  · intro h
    obtain ⟨l, hl, hlen, hfits⟩ := layout_of_inside h
    exact ⟨l, hl.initial hs (by simpa using hlen), hfits⟩
  · rintro ⟨l, hpre, hfits⟩
    have hlen : l.bytes.length ≤ s.length + 1 := by simpa using hpre.length_le
    rw [toMessage_of_holds (hs.mono hpre) hfits]
    refine ⟨fun i hi => ?_, fun e he => Layout.ends_mem hfits he⟩
    have := mem_span.1 hi
    omega

/-- A frame with all its fields. -/
def ordersLayout : Layout where
  messageSize := 60
  protocolVersion := 1
  systemCodecId := 9
  send := 0
  address := ⟨6, bytes "orders", rfl⟩
  replay := ⟨15, bytes "__vertx.reply.7", rfl⟩
  port := 15701
  host := ⟨8, bytes "10.0.0.1", rfl⟩
  headers := 4
  body := ⟨4, bytes "book", rfl⟩

theorem inside_toMessage_orders :
    (toMessage (overlay (ordersLayout.bytes ++ [0]) fun _ => 0) true).2.Inside
      ordersLayout.bytes.length :=
  (inside_toMessage_iff (holds_overlay _ _) true).2
    ⟨ordersLayout, List.prefix_append _ _, by decide, fun _ => by decide⟩

/-- A read of one byte from the network is decoded from what stands behind it. -/
theorem not_inside_toMessage_byte :
    ¬ ∀ mem, CStr (bytes "x") mem → (toMessage mem false).2.Inside (bytes "x").length := by
  intro h
  have hstr : CStr (bytes "x") (fun i => if i = 0 then 120 else 0) := by
    unfold CStr Memory.Holds
    decide
  obtain ⟨l, -, hlen, -⟩ := layout_of_inside (h _ hstr)
  rw [l.length_bytes] at hlen
  have : (bytes "x").length = 1 := rfl
  omega

end VertxCpp
