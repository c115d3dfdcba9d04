/-
# The decoder: `int_value`, `string_value`, `to_message`

`src/vertx/ClusteredMessage.h`.  `to_message` takes the bare pointer of
`msg.c_str()` and an index, and every function below it moves the index on;
nothing tells them how long the string is.  So the decoder is modelled on a
memory (`Memory`), what stands behind the string included, with a cursor that
remembers every index read and every end position computed.  Reading behind the
string is undefined in C++; here it is a read that `Cursor.Inside` excludes, of a
byte that no theorem knows.

`Layout` is a complete frame: the fields in the order of the wire, each string
with a length that fits it.  Where a memory holds a layout, `to_message` returns
its fields and has read each of its bytes once, in order (`toMessage_of_holds`).
A `Layout` is not tied to this repository's encoder: any header word and any
bytes in the three one-byte fields are one.
-/
import VertxCpp.Library.LengthPrefixed
import VertxCpp.Message

namespace VertxCpp

open Memory BigEndian

/-- The memory at `s.c_str()`: the bytes of `s`, its terminating NUL, and then
whatever is there. -/
def CStr (s : Bytes) (mem : Memory) : Prop := mem.Holds 0 (s ++ [0])

/-- `int_value(value, startIdx)`, the increments taken from left to right. -/
def intValue (value : Memory) (c : Cursor) : Int32 × Cursor :=
  let (b₀, c) := c.next value
  let (b₁, c) := c.next value
  let (b₂, c) := c.next value
  let (b₃, c) := c.next value
  ((join b₀ b₁ b₂ b₃).toInt32, c)

/-- `string_value(value, startIdx)`.  The loop `while (startIdx < size)` moves
`startIdx` by one each time, so it runs `size - startIdx` times; the sum in front
of it is an `int`. -/
def stringValue (value : Memory) (c : Cursor) : Bytes × Cursor :=
  let (size, c) := intValue value c
  if 0 < size.toInt then
    let stop := c.pos + size.toInt
    Cursor.take value (wrap stop - c.pos).toNat { c with ends := c.ends ++ [stop] }
  else ([], c)

/-- `(int) b_data[index++]`, a `char` being signed. -/
def charValue (value : Memory) (c : Cursor) : Int32 × Cursor :=
  let (b, c) := c.next value
  (b.toInt8.toInt32, c)

/-- `to_message(msg, request)` at the pointer `b_data`, with the cursor it ends
with. -/
def toMessage (bData : Memory) (request : Bool) : ClusteredMessage × Cursor :=
  let (messageSize, c) := intValue bData Cursor.start
  let (protocolVersion, c) := charValue bData c
  let (systemCodecId, c) := charValue bData c
  let (send, c) := charValue bData c
  let (address, c) := stringValue bData c
  let (replay, c) := stringValue bData c
  let (port, c) := intValue bData c
  let (host, c) := stringValue bData c
  let (headers, c) := intValue bData c
  let (body, c) := stringValue bData c
  let message : ClusteredMessage :=
    { messageSize, protocolVersion, systemCodecId, send := send == 0, address, replay, port, host,
      headers, body := .string body }
  (message.setRequest request, c)

/-! ### One value at a time -/

section Values

variable {mem : Memory} {p : ℕ} {ends : List ℤ}

theorem intValue_snd (mem : Memory) (c : Cursor) : (intValue mem c).2 = (c.take mem 4).2 := rfl

theorem charValue_snd (mem : Memory) (c : Cursor) : (charValue mem c).2 = (c.take mem 1).2 := rfl

theorem charValue_eq (mem : Memory) (c : Cursor) :
    charValue mem c = ((c.next mem).1.toInt8.toInt32, (c.next mem).2) := rfl

theorem intValue_upTo {i : Int32} (ends : List ℤ) (h : mem.Holds p (BigEndian.bytes i.toUInt32))
    (hp : p + 4 ≤ 2 ^ 31) :
    intValue mem (Cursor.upTo p ends) = (i, Cursor.upTo (p + 4) ends) := by
  have hfst (c : Cursor) (b₀ b₁ b₂ b₃ : UInt8) (h : (c.take mem 4).1 = [b₀, b₁, b₂, b₃]) :
      (intValue mem c).1 = (join b₀ b₁ b₂ b₃).toInt32 := by
    simp only [Cursor.take, List.cons.injEq, and_true] at h
    obtain ⟨rfl, rfl, rfl, rfl⟩ := h
    rfl
  have htake := Cursor.take_upTo ends h hp
  rw [length_bytes] at htake
  refine Prod.ext ?_ ?_
  · rw [hfst _ _ _ _ _ (by rw [htake]; rfl), join_bytes]
    rfl
  · rw [intValue_snd, htake]

theorem charValue_upTo {b : UInt8} (ends : List ℤ) (h : mem.Holds p [b]) (hp : p + 1 ≤ 2 ^ 31) :
    charValue mem (Cursor.upTo p ends) = (b.toInt8.toInt32, Cursor.upTo (p + 1) ends) := by
  have htake := Cursor.take_upTo ends h hp
  rw [List.length_singleton, Cursor.take_succ] at htake
  simp only [Cursor.take, Prod.mk.injEq, List.cons.injEq, and_true] at htake
  rw [charValue_eq, htake.1, htake.2]

/-- The end positions that reading the segment `f` at `p` computes. -/
def segmentEnds (p : ℕ) (f : Segment) : List ℤ :=
  if f.chars = [] then [] else [((p + f.bytes.length : ℕ) : ℤ)]

/-- **A segment is read whole.**  Where its bytes stand at `p` and its end is an
`int`, `string_value` returns its content and stops behind it.  An empty one has
no end to compute, so it may lie right below `2^31`. -/
theorem stringValue_upTo {f : Segment} (ends : List ℤ) (h : mem.Holds p f.bytes)
    (hp : p + f.bytes.length ≤ 2 ^ 31) (hlt : f.chars ≠ [] → p + f.bytes.length < 2 ^ 31) :
    stringValue mem (Cursor.upTo p ends)
      = (f.chars, Cursor.upTo (p + f.bytes.length) (ends ++ segmentEnds p f)) := by
  rw [Segment.length_bytes] at hp hlt
  obtain ⟨hlen, hchars⟩ := h.append
  rw [length_bytes] at hchars
  rw [stringValue, intValue_upTo ends hlen (by omega)]
  by_cases hf : f.chars = []
  · have hneg := f.len_nonpos_iff.2 hf
    simp [hneg, hf, segmentEnds]
  · have hpos : 0 < f.len.toInt := by
      by_contra hneg
      exact hf (f.len_nonpos_iff.1 hneg)
    have hsize : f.len.toInt = f.chars.length := by rw [f.length_chars]; omega
    have hp4 : p + 4 < 2 ^ 31 := by have := hlt hf; omega
    have hstop : ((p + 4 : ℕ) : ℤ) + f.len.toInt = (p + f.bytes.length : ℕ) := by
      rw [hsize, Segment.length_bytes]; push_cast; ring
    have hcount : (wrap (p + f.bytes.length : ℕ) - (p + 4 : ℕ)).toNat = f.chars.length := by
      rw [Segment.length_bytes, wrap_of_lt (hlt hf)]; omega
    have htake := Cursor.take_upTo (ends ++ [((p + f.bytes.length : ℕ) : ℤ)]) (p := p + 4)
      (by exact_mod_cast hchars) (by have := hlt hf; omega)
    simp only [hpos, if_true, Cursor.upTo_pos _ hp4, hstop, hcount]
    rw [segmentEnds, if_neg hf]
    simpa only [Cursor.upTo, Segment.length_bytes, add_assoc, wrap_of_lt hp4] using htake

/-- Whatever stands there, `string_value` moves on by the length and the bytes it returns. -/
theorem pos_stringValue (mem : Memory) {c : Cursor} {i : ℤ} (h : c.pos = wrap i) :
    (stringValue mem c).2.pos = wrap (i + 4 + (stringValue mem c).1.length) := by
  have hint : (intValue mem c).2.pos = wrap (i + 4) := by
    rw [intValue_snd, Cursor.pos_take mem 4 h]
    rfl
  rw [stringValue]
  dsimp only
  split_ifs
  · rw [Cursor.length_take]
    exact Cursor.pos_take _ _ hint
  · simpa using hint

end Values

/-! ### A whole frame -/

/-- A complete frame, field by field in the order of the wire. -/
structure Layout where
  messageSize : Int32
  protocolVersion : UInt8
  systemCodecId : UInt8
  send : UInt8
  address : Segment
  replay : Segment
  port : Int32
  host : Segment
  headers : Int32
  body : Segment

namespace Layout

/-- Everything up to the body. -/
def header (l : Layout) : Bytes :=
  BigEndian.bytes l.messageSize.toUInt32 ++ [l.protocolVersion] ++ [l.systemCodecId] ++ [l.send]
    ++ l.address.bytes ++ l.replay.bytes ++ BigEndian.bytes l.port.toUInt32 ++ l.host.bytes
    ++ BigEndian.bytes l.headers.toUInt32

def bytes (l : Layout) : Bytes := l.header ++ l.body.bytes

theorem length_header (l : Layout) :
    l.header.length
      = 27 + l.address.chars.length + l.replay.chars.length + l.host.chars.length := by
  simp [header]
  omega

theorem length_bytes (l : Layout) :
    l.bytes.length
      = 31 + l.address.chars.length + l.replay.chars.length + l.host.chars.length
        + l.body.chars.length := by
  rw [bytes, List.length_append, length_header, Segment.length_bytes]
  omega

/-- The message a frame stands for. -/
def message (l : Layout) (request : Bool) : ClusteredMessage where
  messageSize := l.messageSize
  protocolVersion := l.protocolVersion.toInt8.toInt32
  systemCodecId := l.systemCodecId.toInt8.toInt32
  send := l.send == 0
  address := l.address.chars
  replay := l.replay.chars
  port := l.port
  host := l.host.chars
  headers := l.headers
  body := .string l.body.chars
  request := request

/-- The end positions computed before the body is read. -/
def headerEnds (l : Layout) : List ℤ :=
  segmentEnds 7 l.address ++ segmentEnds (7 + l.address.bytes.length) l.replay
    ++ segmentEnds (11 + l.address.bytes.length + l.replay.bytes.length) l.host

/-- The end positions computed while the frame is read. -/
def ends (l : Layout) : List ℤ := l.headerEnds ++ segmentEnds l.header.length l.body

/-- A frame whose positions are all `int`s: the index behind the last byte may be
`2^31` only where no string ends there. -/
def Fits (l : Layout) : Prop :=
  l.bytes.length ≤ 2 ^ 31 ∧ (l.body.chars ≠ [] → l.bytes.length < 2 ^ 31)

end Layout

theorem toInt8_toInt32_beq_zero (b : UInt8) : (b.toInt8.toInt32 == 0) = (b == 0) := by
  have hzero : b.toInt8.toInt32 = 0 ↔ b = 0 := by
    constructor
    · intro h
      have hcast : b.toInt8.toInt32.toInt8.toUInt8 = (0 : Int32).toInt8.toUInt8 := by rw [h]
      simp only [Int8.toInt8_toInt32, UInt8.toUInt8_toInt8] at hcast
      exact hcast
    · rintro rfl
      rfl
  rw [Bool.eq_iff_iff, beq_iff_eq, beq_iff_eq, hzero]

/-- **The decoder reads a header.**  Where a memory holds a frame up to its body,
`to_message` returns the fields of the frame, has read each byte of it once and in
order, and takes for the body whatever stands behind. -/
theorem toMessage_of_header {mem : Memory} {l : Layout} (h : mem.Holds 0 l.header)
    (hlen : l.header.length ≤ 2 ^ 31) (request : Bool) :
    toMessage mem request
      = ((l.message request).setBody
            (.string (stringValue mem (Cursor.upTo l.header.length l.headerEnds)).1),
          (stringValue mem (Cursor.upTo l.header.length l.headerEnds)).2) := by
  have hlen' := l.length_header
  rw [hlen'] at hlen
  obtain ⟨h, h₉⟩ := h.append
  obtain ⟨h, h₈⟩ := h.append
  obtain ⟨h, h₇⟩ := h.append
  obtain ⟨h, h₆⟩ := h.append
  obtain ⟨h, h₅⟩ := h.append
  obtain ⟨h, h₄⟩ := h.append
  obtain ⟨h, h₃⟩ := h.append
  obtain ⟨h₁, h₂⟩ := h.append
  simp only [List.length_append, BigEndian.length_bytes, List.length_singleton,
    zero_add] at h₂ h₃ h₄ h₅ h₆ h₇ h₈ h₉
  have hf (f : Segment) : f.bytes.length = 4 + f.chars.length := f.length_bytes
  have hends : ([] ++ segmentEnds (0 + 4 + 1 + 1 + 1) l.address
      ++ segmentEnds (0 + 4 + 1 + 1 + 1 + l.address.bytes.length) l.replay
      ++ segmentEnds (0 + 4 + 1 + 1 + 1 + l.address.bytes.length + l.replay.bytes.length + 4)
        l.host)
        = l.headerEnds := by
    rw [Layout.headerEnds, List.nil_append,
      show 0 + 4 + 1 + 1 + 1 + l.address.bytes.length + l.replay.bytes.length + 4
        = 11 + l.address.bytes.length + l.replay.bytes.length by omega]
  have hpos : 0 + 4 + 1 + 1 + 1 + l.address.bytes.length + l.replay.bytes.length + 4
      + l.host.bytes.length + 4 = l.header.length := by
    rw [hf, hf, hf]
    omega
  rw [toMessage, Cursor.start_eq_upTo, intValue_upTo (p := 0) [] h₁ (by omega)]
  dsimp only
  rw [charValue_upTo _ h₂ (by omega)]
  dsimp only
  rw [charValue_upTo _ h₃ (by omega)]
  dsimp only
  rw [charValue_upTo _ h₄ (by omega)]
  dsimp only
  rw [stringValue_upTo _ h₅ (by rw [hf]; omega) (fun _ => by rw [hf]; omega)]
  dsimp only
  rw [stringValue_upTo _ h₆ (by rw [hf, hf]; omega) (fun _ => by rw [hf, hf]; omega)]
  dsimp only
  rw [intValue_upTo _ h₇ (by rw [hf, hf]; omega)]
  dsimp only
  rw [stringValue_upTo _ h₈ (by rw [hf, hf, hf]; omega) (fun _ => by rw [hf, hf, hf]; omega)]
  dsimp only
  rw [intValue_upTo _ h₉ (by rw [hf, hf, hf]; omega)]
  dsimp only
  rw [hends, hpos, toInt8_toInt32_beq_zero]
  rfl

/-- **The decoder reads a frame.**  Where a memory holds a complete frame,
`to_message` returns its fields, has read each of its bytes once and in order and
nothing else, and stops behind it. -/
theorem toMessage_of_holds {mem : Memory} {l : Layout} (h : mem.Holds 0 l.bytes) (hl : l.Fits)
    (request : Bool) :
    toMessage mem request = (l.message request, Cursor.upTo l.bytes.length l.ends) := by
  obtain ⟨hlen, hbody⟩ := hl
  obtain ⟨hheader, htail⟩ := h.append
  rw [zero_add] at htail
  rw [Layout.bytes, List.length_append] at hlen hbody
  rw [toMessage_of_header hheader (by omega), stringValue_upTo _ htail hlen hbody, Layout.bytes,
    List.length_append]
  rfl

end VertxCpp
