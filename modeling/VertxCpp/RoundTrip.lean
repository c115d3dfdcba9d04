/-
# What the decoder makes of an encoded frame

The two functions disagree on names only: `to_cstring` writes `replay` first and
`to_message` reads `address` first, so one pass through the wire exchanges the
two fields, and a reply is sent to the address its request came with.

The frame of a message whose `_reply` is a string is a `Layout` in that exchanged
order (`ClusteredMessage.layout`), and the round trip is the decoder's reading of
a layout (`toMessage_of_holds`).  The frame of any other message stops where the
last segment should begin (`header`): what is decoded before that point is right
all the same (`toMessage_header`), and the body is read from behind the frame.
-/
import VertxCpp.Decode
import VertxCpp.Encode

namespace VertxCpp

open Memory

namespace ClusteredMessage

/-- The frame of a message up to its last segment. -/
def header (m : ClusteredMessage) : Bytes :=
  BigEndian.bytes (Int32.ofNat m.payload.length).toUInt32 ++ [1, 9, 0] ++ lengthPrefixed m.replay
    ++ lengthPrefixed m.address ++ BigEndian.bytes m.port.toUInt32 ++ lengthPrefixed m.host
    ++ BigEndian.bytes (4 : Int32).toUInt32

theorem frame_eq (m : ClusteredMessage) : m.frame = m.header ++ replyField m.reply := by
  simp [frame, payload, header]

/-- The frame of a message whose reply is the string `s`, as the decoder sees it:
`replay` stands where an address is read. -/
def layout (m : ClusteredMessage) (s : Bytes)
    (h : m.replay.length + m.address.length + m.host.length + s.length < 2 ^ 31) : Layout where
  messageSize := Int32.ofNat m.payload.length
  protocolVersion := 1
  systemCodecId := 9
  send := 0
  address := .ofChars m.replay (by omega)
  replay := .ofChars m.address (by omega)
  port := m.port
  host := .ofChars m.host (by omega)
  headers := 4
  body := .ofChars s (by omega)

theorem layout_header (m : ClusteredMessage) (s : Bytes)
    (h : m.replay.length + m.address.length + m.host.length + s.length < 2 ^ 31) :
    (m.layout s h).header = m.header := by
  have hofChars (t : Bytes) (ht : t.length < 2 ^ 31) :
      (Segment.ofChars t ht).bytes = lengthPrefixed t := rfl
  simp [Layout.header, layout, header, hofChars]

theorem layout_bytes {m : ClusteredMessage} {s : Bytes} (hreply : m.reply = .string s)
    (h : m.replay.length + m.address.length + m.host.length + s.length < 2 ^ 31) :
    (m.layout s h).bytes = m.frame := by
  rw [Layout.bytes, layout_header, frame_eq, hreply]
  rfl

end ClusteredMessage

theorem ClusteredMessage.length_header (m : ClusteredMessage) :
    m.header.length = 27 + m.replay.length + m.address.length + m.host.length := by
  simp [header]
  omega

/-- Where the reply is not a string, the frame is its header. -/
theorem toString_of_no_reply {m : ClusteredMessage} (hreply : replyField m.reply = [])
    (hfit : 27 + m.replay.length + m.address.length + m.host.length ≤ 2048) :
    m.toString = .ok m.header := by
  have hframe : m.frame = m.header := by rw [m.frame_eq, hreply, List.append_nil]
  rw [m.toString_eq, hframe, m.length_header, if_pos hfit]

/-- **The fields before the body arrive** in every frame, `address` and `replay`
exchanged. -/
theorem toMessage_header {m : ClusteredMessage} {mem : Memory}
    (hfit : 27 + m.replay.length + m.address.length + m.host.length ≤ 2048)
    (hmem : mem.Holds 0 m.header) (request : Bool) :
    (toMessage mem request).1.address = m.replay ∧ (toMessage mem request).1.replay = m.address ∧
      (toMessage mem request).1.port = m.port ∧ (toMessage mem request).1.host = m.host ∧
      (toMessage mem request).1.request = request := by
  have hshort :
      m.replay.length + m.address.length + m.host.length + ([] : Bytes).length < 2 ^ 31 := by
    rw [List.length_nil]
    omega
  have hheader := m.layout_header [] hshort
  rw [toMessage_of_header (l := m.layout [] hshort) (by rwa [hheader])
    (by rw [hheader, m.length_header]; omega)]
  exact ⟨rfl, rfl, rfl, rfl, rfl⟩

/-- The same of any frame that `to_string` returns. -/
theorem fields_arrive {m : ClusteredMessage} {frame : Bytes} {mem : Memory}
    (hstring : m.toString = .ok frame) (hmem : CStr frame mem) (request : Bool) :
    (toMessage mem request).1.address = m.replay ∧ (toMessage mem request).1.replay = m.address ∧
      (toMessage mem request).1.port = m.port ∧ (toMessage mem request).1.host = m.host ∧
      (toMessage mem request).1.request = request := by
  rw [m.toString_eq] at hstring
  split_ifs at hstring with hfit
  obtain rfl := Except.ok.inj hstring
  have hheader : mem.Holds 0 m.header := hmem.append.1.mono (by
    rw [m.frame_eq]
    exact List.prefix_append _ _)
  rw [m.length_frame] at hfit
  exact toMessage_header (by omega) hheader request

/-- **Codec round trip.**  Where the frame of a message with a string reply fits
the buffer of `to_string`, the decoder reads each of its bytes exactly once, in
order, and no other byte; it returns the fields the message had, `address` and
`replay` exchanged, the reply as the body, and the length of what follows the
first word as the message size. -/
theorem toMessage_toString {m : ClusteredMessage} {s : Bytes} (hreply : m.reply = .string s)
    (hfit : 31 + m.replay.length + m.address.length + m.host.length + s.length ≤ 2048)
    (request : Bool) :
    ∃ frame, m.toString = .ok frame ∧
      frame.length = 31 + m.replay.length + m.address.length + m.host.length + s.length ∧
      ∀ mem, CStr frame mem →
        (toMessage mem request).2.reads = span 0 frame.length ∧
        (toMessage mem request).2.pos = frame.length ∧
        (toMessage mem request).1.messageSize.toInt = frame.length - 4 ∧
        (toMessage mem request).1.protocolVersion = 1 ∧
        (toMessage mem request).1.systemCodecId = 9 ∧
        (toMessage mem request).1.send = true ∧
        (toMessage mem request).1.address = m.replay ∧
        (toMessage mem request).1.replay = m.address ∧
        (toMessage mem request).1.port = m.port ∧
        (toMessage mem request).1.host = m.host ∧
        (toMessage mem request).1.headers = 4 ∧
        (toMessage mem request).1.bodyAsString = m.replyAsString ∧
        (toMessage mem request).1.request = request := by
  have hlen : m.frame.length
      = 31 + m.replay.length + m.address.length + m.host.length + s.length := by
    rw [m.length_frame, hreply, replyField, length_lengthPrefixed]
    omega
  have hsize : m.payload.length + 4 = m.frame.length := by
    simp [ClusteredMessage.frame, add_comm]
  refine ⟨m.frame, by rw [m.toString_eq, if_pos (by omega)], hlen, fun mem hmem => ?_⟩
  have hshort : m.replay.length + m.address.length + m.host.length + s.length < 2 ^ 31 := by omega
  have hbytes := ClusteredMessage.layout_bytes hreply hshort
  have hholds : mem.Holds 0 (m.layout s hshort).bytes := by
    rw [hbytes]
    exact hmem.append.1
  have hread := toMessage_of_holds hholds
    ⟨by rw [hbytes]; omega, fun _ => by rw [hbytes]; omega⟩ request
  rw [hread, hbytes]
  refine ⟨rfl, Cursor.upTo_pos _ (by omega), ?_, rfl, rfl, rfl, rfl, rfl, rfl, rfl, rfl, ?_, rfl⟩
  · rw [show ((m.layout s hshort).message request).messageSize
        = Int32.ofNat m.payload.length from rfl,
      Int32.toInt_ofNat_of_lt (by omega)]
    omega
  · rw [ClusteredMessage.replyAsString, hreply]
    rfl

/-- A reply on its way, with a NUL and a byte above `0x7f` in its strings. -/
theorem toMessage_toString_reply :
    ∃ frame : Bytes, frame.length = 46 ∧
      ∀ mem, CStr frame mem →
        (toMessage mem false).1.address = [0, 200] ∧
          (toMessage mem false).1.bodyAsString = bytes "done" := by
  obtain ⟨frame, -, hlen, hread⟩ := toMessage_toString
    (m := ⟨0, 1, 9, true, bytes "orders", [0, 200], -1, bytes "abc", 4, .empty,
      .string (bytes "done"), false, .empty, .empty, false⟩) rfl (by decide) false
  refine ⟨frame, hlen, fun mem hmem => ?_⟩
  obtain ⟨-, -, -, -, -, -, haddress, -, -, -, -, hbody, -⟩ := hread mem hmem
  exact ⟨haddress, hbody⟩

end VertxCpp
