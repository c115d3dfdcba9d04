/-
# Frames of other implementations

The cluster holds nodes of Vert.x itself besides nodes of this program (`README.md`), and
their frames may carry headers: the headers field, which counts its own four bytes, is
followed by as many bytes of header data as it says, and the body comes behind them.

`to_message` of `src/vertx/ClusteredMessage.h` reads the headers field and then takes the
bytes behind it for the length of the body.  It finds all fields but the body, and the body
where there is no header data, which is what `to_cstring` writes; behind header data it
never finds it and ends where the frame ends (`found_iff`).
-/
import VertxCpp.Decode

namespace VertxCpp

open Memory

/-- A frame with header data.  Its `headers` field counts its own four bytes. -/
structure PeerFrame where
  messageSize : Int32
  send : UInt8
  address : Segment
  replay : Segment
  port : Int32
  host : Segment
  headers : Int32
  headerData : Bytes
  body : Segment
  length_headerData : headers.toInt = 4 + headerData.length

namespace PeerFrame

/-- The frame without its header data. -/
def layout (p : PeerFrame) : Layout where
  messageSize := p.messageSize
  protocolVersion := 1
  systemCodecId := 9
  send := p.send
  address := p.address
  replay := p.replay
  port := p.port
  host := p.host
  headers := p.headers
  body := p.body

/-- The frame on the wire. -/
def bytes (p : PeerFrame) : Bytes := p.layout.header ++ p.headerData ++ p.body.bytes

theorem length_bytes (p : PeerFrame) :
    p.bytes.length = p.layout.header.length + p.headerData.length + (4 + p.body.chars.length) := by
  rw [bytes, List.length_append, List.length_append, Segment.length_bytes]

theorem headerData_eq_nil_iff (p : PeerFrame) : p.headerData = [] ↔ p.headers = 4 := by
  rw [← List.length_eq_zero_iff, ← Int32.toInt_inj]
  have h := p.length_headerData
  have hfour : (4 : Int32).toInt = 4 := rfl
  omega

end PeerFrame

/-- The fields of the frame are found, and its end. -/
structure Found (p : PeerFrame) (mem : Memory) (request : Bool) : Prop where
  address : (toMessage mem request).1.address = p.address.chars
  replay : (toMessage mem request).1.replay = p.replay.chars
  port : (toMessage mem request).1.port = p.port
  host : (toMessage mem request).1.host = p.host.chars
  headers : (toMessage mem request).1.headers = p.headers
  body : (toMessage mem request).1.bodyAsString = p.body.chars
  pos : (toMessage mem request).2.pos = p.bytes.length

/-- The decoder ends where a 32-bit index can stand. -/
theorem exists_pos_toMessage (mem : Memory) (request : Bool) :
    ∃ i : ℤ, (toMessage mem request).2.pos = wrap i := by
  obtain ⟨c, i, hlast, hpos⟩ : ∃ c i, (toMessage mem request).2 = (stringValue mem c).2 ∧
      c.pos = wrap i := ⟨_, _, rfl, rfl⟩
  rw [hlast]
  exact ⟨_, pos_stringValue mem hpos⟩

/-- A frame of which everything is found has no header data: the decoder moves on behind the
headers field by a length and by the bytes of a body, and by nothing else. -/
theorem Found.headers_eq {p : PeerFrame} {mem : Memory} {request : Bool}
    (h : Found p mem request) (hmem : CStr p.bytes mem) :
    p.headers = 4 ∧ p.bytes.length < 2 ^ 31 := by
  have hlen := p.length_bytes
  have hholds : mem.Holds 0 p.bytes := hmem.append.1
  have hpos := h.pos
  have hlt : p.bytes.length < 2 ^ 31 := by
    obtain ⟨i, hi⟩ := exists_pos_toMessage mem request
    have hwrap := wrap_lt i
    omega
  have hread := @toMessage_of_header mem p.layout hholds.append.1.append.1
    (by omega) request
  have hbody := h.body
  rw [hread] at hbody hpos
  replace hbody : (stringValue mem (Cursor.upTo p.layout.header.length p.layout.headerEnds)).1
    = p.body.chars := hbody
  have hend := pos_stringValue mem (c := Cursor.upTo p.layout.header.length p.layout.headerEnds)
    (i := p.layout.header.length) rfl
  rw [hbody] at hend
  dsimp only at hpos
  rw [hpos, wrap_of_mem (by omega) (by omega)] at hend
  refine ⟨p.headerData_eq_nil_iff.1 (List.length_eq_zero_iff.1 ?_), hlt⟩
  omega

/-- **Where the body is found.**  On a frame of another implementation `to_message` finds
every field and the end of the frame exactly where there is no header data and the end is
an `int`. -/
theorem found_iff (p : PeerFrame) {mem : Memory} (hmem : CStr p.bytes mem) (request : Bool) :
    Found p mem request ↔ p.headers = 4 ∧ p.bytes.length < 2 ^ 31 := by
  constructor
  · intro h
    exact h.headers_eq hmem
  · rintro ⟨hheaders, hlt⟩
    have hholds : mem.Holds 0 p.bytes := hmem.append.1
    have hbytes : p.layout.bytes = p.bytes := by
      rw [PeerFrame.bytes, p.headerData_eq_nil_iff.2 hheaders, List.append_nil]
      rfl
    have hread := @toMessage_of_holds mem p.layout (by rwa [hbytes])
      ⟨by rw [hbytes]; omega, fun _ => by rw [hbytes]; exact hlt⟩ request
    have hend : (toMessage mem request).2.pos = p.bytes.length := by
      rw [hread, hbytes]
      exact Cursor.upTo_pos _ hlt
    exact ⟨by rw [hread]; rfl, by rw [hread]; rfl, by rw [hread]; rfl, by rw [hread]; rfl,
      by rw [hread]; rfl, by rw [hread]; rfl, hend⟩

/-- A request for `orders` with the header data `data`. -/
def ordersFrame (headers : Int32) (data : Bytes) (h : headers.toInt = 4 + data.length) :
    PeerFrame where
  messageSize := 0
  send := 0
  address := .ofChars (bytes "orders") (by decide)
  replay := .ofChars (bytes "reply") (by decide)
  port := 15701
  host := .ofChars (bytes "n2") (by decide)
  headers := headers
  headerData := data
  body := .ofChars (bytes "book") (by decide)
  length_headerData := h

theorem found_orders :
    Found (ordersFrame 4 [] rfl) (overlay ((ordersFrame 4 [] rfl).bytes ++ [0]) fun _ => 0)
      false :=
  (found_iff _ (holds_overlay _ _) false).2 ⟨rfl, by decide⟩

/-- Four bytes of header data. -/
theorem body_not_found :
    ¬ ∀ (p : PeerFrame) (mem : Memory) (request : Bool), CStr p.bytes mem →
      Found p mem request := by
  intro h
  have hfound := h (ordersFrame 8 [0, 0, 0, 0] rfl)
    (overlay ((ordersFrame 8 [0, 0, 0, 0] rfl).bytes ++ [0]) fun _ => 0) false (holds_overlay _ _)
  have hheaders := (hfound.headers_eq (holds_overlay _ _)).1
  exact absurd hheaders (by decide)

end VertxCpp
