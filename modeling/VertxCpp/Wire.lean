/-
# The wire between two nodes

What the protocol of requests and replies needs of the codec is one law: a frame
decodes to the address, the address of the reply, the port and the host it was
made from, the first two exchanged, whatever else is decoded with them.  `Wire` is
a codec with that law.

`byteWire` is the one of the source: `to_string` and `to_message`, the decoder
reading on in whatever memory stands behind the frame, so that frames without a
body obey the law too.  `fieldWire` keeps those four fields and forgets the bytes.
-/
import VertxCpp.EventBus
import VertxCpp.RoundTrip

namespace VertxCpp

open Memory

/-- A codec that carries the addresses.  `R` is what decoding depends on besides the
frame. -/
structure Wire (F R : Type) where
  encode : ClusteredMessage → Except Fault F
  decode : F → R → ClusteredMessage
  exchange : ∀ m f, encode m = .ok f → ∀ rest,
    (decode f rest).address = m.replay ∧ (decode f rest).replay = m.address ∧
      (decode f rest).port = m.port ∧ (decode f rest).host = m.host ∧
      (decode f rest).request = false

/-- `to_string` and `to_message`, the memory around the frame given. -/
def byteWire : Wire Bytes Memory where
  encode := ClusteredMessage.toString
  decode frame behind := (toMessage (overlay (frame ++ [0]) behind) false).1
  exchange _ f hencode behind := fields_arrive hencode (holds_overlay (f ++ [0]) behind) false

/-- The fields of a frame in the order of the wire. -/
structure Fields where
  first : Bytes
  second : Bytes
  port : Int32
  host : Bytes
  deriving DecidableEq

/-- The wire as its four fields: `to_cstring` writes `replay` first, `to_message` reads
`address` first.  The other fields of a decoded message may be anything. -/
def fieldWire : Wire Fields ClusteredMessage where
  encode m := .ok ⟨m.replay, m.address, m.port, m.host⟩
  decode f rest :=
    { rest with address := f.first, replay := f.second, port := f.port, host := f.host,
                request := false }
  exchange m f hencode rest := by
    obtain rfl := Except.ok.inj hencode
    exact ⟨rfl, rfl, rfl, rfl, rfl⟩

end VertxCpp
