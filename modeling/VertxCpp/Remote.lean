/-
# What reaches another node

A request for another node and the response to it each cross the wire once, and
the round trip of the codec says what arrives (`toMessage_toString`), if the text
to be carried is where the encoder looks for it.  It is not: `to_cstring` writes
the `_reply` of a message.  `request` puts the value in the `_body`, and the reply
of a consumer is set on the message the consumer was called with, while the frame
is made from another one.  Both frames end where the body should begin.

So the addresses arrive (`toMessage_header`) and no body ever does
(`handleRequest_other_node`, `processConsumer_reply`): the receiver reads past the
end of the frame and takes whatever it finds there.
-/
import VertxCpp.Bounds
import VertxCpp.EventBus

namespace VertxCpp

open Memory EventBus

/-! ### A frame without a body -/

section Header

variable {m : ClusteredMessage} {mem : Memory}

/-- **The decoder leaves a frame without a body**, whatever stands behind it. -/
theorem not_inside_of_header
    (hfit : 27 + m.replay.length + m.address.length + m.host.length ≤ 2048)
    (hmem : CStr m.header mem) (request : Bool) :
    ¬ (toMessage mem request).2.Inside m.header.length := by
  intro h
  have hlen := m.length_header
  have hshort :
      m.replay.length + m.address.length + m.host.length + ([] : Bytes).length < 2 ^ 31 := by
    rw [List.length_nil]
    omega
  have hheader := m.layout_header [] hshort
  have hholds : mem.Holds 0 m.header := hmem.append.1
  rw [toMessage_of_header (l := m.layout [] hshort) (by rwa [hheader])
    (by rw [hheader, hlen]; omega), hheader] at h
  have hstands : Stands mem m.header.length m.header := ⟨hholds, by omega, by omega⟩
  obtain ⟨i, ⟨-, hword, -⟩, -⟩ := word_of_inside hstands (inside_intValue_of_stringValue h)
  rw [List.length_append, BigEndian.length_bytes] at hword
  omega

/-- **And it may find any body there**, in particular another one than `v`. -/
theorem exists_other_body
    (hfit : 27 + m.replay.length + m.address.length + m.host.length ≤ 2048) (v : Bytes)
    (request : Bool) :
    ∃ mem, CStr m.header mem ∧ (toMessage mem request).1.bodyAsString ≠ v := by
  obtain ⟨w, hw, hne⟩ : ∃ w : Bytes, w.length ≤ 1 ∧ w ≠ v := by
    by_cases hv : v = []
    · exact ⟨[0], le_rfl, by simp [hv]⟩
    · exact ⟨[], by simp, fun h => hv h.symm⟩
  have hshort : m.replay.length + m.address.length + m.host.length + w.length < 2 ^ 31 := by omega
  have hbytes : (m.layout w hshort).bytes = m.header ++ lengthPrefixed w := by
    rw [Layout.bytes, m.layout_header]
    rfl
  have hholds := holds_overlay (m.layout w hshort).bytes fun _ => 0
  have hlen : (m.layout w hshort).bytes.length ≤ 2 ^ 31 - 1 := by
    rw [hbytes, List.length_append, m.length_header, length_lengthPrefixed]
    omega
  refine ⟨overlay (m.layout w hshort).bytes fun _ => 0, ?_, ?_⟩
  · refine hholds.mono ?_
    rw [hbytes, List.prefix_append_right_inj]
    -- a length of at most one begins with a zero byte, like the end of a string
    have hzero : ∀ n ≤ 1, [0] <+: BigEndian.bytes (Int32.ofNat n).toUInt32 := by decide
    exact (hzero w.length hw).trans (List.prefix_append _ _)
  · rw [toMessage_of_holds hholds ⟨by omega, fun _ => by omega⟩]
    exact hne

theorem body_never_arrives
    (hfit : 27 + m.replay.length + m.address.length + m.host.length ≤ 2048) (v : Bytes)
    (request : Bool) :
    ¬ ∀ mem, CStr m.header mem → (toMessage mem request).1.bodyAsString = v := by
  intro h
  obtain ⟨mem, hmem, hne⟩ := exists_other_body hfit v request
  exact hne (h mem hmem)

/-- A frame decoded as one: every byte of it is read and no other, and what comes back is
the message, its addresses exchanged and its body empty. -/
structure DecodedWhole (m : ClusteredMessage) (frame : Bytes) (mem : Memory) (request : Bool) :
    Prop where
  reads : ∀ i, i ∈ (toMessage mem request).2.reads ↔ 0 ≤ i ∧ i < frame.length
  address : (toMessage mem request).1.address = m.replay
  replay : (toMessage mem request).1.replay = m.address
  port : (toMessage mem request).1.port = m.port
  host : (toMessage mem request).1.host = m.host
  body : (toMessage mem request).1.bodyAsString = []

/-- The decoder looks for a body behind the frame. -/
theorem not_decodedWhole_header
    (hfit : 27 + m.replay.length + m.address.length + m.host.length ≤ 2048)
    (hmem : CStr m.header mem) (request : Bool) :
    ¬ DecodedWhole m m.header mem request := by
  intro h
  have hshort :
      m.replay.length + m.address.length + m.host.length + ([] : Bytes).length < 2 ^ 31 := by
    rw [List.length_nil]
    omega
  have hlen := m.length_header
  have hheader := m.layout_header [] hshort
  have hread := pos_mem_stringValue mem
    (Cursor.upTo m.header.length (m.layout [] hshort).headerEnds)
  rw [Cursor.upTo_pos _ (by omega)] at hread
  have hpast := (h.reads m.header.length).1
  rw [toMessage_of_header (l := m.layout [] hshort) (by rw [hheader]; exact hmem.append.1)
    (by rw [hheader]; omega), hheader] at hpast
  exact lt_irrefl _ (hpast hread).2

/-- **A message whose reply is not a string is never decoded whole.**  Its four fields
arrive, and then a byte behind the frame is read, whatever stands there. -/
theorem toMessage_toString_no_reply (hreply : ∀ s, m.reply ≠ .string s)
    (hfit : 27 + m.replay.length + m.address.length + m.host.length ≤ 2048) (request : Bool) :
    ∃ frame, m.toString = .ok frame ∧ ∀ mem, CStr frame mem →
      ((toMessage mem request).1.address = m.replay ∧
        (toMessage mem request).1.replay = m.address ∧
        (toMessage mem request).1.port = m.port ∧ (toMessage mem request).1.host = m.host) ∧
      ¬ DecodedWhole m frame mem request := by
  have hfield : replyField m.reply = [] := by
    cases hr : m.reply with
    | string s => exact absurd hr (hreply s)
    | empty => rfl
    | other type value => rfl
  refine ⟨m.header, toString_of_no_reply hfield hfit, fun mem hmem =>
    ⟨?_, not_decodedWhole_header hfit hmem request⟩⟩
  obtain ⟨haddress, hreplay, hport, hhost, -⟩ := toMessage_header hfit hmem.append.1 request
  exact ⟨haddress, hreplay, hport, hhost⟩

/-- A message that was replied to with a `const char *`. -/
def charReply : ClusteredMessage where
  messageSize := 0
  protocolVersion := 1
  systemCodecId := 9
  send := true
  address := bytes "orders"
  replay := bytes "__vertx.reply.7"
  port := 15701
  host := bytes "10.0.0.2"
  headers := 4
  body := .empty
  reply := .other "char const*" (bytes "done")

theorem toMessage_toString_charReply :
    ∃ frame, charReply.toString = .ok frame ∧ ∀ mem, CStr frame mem →
      ((toMessage mem false).1.address = charReply.replay ∧
        (toMessage mem false).1.replay = charReply.address ∧
        (toMessage mem false).1.port = charReply.port ∧
        (toMessage mem false).1.host = charReply.host) ∧
      ¬ DecodedWhole charReply frame mem false :=
  toMessage_toString_no_reply (fun s => by simp [charReply]) (by decide) false

/-- Its frame is not decoded whole, whatever stands behind it. -/
theorem charReply_not_whole :
    ¬ ∀ (m : ClusteredMessage) (request : Bool), (∀ s, m.reply ≠ .string s) →
      27 + m.replay.length + m.address.length + m.host.length ≤ 2048 →
      ∃ frame, m.toString = .ok frame ∧
        ∀ mem, CStr frame mem → DecodedWhole m frame mem request := by
  intro h
  obtain ⟨frame, hstring, hwhole⟩ := h charReply false (fun s => by simp [charReply]) (by decide)
  have hframe : charReply.toString = .ok charReply.header := toString_of_no_reply rfl (by decide)
  obtain rfl := Except.ok.inj (hframe.symm.trans hstring)
  have hmem : CStr charReply.header (overlay (charReply.header ++ [0]) fun _ => 0) :=
    holds_overlay _ _
  exact not_decodedWhole_header (by decide) hmem false (hwhole _ hmem)

end Header

/-! ### A request -/

section Request

variable (handlers : Handlers) (b : EventBus) (a v uuid : Bytes) (func : MsgCallback)
  (server : ServerID)

/-- The message that a request for another node is sent as. -/
def requestToSend : ClusteredMessage :=
  outgoing b.options
    (requestMessage (replyAddress uuid) a server.port server.host (.string v))

theorem length_replyAddress : (replyAddress uuid).length = 14 + uuid.length := by
  rw [replyAddress, List.length_append]
  rfl

theorem requestToSend_fits
    (hfit : 27 + a.length + (14 + uuid.length) + b.options.host.length ≤ 2048) :
    27 + (requestToSend b a v uuid server).replay.length
      + (requestToSend b a v uuid server).address.length
      + (requestToSend b a v uuid server).host.length ≤ 2048 := by
  rw [← length_replyAddress] at hfit
  exact hfit

/-- A request for another node hands on one frame. -/
theorem handleRequest_frame (hlocal : b.consumersLocal.find a = none)
    (hserver : ¬ (server.host = b.options.host ∧ server.port = b.options.port))
    (hfit : 27 + a.length + (14 + uuid.length) + b.options.host.length ≤ 2048) :
    (exec (handleRequest ⟨handlers, ClusteredMessage.toString⟩ a (.string v) func uuid (.ok server))
        ⟨b, []⟩).2.effects
      = [.processStringMessage (requestToSend b a v uuid server).header
          (tcpAddress server.host server.port)] := by
  have hstring : (requestToSend b a v uuid server).toString
      = .ok (requestToSend b a v uuid server).header :=
    toString_of_no_reply rfl (requestToSend_fits b a v uuid server hfit)
  rw [requestToSend] at hstring
  rw [exec_handleRequest_other _ _ hlocal hserver, exec_processOtherNode]
  dsimp only
  rw [hstring]
  rfl

/-- What a request for another node is for: one frame is handed on for that node, and
whatever stands behind it in the receiver's memory, the receiver decodes the
request from it. -/
def RequestArrives : Prop :=
  ∃ frame, (exec (handleRequest ⟨handlers, ClusteredMessage.toString⟩ a (.string v) func uuid
      (.ok server)) ⟨b, []⟩).2.effects
        = [.processStringMessage frame (tcpAddress server.host server.port)] ∧
    ∀ mem, CStr frame mem →
      (toMessage mem false).1.address = a ∧
      (toMessage mem false).1.replay = replyAddress uuid ∧
      (toMessage mem false).1.port = b.options.port ∧
      (toMessage mem false).1.host = b.options.host ∧
      (toMessage mem false).1.bodyAsString = v

theorem not_requestArrives (hlocal : b.consumersLocal.find a = none)
    (hserver : ¬ (server.host = b.options.host ∧ server.port = b.options.port))
    (hfit : 27 + a.length + (14 + uuid.length) + b.options.host.length ≤ 2048) :
    ¬ RequestArrives handlers b a v uuid func server := by
  have heffects := handleRequest_frame handlers b a v uuid func server hlocal hserver hfit
  have hfits := requestToSend_fits b a v uuid server hfit
  rintro ⟨frame, hframe, harrives⟩
  obtain rfl : (requestToSend b a v uuid server).header = frame := by
    simpa using heffects.symm.trans hframe
  exact body_never_arrives hfits v false fun mem hmem => (harrives mem hmem).2.2.2.2

/-- **The value of a remote request never arrives.**  One frame is handed on for the
chosen node, from which the receiver decodes the address, the address of the reply
and the endpoint of this node; but it has to leave the frame for the body, and
what it decodes is not the value for every content of the memory behind. -/
theorem handleRequest_other_node (hlocal : b.consumersLocal.find a = none)
    (hserver : ¬ (server.host = b.options.host ∧ server.port = b.options.port))
    (hfit : 27 + a.length + (14 + uuid.length) + b.options.host.length ≤ 2048) :
    (∃ frame, (exec (handleRequest ⟨handlers, ClusteredMessage.toString⟩ a (.string v) func uuid
        (.ok server)) ⟨b, []⟩).2.effects
          = [.processStringMessage frame (tcpAddress server.host server.port)] ∧
        ∀ mem, CStr frame mem → ¬ (toMessage mem false).2.Inside frame.length ∧
          (toMessage mem false).1.address = a ∧
          (toMessage mem false).1.replay = replyAddress uuid ∧
          (toMessage mem false).1.port = b.options.port ∧
          (toMessage mem false).1.host = b.options.host) ∧
      ¬ RequestArrives handlers b a v uuid func server := by
  have heffects := handleRequest_frame handlers b a v uuid func server hlocal hserver hfit
  have hfits := requestToSend_fits b a v uuid server hfit
  refine ⟨⟨_, heffects, fun mem hmem => ⟨not_inside_of_header hfits hmem false, ?_⟩⟩,
    not_requestArrives handlers b a v uuid func server hlocal hserver hfit⟩
  obtain ⟨haddress, hreplay, hport, hhost, -⟩ := toMessage_header hfits hmem.append.1 false
  exact ⟨haddress, hreplay, hport, hhost⟩

/-- A node of the cluster, before anything is registered. -/
def node (n : UInt8) : EventBus := ⟨⟨bytes "10.0.0." ++ [n], 15701⟩, .empty, .empty, .empty⟩

theorem handleRequest_other_node_orders :
    ¬ RequestArrives (fun _ m => .ok m) (node 49) (bytes "orders") (bytes "book") (bytes "7") .empty
      ⟨15701, bytes "10.0.0.2"⟩ :=
  (handleRequest_other_node (fun _ m => .ok m) (node 49) (bytes "orders") (bytes "book") (bytes "7")
    .empty ⟨15701, bytes "10.0.0.2"⟩ rfl (by decide) (by decide)).2

/-- The request that loses its value. -/
theorem request_value_lost :
    ¬ ∀ (handlers : Handlers) (b : EventBus) (a v uuid : Bytes) (func : MsgCallback)
        (server : ServerID), b.consumersLocal.find a = none →
      ¬ (server.host = b.options.host ∧ server.port = b.options.port) →
      27 + a.length + (14 + uuid.length) + b.options.host.length ≤ 2048 →
      RequestArrives handlers b a v uuid func server := by
  intro h
  refine not_requestArrives (fun _ m => .ok m) (node 49) (bytes "orders") (bytes "book") (bytes "7")
    .empty ⟨15701, bytes "10.0.0.2"⟩ rfl (by decide) (by decide) ?_
  exact h _ _ _ _ _ _ _ rfl (by decide) (by decide)

end Request

/-! ### A reply -/

section Reply

variable {handlers : Handlers} {b : EventBus} {q q' : ClusteredMessage} {f : FuncId}

/-- An inbound message for a consumer hands on one frame, whatever the consumer
replies. -/
theorem processConsumer_frame (hrequest : q.request = false) (hmark : ¬ replyMark <:+: q.address)
    (hconsumer : b.consumers.find q.address = some (.target f)) (hcall : handlers f q = .ok q')
    (hfit : 27 + q.replay.length + q.address.length + q.host.length ≤ 2048) :
    (exec (processOnTcpMessage ⟨handlers, ClusteredMessage.toString⟩ q) ⟨b, []⟩).2.effects
      = [.invoke f q, .processStringMessage (responseMessage b.options q).header
          (tcpAddress q.host q.port)] := by
  have hstring :
      (responseMessage b.options q).toString = .ok (responseMessage b.options q).header :=
    toString_of_no_reply rfl hfit
  rw [exec_inbound _ _ _ hrequest, if_neg hmark, exec_processConsumer _ _ _ hconsumer]
  simp only [hcall, hstring]
  rfl

/-- What the reply of a consumer is for: besides the call one frame is handed on, for
where the message came from, and whatever stands behind it in the memory of its
receiver, that decodes the reply from it.  `q` is the message the consumer is called
with, `q'` the message as the consumer leaves it. -/
def ReplyArrives (handlers : Handlers) (b : EventBus) (f : FuncId) (q q' : ClusteredMessage) :
    Prop :=
  ∃ frame, (exec (processOnTcpMessage ⟨handlers, ClusteredMessage.toString⟩ q) ⟨b, []⟩).2.effects
      = [.invoke f q, .processStringMessage frame (tcpAddress q.host q.port)] ∧
    ∀ mem, CStr frame mem →
      (toMessage mem false).1.address = q.replay ∧
      (toMessage mem false).1.bodyAsString = q'.replyAsString

theorem not_replyArrives (hrequest : q.request = false) (hmark : ¬ replyMark <:+: q.address)
    (hconsumer : b.consumers.find q.address = some (.target f)) (hcall : handlers f q = .ok q')
    (hfit : 27 + q.replay.length + q.address.length + q.host.length ≤ 2048) :
    ¬ ReplyArrives handlers b f q q' := by
  have heffects := processConsumer_frame hrequest hmark hconsumer hcall hfit
  have hfits : 27 + (responseMessage b.options q).replay.length
      + (responseMessage b.options q).address.length
      + (responseMessage b.options q).host.length ≤ 2048 := hfit
  rintro ⟨frame, hframe, harrives⟩
  obtain rfl : (responseMessage b.options q).header = frame := by
    simpa using heffects.symm.trans hframe
  exact body_never_arrives hfits _ false fun mem hmem => (harrives mem hmem).2

/-- **The reply of a consumer never arrives.**  The consumer is called and one frame
goes to where the message came from, addressed as the requester asked; but it is
made from a message the consumer has not seen, and the requester has to leave the
frame for the body. -/
theorem processConsumer_reply (hrequest : q.request = false) (hmark : ¬ replyMark <:+: q.address)
    (hconsumer : b.consumers.find q.address = some (.target f)) (hcall : handlers f q = .ok q')
    (hfit : 27 + q.replay.length + q.address.length + q.host.length ≤ 2048) :
    (∃ frame, (exec (processOnTcpMessage ⟨handlers, ClusteredMessage.toString⟩ q) ⟨b, []⟩).2.effects
          = [.invoke f q, .processStringMessage frame (tcpAddress q.host q.port)] ∧
        ∀ mem, CStr frame mem → ¬ (toMessage mem false).2.Inside frame.length ∧
          (toMessage mem false).1.address = q.replay) ∧
      ¬ ReplyArrives handlers b f q q' := by
  have heffects := processConsumer_frame hrequest hmark hconsumer hcall hfit
  have hfits : 27 + (responseMessage b.options q).replay.length
      + (responseMessage b.options q).address.length
      + (responseMessage b.options q).host.length ≤ 2048 := hfit
  refine ⟨⟨_, heffects, fun mem hmem => ⟨not_inside_of_header hfits hmem false, ?_⟩⟩,
    not_replyArrives hrequest hmark hconsumer hcall hfit⟩
  exact (toMessage_header hfits hmem.append.1 false).1

/-- A node with one consumer. -/
def ordersNode (n : UInt8) : EventBus :=
  { node n with consumers := Table.empty.assign (bytes "orders") (.target (.handler 0)) }

/-- A request for it from another node, as decoded. -/
def ordersRequest : ClusteredMessage where
  messageSize := 50
  protocolVersion := 1
  systemCodecId := 9
  send := true
  address := bytes "orders"
  replay := bytes "__vertx.reply.7"
  port := 15701
  host := bytes "10.0.0.1"
  headers := 4
  body := .string (bytes "book")

theorem processConsumer_reply_orders :
    ¬ ReplyArrives (fun _ m => .ok (m.setReply (.string (bytes "done")))) (ordersNode 50)
      (.handler 0) ordersRequest (ordersRequest.setReply (.string (bytes "done"))) :=
  (processConsumer_reply rfl (by decide) rfl rfl (by decide)).2

/-- The reply that is lost. -/
theorem reply_lost :
    ¬ ∀ (handlers : Handlers) (b : EventBus) (f : FuncId) (q q' : ClusteredMessage) (s : Bytes),
      q.request = false → ¬ replyMark <:+: q.address →
      b.consumers.find q.address = some (.target f) → handlers f q = .ok q' →
      q'.reply = .string s →
      27 + q.replay.length + q.address.length + q.host.length ≤ 2048 →
      ReplyArrives handlers b f q q' := by
  intro h
  have hlost : ¬ ReplyArrives (fun _ m => .ok (m.setReply (.string (bytes "done")))) (ordersNode 50)
      (.handler 0) ordersRequest (ordersRequest.setReply (.string (bytes "done"))) :=
    not_replyArrives rfl (by decide) rfl rfl (by decide)
  exact hlost (h _ _ _ _ _ _ rfl (by decide) rfl rfl rfl (by decide))

end Reply

end VertxCpp
