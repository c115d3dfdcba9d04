/-
# Bytes from a connection

`onMessage` of `src/vertx/event_bus_hazeclast.hpp`: evpp appends what a read
returned to the buffer of the connection and calls it; it looks for `ping`
anywhere in the buffer, and otherwise queues the whole buffer as one message.
Every frame begins with its length, which nothing here looks at.

So a stream of frames is taken apart correctly exactly where every read returns
one frame (`receive_eq_frames_iff`), and a frame is answered with `pong` instead
of being queued exactly where those four bytes occur in it, in whatever field or
across whatever fields (`onMessage_frame_iff`).
-/
import VertxCpp.Encode
import VertxCpp.EventBus
import VertxCpp.RoundTrip

namespace VertxCpp

open EventBus

/-- A connection: the unread bytes, what was sent back, and the closures queued for
what came in. -/
structure Connection where
  buffer : Bytes
  sent : List Bytes
  queued : List (LoopTask Bytes)

namespace Connection

/-- `onMessage(conn, msg)`; `msg->Reset()` empties the buffer on both paths. -/
def onMessage (c : Connection) : Connection :=
  let request := c.buffer
  if bytes "ping" <:+: request then
    { c with sent := c.sent ++ [bytes "pong"], buffer := [] }
  else
    { sent := c.sent ++ [[]], buffer := [], queued := c.queued ++ [.onMessage request] }

/-- A read that returns `chunk`. -/
def read (c : Connection) (chunk : Bytes) : Connection :=
  { c with buffer := c.buffer ++ chunk }.onMessage

/-- A connection after the reads of `chunks`. -/
def receive (chunks : List Bytes) : Connection := chunks.foldl read ⟨[], [], []⟩

/-- Each read queues what it returned, unless `ping` is in it. -/
theorem queued_foldl_read (chunks : List Bytes) (c : Connection) (hc : c.buffer = []) :
    (chunks.foldl read c).queued
      = c.queued ++ (chunks.filter fun chunk => ¬ bytes "ping" <:+: chunk).map .onMessage := by
  induction chunks generalizing c with
  | nil => simp
  | cons chunk chunks ih =>
    have hbuffer : (c.read chunk).buffer = [] := by
      rw [read, onMessage]
      split_ifs <;> rfl
    have hqueued : (c.read chunk).queued
        = c.queued ++ if bytes "ping" <:+: chunk then [] else [.onMessage chunk] := by
      rw [read, onMessage, hc, List.nil_append]
      split_ifs with h <;> simp
    rw [List.foldl_cons, ih _ hbuffer, hqueued, List.filter_cons]
    split_ifs with h <;> simp_all

theorem queued_receive (chunks : List Bytes) :
    (receive chunks).queued
      = (chunks.filter fun chunk => ¬ bytes "ping" <:+: chunk).map .onMessage := by
  rw [receive, queued_foldl_read _ _ rfl, List.nil_append]

end Connection

/-- A selection of non-empty strings that has all their bytes has all of them. -/
theorem filter_eq_self_of_length_flatten {p : Bytes → Bool} :
    ∀ {chunks : List Bytes}, (∀ c ∈ chunks, c ≠ []) →
      (chunks.filter p).flatten.length = chunks.flatten.length → chunks.filter p = chunks
  | [], _, _ => rfl
  | c :: chunks, hne, hlen => by
    have hrest := fun d hd => hne d (List.mem_cons_of_mem c hd)
    rw [List.filter_cons] at hlen ⊢
    split_ifs at hlen ⊢ with hc
    · rw [List.flatten_cons, List.flatten_cons, List.length_append, List.length_append] at hlen
      rw [filter_eq_self_of_length_flatten hrest (by omega)]
    · have hsub := ((List.filter_sublist (p := p) (l := chunks)).flatten).length_le
      have hpos := List.length_pos_iff.2 (hne c List.mem_cons_self)
      rw [List.flatten_cons, List.length_append] at hlen
      omega

open Connection

/-- **The stream is taken apart where every read returns one frame**, and only
there.  The frames are what `to_string` returns, none with `ping` in it; the reads
cut the stream in non-empty pieces anywhere. -/
theorem receive_eq_frames_iff {ms : List ClusteredMessage} {chunks : List Bytes}
    (hfit : ∀ m ∈ ms, m.frame.length ≤ 2048) (hping : ∀ m ∈ ms, ¬ bytes "ping" <:+: m.frame)
    (hne : ∀ chunk ∈ chunks, chunk ≠ [])
    (hcut : chunks.flatten = (ms.map ClusteredMessage.frame).flatten) :
    (∀ m ∈ ms, m.toString = .ok m.frame) ∧
      ((receive chunks).queued = ms.map (fun m => .onMessage m.frame) ↔
        chunks = ms.map ClusteredMessage.frame) := by
  refine ⟨fun m hm => by rw [m.toString_eq, if_pos (hfit m hm)], ?_⟩
  have hmap : ms.map (fun m => LoopTask.onMessage m.frame)
      = (ms.map ClusteredMessage.frame).map LoopTask.onMessage := by
    rw [List.map_map]
    rfl
  have hinj : Function.Injective (LoopTask.onMessage : Bytes → LoopTask Bytes) := by
    intro x y hxy
    injection hxy
  rw [queued_receive, hmap, (List.map_injective_iff.2 hinj).eq_iff]
  constructor
  · intro h
    -- no byte of the stream is missing, so no chunk was dropped
    have hall := filter_eq_self_of_length_flatten hne (by rw [h, hcut])
    rw [← hall, h]
  · rintro rfl
    refine List.filter_eq_self.2 fun f hf => ?_
    obtain ⟨m, hm, rfl⟩ := List.mem_map.1 hf
    simpa using hping m hm

/-- A message to `address` with the body `s`. -/
def messageTo (address s : Bytes) : ClusteredMessage where
  messageSize := 0
  protocolVersion := 1
  systemCodecId := 9
  send := true
  address := bytes "__vertx.reply.7"
  replay := address
  port := 15701
  host := bytes "10.0.0.1"
  headers := 4
  body := .empty
  reply := .string s

/-- Two messages in two reads. -/
theorem receive_eq_frames_iff_orders :
    (receive [(messageTo (bytes "orders") (bytes "book")).frame,
        (messageTo (bytes "billing") (bytes "pen")).frame]).queued
      = [.onMessage (messageTo (bytes "orders") (bytes "book")).frame,
        .onMessage (messageTo (bytes "billing") (bytes "pen")).frame] :=
  (@receive_eq_frames_iff
    [messageTo (bytes "orders") (bytes "book"), messageTo (bytes "billing") (bytes "pen")] _
    (by decide) (by decide) (by decide) rfl).2.2 rfl

/-- Two frames that one read returns are queued as one message. -/
theorem receive_coalesced :
    ¬ ∀ (ms : List ClusteredMessage) (chunks : List Bytes), (∀ m ∈ ms, m.frame.length ≤ 2048) →
      (∀ m ∈ ms, ¬ bytes "ping" <:+: m.frame) → (∀ chunk ∈ chunks, chunk ≠ []) →
      chunks.flatten = (ms.map ClusteredMessage.frame).flatten →
      (receive chunks).queued = ms.map fun m => .onMessage m.frame := by
  intro h
  have hqueued := h [messageTo (bytes "orders") (bytes "book"),
      messageTo (bytes "orders") (bytes "book")]
    [(messageTo (bytes "orders") (bytes "book")).frame
      ++ (messageTo (bytes "orders") (bytes "book")).frame]
    (by decide) (by decide) (by decide) (by simp)
  rw [queued_receive] at hqueued
  have hlen := congrArg List.length hqueued
  have hone := List.length_filter_le (fun chunk => decide ¬ bytes "ping" <:+: chunk)
    [(messageTo (bytes "orders") (bytes "book")).frame
      ++ (messageTo (bytes "orders") (bytes "book")).frame]
  simp only [List.length_map, List.length_cons, List.length_nil] at hlen hone
  omega

/-- **A heartbeat is any frame with `ping` in it.**  A frame with a body, alone in
the buffer, is queued as one message and not answered with `pong` exactly where
those bytes do not occur in it. -/
theorem onMessage_frame_iff {m : ClusteredMessage} {s : Bytes} (hreply : m.reply = .string s)
    (hfit : 31 + m.replay.length + m.address.length + m.host.length + s.length ≤ 2048) :
    m.toString = .ok m.frame ∧
      ((receive [m.frame]).queued = [.onMessage m.frame] ∧ bytes "pong" ∉ (receive [m.frame]).sent ↔
        ¬ bytes "ping" <:+: m.frame) := by
  have hlen : m.frame.length
      = 31 + m.replay.length + m.address.length + m.host.length + s.length := by
    rw [m.length_frame, hreply, replyField, length_lengthPrefixed]
    omega
  refine ⟨by rw [m.toString_eq, if_pos (by omega)], ?_⟩
  rw [receive, List.foldl_cons, List.foldl_nil, Connection.read, onMessage, List.nil_append]
  split_ifs with h
  · simp [h]
  · have hpong : bytes "pong" ≠ [] := by decide
    simp [h, hpong]

theorem onMessage_frame_iff_orders :
    (receive [(messageTo (bytes "orders") (bytes "book")).frame]).queued
      = [.onMessage (messageTo (bytes "orders") (bytes "book")).frame] :=
  ((onMessage_frame_iff (m := messageTo (bytes "orders") (bytes "book")) rfl (by decide)).2.2
    (by decide)).1

/-- A message to a consumer that is registered under `shipping.orders` is answered with
`pong`, whatever is in it. -/
theorem shipping_swallowed :
    ¬ ∀ (b : EventBus) (m : ClusteredMessage) (s : Bytes), m.reply = .string s →
      31 + m.replay.length + m.address.length + m.host.length + s.length ≤ 2048 →
      (b.consumers.find m.replay ≠ none ∨ b.publishers.find m.replay ≠ none) →
      (receive [m.frame]).queued = [.onMessage m.frame] ∧
        bytes "pong" ∉ (receive [m.frame]).sent := by
  intro h
  have hpong := (h
    ⟨⟨bytes "10.0.0.2", 15701⟩,
      Table.empty.assign (bytes "shipping.orders") (.target (.handler 0)), .empty, .empty⟩
    (messageTo (bytes "shipping.orders") (bytes "book")) (bytes "book") rfl (by decide)
    (Or.inl (by decide))).2
  exact hpong (by decide)

end VertxCpp
