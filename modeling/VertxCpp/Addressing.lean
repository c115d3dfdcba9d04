/-
# What a consumer is told of a request

The address and the address of the reply in the message that a consumer is called with.
`request` fills the two in exchanged: `address` gets where the reply goes and `replay` the
consumer's address.  `to_cstring` writes them exchanged and `to_message` reads them in order,
so a frame turns them back.  But a request that stays on its node never becomes a frame, and
its consumer is called with the message as `request` made it.

Whatever `processOnTcpMessage` calls first, it calls with the message it was given
(`message_of_first_call`).  So a consumer finds its own address in `getAddress` and the
address of the reply in `getReplay` exactly where the request came from another node, or the
two are one string (`addressed_iff`).
-/
import VertxCpp.Remote
import VertxCpp.Vertx

namespace VertxCpp

open EventBus Program

namespace EventBus

section FirstCall

variable {F : Type} {env : Env F}

/-- What was done stays done. -/
def Extends (w w' : World F) : Prop := w.effects <+: w'.effects

instance : IsPreorder (World F) Extends where
  refl w := List.prefix_refl w.effects
  trans _ _ _ := List.IsPrefix.trans

theorem extends_emit (w : World F) (e : Effect F) :
    Extends w { w with effects := w.effects ++ [e] } := List.prefix_append _ _

/-- What a call of `f` with the message leaves behind. -/
def callOf (m : ClusteredMessage) : MsgCallback → Option (Effect F)
  | .empty => none
  | .target f => some (.invoke f m)

theorem eq_of_callOf {f : MsgCallback} {g : FuncId} {m m' : ClusteredMessage}
    (h : callOf m f = some (Effect.invoke g m' : Effect F)) : m' = m := by
  cases f with
  | empty => cases h
  | target f =>
    cases h
    rfl

variable {b : EventBus} {m m' : ClusteredMessage}

/-- A run that starts with a call has that call first. -/
theorem head?_call {f : MsgCallback} {rest : ClusteredMessage → Action F Unit}
    (hrest : ∀ x, Respects Extends (rest x)) :
    (exec (call env.handlers f m >>= rest) ⟨b, []⟩).2.effects.head? = callOf m f := by
  rw [exec_bind]
  cases f with
  | empty => rfl
  | target f =>
    rw [exec_call_target]
    cases env.handlers f m with
    | error e => rfl
    | ok x =>
      obtain ⟨es, hes⟩ := hrest x ⟨b, [.invoke f m]⟩
      have heffects : (exec (rest x) ⟨b, [.invoke f m]⟩).2.effects = .invoke f m :: es := hes.symm
      dsimp only [List.nil_append]
      rw [heffects]
      rfl

theorem extends_invoke (w : World F) (f : FuncId) (m : ClusteredMessage) :
    Extends w { w with effects := w.effects ++ [.invoke f m] } := extends_emit w _

theorem head?_processLocal :
    (exec (processLocal env m) ⟨b, []⟩).2.effects.head? = callOf m m.func :=
  head?_call fun _ => (respects_call _ extends_invoke env.handlers _).bind fun _ => respects_pure _

theorem head?_processSameNode :
    (exec (processSameNode env m) ⟨b, []⟩).2.effects.head?
      = callOf m (b.consumers.subscript m.replay .empty).1 := by
  rw [processSameNode, exec_bind, exec_consumersAt]
  refine head?_call fun x => respects_get.bind fun w => ?_
  cases w.bus.publishers.find x.address with
  | none => exact respects_pure ()
  | some g =>
    exact respects_callPublisher env _ extends_invoke (fun w _ => List.prefix_refl w.effects) g _

theorem head?_processReply :
    (exec (processReply env m) ⟨b, []⟩).2.effects.head?
      = callOf m (b.publishers.subscript m.address .empty).1 := by
  rw [processReply, exec_bind, exec_publishersAt]
  exact head?_call fun _ => respects_modify fun w => List.prefix_refl w.effects

theorem head?_processConsumer (addr : Bytes) :
    (exec (processConsumer env m addr) ⟨b, []⟩).2.effects.head?
      = callOf m (b.consumers.subscript m.address .empty).1 := by
  rw [processConsumer, exec_bind, exec_consumersAt]
  dsimp only
  rw [exec_bind, exec_get]
  exact head?_call fun _ =>
    (respects_ofExcept _).bind fun _ => respects_modify fun w => extends_emit w _

/-- **Whatever is called first is called with the message itself.** -/
theorem message_of_first_call {f : FuncId}
    (h : (exec (processOnTcpMessage env m) ⟨b, []⟩).2.effects.head? = some (.invoke f m')) :
    m' = m := by
  rw [exec_processOnTcpMessage] at h
  split_ifs at h
  · exact eq_of_callOf (head?_processLocal.symm.trans h)
  · exact eq_of_callOf (head?_processSameNode.symm.trans h)
  · rw [exec_processOtherNode] at h
    revert h
    dsimp only
    split <;> simp
  · exact eq_of_callOf (head?_processReply.symm.trans h)
  · exact eq_of_callOf ((head?_processConsumer _).symm.trans h)

end FirstCall

end EventBus

/-! ### The consumer of a request -/

section Request

variable (handlers handlers' : Handlers) (b b' : EventBus) (a : Bytes) (v : Any)
  (func : MsgCallback) (uuid : Bytes) (next : Except Fault ServerID)

/-- The world after the closure of a request has run on the bus `b`. -/
def afterRequest : World Bytes :=
  (exec (handleRequest ⟨handlers, ClusteredMessage.toString⟩ a v func uuid next) ⟨b, []⟩).2

/-- The consumer that a request is for is called with a message: first of all on the node
`b` of the request, or first of all on the node `b'` that gets its frame, whatever stands
behind the frame in the memory there. -/
inductive Called : FuncId → ClusteredMessage → Prop where
  | here {f : FuncId} {m : ClusteredMessage}
      (hcall : (afterRequest handlers b a v func uuid next).effects.head? = some (.invoke f m)) :
      Called f m
  | there {frame addr : Bytes} {mem : Memory} {f : FuncId} {m : ClusteredMessage}
      (hframe : (frame, addr) ∈ handed (afterRequest handlers b a v func uuid next).effects)
      (hmem : CStr frame mem)
      (hcall : (exec (processOnTcpMessage ⟨handlers', ClusteredMessage.toString⟩
        (toMessage mem false).1) ⟨b', []⟩).2.effects.head? = some (.invoke f m)) :
      Called f m

/-- The address that the reply to a request is for. -/
def replyTo : Bytes :=
  match b.consumersLocal.find a with
  | none => replyAddress uuid
  | some _ => bytes "__vertx.reply.local"

/-- The request leaves its node. -/
def Leaves : Prop :=
  b.consumersLocal.find a = none ∧
    ∃ server, next = .ok server ∧
      ¬ (server.host = b.options.host ∧ server.port = b.options.port)

/-- The message names `a` as its address and `reply` as the one of the reply. -/
structure Addressed (a reply : Bytes) (m : ClusteredMessage) : Prop where
  address : m.address = a
  replay : m.replay = reply

variable {handlers handlers' b b' a v func uuid next}

/-- A message with the two exchanged. -/
theorem addressed_exchanged_iff {reply : Bytes} {m : ClusteredMessage}
    (haddress : m.address = reply) (hreplay : m.replay = a) : Addressed a reply m ↔ a = reply := by
  constructor
  · intro h
    exact h.address.symm.trans haddress
  · rintro rfl
    exact ⟨haddress, hreplay⟩

/-- **On the node of the request** a consumer is called only if the request does not leave,
with the two exchanged. -/
theorem first_call_here {f : FuncId} {m : ClusteredMessage}
    (h : (afterRequest handlers b a v func uuid next).effects.head? = some (.invoke f m)) :
    ¬ Leaves b a next ∧ m.address = replyTo b a uuid ∧ m.replay = a := by
  rw [afterRequest] at h
  unfold Leaves replyTo
  cases hlocal : b.consumersLocal.find a with
  | some g =>
    rw [exec_handleRequest, hlocal] at h
    rw [message_of_first_call h]
    exact ⟨by simp, rfl, rfl⟩
  | none =>
    cases next with
    | error e =>
      rw [exec_handleRequest, hlocal] at h
      cases h
    | ok server =>
      have hleaves : ¬ ¬ (server.host = b.options.host ∧ server.port = b.options.port) := by
        intro hnode
        rw [exec_handleRequest_other _ _ hlocal hnode, exec_processOtherNode] at h
        revert h
        dsimp only
        split <;> simp
      rw [exec_handleRequest, hlocal] at h
      rw [message_of_first_call h]
      refine ⟨?_, rfl, rfl⟩
      rintro ⟨-, s, hs, hnode⟩
      obtain rfl := Except.ok.inj hs
      exact hleaves hnode

/-- **On another node** the frame is that of a request that left, and what is decoded from
it names the address and the reply. -/
theorem decoded_there {frame addr : Bytes} {mem : Memory}
    (hframe : (frame, addr) ∈ handed (afterRequest handlers b a v func uuid next).effects)
    (hmem : CStr frame mem) :
    Leaves b a next ∧ Addressed a (replyTo b a uuid) (toMessage mem false).1 := by
  rw [afterRequest] at hframe
  unfold Leaves replyTo
  cases hlocal : b.consumersLocal.find a with
  | some g =>
    rw [exec_handleRequest_local _ _ hlocal, handed_processLocal] at hframe
    exact absurd hframe List.not_mem_nil
  | none =>
    rcases handed_handleRequest ⟨handlers, ClusteredMessage.toString⟩ b a v func uuid next with
      hnone | ⟨server, sent, hnext, hnode, hencode, hone⟩
    · rw [hnone] at hframe
      exact absurd hframe List.not_mem_nil
    · rw [hone] at hframe
      obtain ⟨rfl, -⟩ := Prod.mk.inj (List.mem_singleton.1 hframe)
      obtain ⟨haddress, hreplay, -⟩ := fields_arrive hencode hmem false
      exact ⟨⟨rfl, server, hnext, hnode⟩, haddress, hreplay⟩

/-- A consumer that `localConsumer` registered is called. -/
theorem called_local {f : FuncId} (hlocal : b.consumersLocal.find a = some (.target f)) :
    Called handlers handlers' b b' a v func uuid next f
      ((requestMessage (bytes "__vertx.reply.local") a b.options.port b.options.host v).setFunc
        (.target f) func) := by
  refine .here ?_
  rw [afterRequest, exec_handleRequest_local _ _ hlocal, head?_processLocal]
  rfl

/-- A consumer that `consumer` registered is called, if `next` gives the request to its node. -/
theorem called_own {f : FuncId} (hlocal : b.consumersLocal.find a = none)
    (hconsumer : b.consumers.find a = some (.target f)) :
    Called handlers handlers' b b' a v func uuid (.ok ⟨b.options.port, b.options.host⟩) f
      (requestMessage (replyAddress uuid) a b.options.port b.options.host v) := by
  refine .here ?_
  rw [afterRequest, exec_handleRequest_own ⟨b, []⟩ _ hlocal, head?_processSameNode]
  dsimp only [requestMessage]
  rw [Table.subscript_of_some hconsumer]
  rfl

/-- And on another node, whatever stands behind the frame there, if it fits the buffer. -/
theorem called_other {f : FuncId} {server : ServerID} {mem : Memory}
    (hlocal : b.consumersLocal.find a = none)
    (hserver : ¬ (server.host = b.options.host ∧ server.port = b.options.port))
    (hfit : 27 + a.length + (14 + uuid.length) + b.options.host.length ≤ 2048)
    (hconsumer : b'.consumers.find a = some (.target f)) (hmark : ¬ replyMark <:+: a)
    (hmem : CStr (outgoing b.options
      (requestMessage (replyAddress uuid) a server.port server.host v)).header mem) :
    Called handlers handlers' b b' a v func uuid (.ok server) f (toMessage mem false).1 := by
  have hstring : (outgoing b.options (requestMessage (replyAddress uuid) a server.port
      server.host v)).toString = .ok (outgoing b.options (requestMessage (replyAddress uuid) a
        server.port server.host v)).header := by
    rw [← length_replyAddress] at hfit
    exact toString_of_no_reply rfl hfit
  obtain ⟨harrived, -, -, -, hrequest⟩ := fields_arrive hstring hmem false
  have haddress : (toMessage mem false).1.address = a := harrived
  refine @Called.there _ _ _ _ _ _ _ _ _ _ (tcpAddress server.host server.port) _ _ _ ?_ hmem ?_
  · rw [afterRequest, exec_handleRequest_other _ _ hlocal hserver, exec_processOtherNode]
    dsimp only
    rw [hstring]
    exact List.mem_singleton_self _
  · rw [exec_inbound _ _ _ hrequest, haddress, if_neg hmark, head?_processConsumer, haddress,
      Table.subscript_of_some hconsumer]
    rfl

/-- **What a consumer is told.**  The message it is called with names its address and the
address of the reply exactly where the request left its node, or the two are one string. -/
theorem addressed_iff {f : FuncId} {m : ClusteredMessage}
    (h : Called handlers handlers' b b' a v func uuid next f m) :
    Addressed a (replyTo b a uuid) m ↔ Leaves b a next ∨ a = replyTo b a uuid := by
  obtain hcall | ⟨hframe, hmem, hcall⟩ := h
  · obtain ⟨hstays, haddress, hreplay⟩ := first_call_here hcall
    rw [addressed_exchanged_iff haddress hreplay]
    exact (or_iff_right hstays).symm
  · obtain ⟨hleaves, haddressed⟩ := decoded_there hframe hmem
    rw [message_of_first_call hcall]
    exact iff_of_true haddressed (Or.inl hleaves)

end Request

/-- A request for `orders` on another node. -/
def forwardedOrders : ClusteredMessage :=
  outgoing (node 49).options (requestMessage (replyAddress (bytes "7")) (bytes "orders") 15701
    (node 50).options.host (.string (bytes "book")))

/-- A node where `localConsumer` has registered `orders`. -/
def ordersLocal : EventBus :=
  { node 49 with consumersLocal := Table.empty.assign (bytes "orders") (.target (.handler 0)) }

/-- The message that a local consumer of `orders` is called with. -/
def localOrders : ClusteredMessage :=
  (requestMessage (bytes "__vertx.reply.local") (bytes "orders") 15701 (node 49).options.host
    (.string (bytes "book"))).setFunc (.target (.handler 0)) .empty

/-- The consumer on another node is told both, the one that is called locally has them
exchanged. -/
theorem addressed_orders :
    Addressed (bytes "orders") (replyAddress (bytes "7"))
      (toMessage (Memory.overlay (forwardedOrders.header ++ [0]) fun _ => 0) false).1 ∧
    ¬ Addressed (bytes "orders") (replyTo ordersLocal (bytes "orders") (bytes "7"))
      localOrders := by
  constructor
  · exact (@addressed_iff idle idle (node 49) (ordersNode 50) (bytes "orders")
      (.string (bytes "book")) .empty (bytes "7") (.ok ⟨15701, (node 50).options.host⟩)
      (.handler 0) _ (called_other rfl (by decide) (by decide) rfl (by decide)
        (Memory.holds_overlay _ _))).2 (Or.inl ⟨rfl, _, rfl, by decide⟩)
  · intro h
    rcases (@addressed_iff idle idle ordersLocal (node 50) (bytes "orders")
      (.string (bytes "book")) .empty (bytes "7") (.error .outOfRange) (.handler 0) _
      (called_local rfl)).1 h with ⟨hleaves, -⟩ | hsame
    · exact absurd hleaves (by decide)
    · exact absurd hsame (by decide)

/-- The consumer of `orders` on the node of the request is called with the two exchanged. -/
theorem consumer_told_exchanged :
    ¬ ∀ (handlers handlers' : Handlers) (b b' : EventBus) (a : Bytes) (v : Any)
        (func : MsgCallback) (uuid : Bytes) (next : Except Fault ServerID) (f : FuncId)
        (m : ClusteredMessage), Called handlers handlers' b b' a v func uuid next f m →
      Addressed a (replyTo b a uuid) m := by
  intro h
  have haddressed := h idle idle (ordersNode 49) (node 50) (bytes "orders")
    (.string (bytes "book")) .empty (bytes "7") _ _ _ (called_own rfl rfl)
  exact absurd haddressed.address (by decide)

end VertxCpp
