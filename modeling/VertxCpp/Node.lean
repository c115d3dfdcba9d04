/-
# One bus through its life

Everything that can happen to the bus of one node, in any order: registrations, and the
closures of `request` and `onMessage` with what user code does in them, the uuid
generated and the answer of `hz->next`.  Beside the bus a node remembers which addresses
`consumer` was called for and which keys of `_publishers` a request opened that are still
there.

No run of `processOnTcpMessage` adds a function to a table (`loses_processOnTcpMessage`),
so a function in `_consumers` was registered and one in `_publishers` is pending
(`Node.Inv`).  But `operator[]` adds empty ones: a message that nobody waits for ends in
`bad_function_call` and blocks its key for who comes later (`stray_message_throws`).
-/
import VertxCpp.Encode
import VertxCpp.EventBus
import VertxCpp.Library.Machine
import VertxCpp.Library.Program

namespace VertxCpp

open EventBus Machine Program

namespace EventBus

variable {F : Type} {α : Type}

/-! ### The branches, step by step -/

section Respects

variable {R : World F → World F → Prop} [IsPreorder (World F) R] (env : Env F)
  (m : ClusteredMessage)
  (hinvoke : ∀ w f m, R w { w with effects := w.effects ++ [.invoke f m] })
  (hconsumers : ∀ w key, R w (exec (consumersAt key) w).2)
  (hpublishers : ∀ w key, R w (exec (publishersAt key) w).2)
  (herase : ∀ w key,
    R w { w with bus := { w.bus with publishers := w.bus.publishers.erase key } })
  (hframe : ∀ w messageStr addr,
    R w { w with effects := w.effects ++ [.processStringMessage messageStr addr] })

theorem respects_ofExcept (r : Except Fault α) : Respects R (ofExcept r : Action F α) := by
  cases r with
  | ok a => exact respects_pure a
  | error e => exact respects_throw e

include hinvoke

theorem respects_call (handlers : Handlers) (f : MsgCallback) :
    Respects R (call handlers f m : Action F ClusteredMessage) := by
  cases f with
  | empty => exact respects_throw _
  | target f => exact (respects_modify fun w => hinvoke w f m).bind fun _ => respects_ofExcept _

theorem respects_processLocal : Respects R (processLocal env m) :=
  (respects_call m hinvoke env.handlers _).bind fun _ =>
    (respects_call _ hinvoke env.handlers _).bind fun _ => respects_pure _

include herase

theorem respects_callPublisher (f : MsgCallback) (key : Bytes) :
    Respects R (callPublisher env f m key) :=
  (respects_call m hinvoke env.handlers f).bind fun _ => respects_modify fun w => herase w key

include hconsumers

theorem respects_processSameNode : Respects R (processSameNode env m) := by
  refine Respects.bind (fun w => hconsumers w _) fun functionInvoke => ?_
  refine (respects_call m hinvoke env.handlers functionInvoke).bind fun m' => ?_
  refine respects_get.bind fun w => ?_
  cases w.bus.publishers.find m'.address with
  | none => exact respects_pure ()
  | some f => exact respects_callPublisher env _ hinvoke herase f _

omit hconsumers
include hpublishers

theorem respects_processReply : Respects R (processReply env m) :=
  Respects.bind (fun w => hpublishers w _) fun f => respects_callPublisher env m hinvoke herase f _

omit hinvoke herase hpublishers
include hframe

theorem respects_processOtherNode (addr : Bytes) : Respects R (processOtherNode env m addr) :=
  respects_get.bind fun _ => (respects_ofExcept _).bind fun _ =>
    respects_modify fun w => hframe w _ addr

include hinvoke hconsumers

theorem respects_processConsumer (addr : Bytes) : Respects R (processConsumer env m addr) :=
  Respects.bind (fun w => hconsumers w _) fun f => respects_get.bind fun _ =>
    (respects_call m hinvoke env.handlers f).bind fun _ => (respects_ofExcept _).bind fun _ =>
      respects_modify fun w => hframe w _ addr

include hpublishers herase

/-- **Every run of `processOnTcpMessage`** respects what its steps respect. -/
theorem respects_processOnTcpMessage : Respects R (processOnTcpMessage env m) := by
  intro w
  show R w (exec (processOnTcpMessage env m) w).2
  rw [exec_processOnTcpMessage]
  split_ifs
  · exact respects_processLocal env m hinvoke w
  · exact respects_processSameNode env m hinvoke hconsumers herase w
  · exact respects_processOtherNode env m hframe _ w
  · exact respects_processReply env m hinvoke hpublishers herase w
  · exact respects_processConsumer env m hinvoke hconsumers hframe _ w

end Respects

/-! ### No function is added -/

/-- The functions of the tables were there before, and the rest is as before. -/
structure Loses (b b' : EventBus) : Prop where
  options : b'.options = b.options
  consumersLocal : b'.consumersLocal = b.consumersLocal
  consumers : ∀ k f, b'.consumers.find k = some (.target f) → b.consumers.find k = some (.target f)
  publishers : ∀ k f, b'.publishers.find k = some (.target f) →
    b.publishers.find k = some (.target f)

theorem Loses.refl (b : EventBus) : Loses b b := ⟨rfl, rfl, fun _ _ => id, fun _ _ => id⟩

theorem Loses.trans {b₁ b₂ b₃ : EventBus} (h : Loses b₁ b₂) (h' : Loses b₂ b₃) : Loses b₁ b₃ where
  options := h'.options.trans h.options
  consumersLocal := h'.consumersLocal.trans h.consumersLocal
  consumers k f hf := h.consumers k f (h'.consumers k f hf)
  publishers k f hf := h.publishers k f (h'.publishers k f hf)

instance : IsPreorder (World F) fun w w' => Loses w.bus w'.bus where
  refl w := Loses.refl w.bus
  trans _ _ _ := Loses.trans

/-- What `operator[]` leaves of a table. -/
theorem find_subscript {t : Table Bytes MsgCallback} {key k : Bytes} {f : FuncId}
    (h : (t.subscript key .empty).2.find k = some (.target f)) : t.find k = some (.target f) := by
  cases hkey : t.find key with
  | some g => rwa [Table.subscript_of_some hkey] at h
  | none =>
    rw [Table.subscript_of_none hkey, Table.find_assign] at h
    split_ifs at h
    · simp at h
    · exact h

theorem loses_erase (b : EventBus) (key : Bytes) :
    Loses b { b with publishers := b.publishers.erase key } := by
  refine ⟨rfl, rfl, fun _ _ => id, fun k f hf => ?_⟩
  rw [Table.find_erase] at hf
  split_ifs at hf
  exact hf

/-- **No run adds a function**, whatever user code does in it. -/
theorem loses_processOnTcpMessage (env : Env F) (m : ClusteredMessage) (w : World F) :
    Loses w.bus (exec (processOnTcpMessage env m) w).2.bus := by
  refine respects_processOnTcpMessage (R := fun w w' : World F => Loses w.bus w'.bus) env m
    ?_ ?_ ?_ ?_ ?_ w
  · exact fun w _ _ => Loses.refl w.bus
  · exact fun w key => ⟨rfl, rfl, fun _ _ => find_subscript, fun _ _ => id⟩
  · exact fun w key => ⟨rfl, rfl, fun _ _ => id, fun _ _ => find_subscript⟩
  · exact fun w key => loses_erase w.bus key
  · exact fun w _ _ => Loses.refl w.bus

end EventBus

/-! ### A life of the bus -/

/-- What happens to a bus: a registration, or the closure of a request or of a message
that `to_message(request, false)` decoded. -/
inductive Task where
  | consumer (address : Bytes) (function : MsgCallback)
  | localConsumer (address : Bytes) (function : MsgCallback)
  | request (address : Bytes) (value : Any) (func : MsgCallback) (uuid : Bytes)
      (next : Except Fault ServerID)
  | onMessage (message : ClusteredMessage)

namespace Task

variable {F : Type}

def run (env : Env F) : Task → Action F Unit
  | consumer address function => EventBus.consumer address function
  | localConsumer address function => EventBus.localConsumer address function
  | request address value func uuid next => handleRequest env address value func uuid next
  | onMessage message => processOnTcpMessage env message

/-- An inbound message is not a request. -/
def Decoded : Task → Prop
  | onMessage message => message.request = false
  | _ => True

instance : DecidablePred Decoded := fun t => by
  cases t <;> unfold Decoded <;> infer_instance

/-- The addresses registered in `_consumers`. -/
def registers : Task → List Bytes
  | consumer address _ => [address]
  | _ => []

/-- The keys that a request waits for in `_publishers`. -/
def opens (b : EventBus) : Task → List Bytes
  | request address _ _ uuid (.ok _) =>
    if b.consumersLocal.find address = none then [replyAddress uuid] else []
  | _ => []

end Task

/-- A bus, the addresses that `consumer` was called for, and the keys of `_publishers`
that requests wait for. -/
structure Node where
  bus : EventBus
  registered : List Bytes
  pending : List Bytes

namespace Node

variable {F : Type}

def start (options : EventBusOptions) : Node where
  bus := ⟨options, .empty, .empty, .empty⟩
  registered := []
  pending := []

/-- A task runs, with what user code does in it. -/
def step (encode : ClusteredMessage → Except Fault F) (s : Node) (l : Handlers × Task) :
    Option Node :=
  if l.2.Decoded then
    let bus := (exec (l.2.run ⟨l.1, encode⟩) ⟨s.bus, []⟩).2.bus
    some {
      bus := bus
      registered := s.registered ++ l.2.registers
      pending := (s.pending ++ l.2.opens s.bus).filter fun k => (bus.publishers.find k).isSome }
  else none

end Node

/-- What a task leaves of the bus: a function in a table was there before, or is what
the task registers. -/
structure Gains (t : Task) (b b' : EventBus) : Prop where
  options : b'.options = b.options
  consumers : ∀ k f, b'.consumers.find k = some (.target f) →
    b.consumers.find k = some (.target f) ∨ k ∈ t.registers
  publishers : ∀ k f, b'.publishers.find k = some (.target f) →
    b.publishers.find k = some (.target f) ∨ k ∈ t.opens b

theorem EventBus.Loses.gains {b b' : EventBus} (h : Loses b b') (t : Task) : Gains t b b' :=
  ⟨h.options, fun k f hf => Or.inl (h.consumers k f hf),
    fun k f hf => Or.inl (h.publishers k f hf)⟩

/-- `emplace` adds at one key. -/
theorem find_emplace {t : Table Bytes MsgCallback} {key k : Bytes} {g : MsgCallback} {f : FuncId}
    (h : (t.emplace key g).find k = some (.target f)) :
    t.find k = some (.target f) ∨ k = key := by
  cases hkey : t.find key with
  | some g' => exact Or.inl (by rwa [Table.emplace_of_some hkey] at h)
  | none =>
    rw [Table.emplace_of_none hkey, Table.find_assign] at h
    split_ifs at h with hk
    · exact Or.inr hk
    · exact Or.inl h

/-- **One task.** -/
theorem Task.gains {F : Type} (env : Env F) (t : Task) (w : World F) :
    Gains t w.bus (exec (t.run env) w).2.bus := by
  cases t with
  | consumer address function =>
    refine ⟨rfl, fun k f hf => ?_, fun _ _ => Or.inl⟩
    rcases find_emplace hf with hold | hkey
    · exact Or.inl hold
    · exact Or.inr (List.mem_singleton.2 hkey)
  | localConsumer address function => exact ⟨rfl, fun _ _ => Or.inl, fun _ _ => Or.inl⟩
  | request address value func uuid next =>
    rw [run, exec_handleRequest]
    cases hlocal : w.bus.consumersLocal.find address with
    | some f => exact (loses_processOnTcpMessage env _ w).gains _
    | none =>
      cases next with
      | error e => exact (Loses.refl w.bus).gains _
      | ok server =>
        have hrun := loses_processOnTcpMessage env
          (requestMessage (replyAddress uuid) address server.port server.host value)
          { w with bus :=
            { w.bus with publishers := w.bus.publishers.emplace (replyAddress uuid) func } }
        refine ⟨hrun.options, fun k f hf => Or.inl (hrun.consumers k f hf), fun k f hf => ?_⟩
        rcases find_emplace (hrun.publishers k f hf) with hold | hkey
        · exact Or.inl hold
        · exact Or.inr (by rw [opens, if_pos hlocal]; exact List.mem_singleton.2 hkey)
  | onMessage message => exact (loses_processOnTcpMessage env message w).gains _

namespace Node

variable {F : Type} {encode : ClusteredMessage → Except Fault F}

/-- A function in `_consumers` was registered, and one in `_publishers` is waited for. -/
structure Inv (options : EventBusOptions) (s : Node) : Prop where
  options : s.bus.options = options
  consumers : ∀ k f, s.bus.consumers.find k = some (.target f) → k ∈ s.registered
  publishers : ∀ k f, s.bus.publishers.find k = some (.target f) → k ∈ s.pending

theorem inv_start (options : EventBusOptions) : Inv options (start options) :=
  ⟨rfl, fun _ _ h => by simp [start] at h, fun _ _ h => by simp [start] at h⟩

/-- **One step.** -/
theorem Inv.step {options : EventBusOptions} {s s' : Node} {l : Handlers × Task}
    (h : Inv options s) (hs : s.step encode l = some s') : Inv options s' := by
  have hgains := l.2.gains ⟨l.1, encode⟩ ⟨s.bus, []⟩
  rw [Node.step] at hs
  split_ifs at hs
  obtain rfl := Option.some.inj hs
  refine ⟨hgains.options.trans h.options, fun k f hf => ?_, fun k f hf => ?_⟩
  · rcases hgains.consumers k f hf with hold | hnew
    · exact List.mem_append_left _ (h.consumers k f hold)
    · exact List.mem_append_right _ hnew
  · have hpresent : k ∈ s.pending ++ l.2.opens s.bus := by
      rcases hgains.publishers k f hf with hold | hnew
      · exact List.mem_append_left _ (h.publishers k f hold)
      · exact List.mem_append_right _ hnew
    exact List.mem_filter.2 ⟨hpresent, by rw [hf]; rfl⟩

/-- **Every reachable state.** -/
theorem inv_of_run {options : EventBusOptions} {steps : List (Handlers × Task)} {s : Node}
    (hrun : Machine.run (step encode) (start options) steps = some s) : Inv options s :=
  run_invariant (fun _ _ _ h hs => h.step hs) hrun (inv_start options)

end Node

/-! ### A message that nobody waits for -/

section Stray

variable {F : Type} {env : Env F} {w : World F} {m : ClusteredMessage}

/-- Where there is no function, `operator[]` leaves an empty one. -/
theorem subscript_of_no_target {t : Table Bytes MsgCallback} {key : Bytes}
    (h : ∀ f, t.find key ≠ some (.target f)) :
    (t.subscript key .empty).1 = .empty ∧ (t.subscript key .empty).2.find key = some .empty := by
  cases hfind : t.find key with
  | none =>
    rw [Table.subscript_of_none hfind]
    exact ⟨rfl, Table.find_assign_self t key .empty⟩
  | some g =>
    rw [Table.subscript_of_some hfind]
    cases g with
    | empty => exact ⟨rfl, hfind⟩
    | target f => exact absurd hfind (h f)

/-- **A message that nobody waits for** ends in a call of an empty function, which stays
behind in the table that was asked. -/
theorem exec_stray (hrequest : m.request = false)
    (hconsumer : ∀ f, w.bus.consumers.find m.address ≠ some (.target f))
    (hpublisher : ∀ f, w.bus.publishers.find m.address ≠ some (.target f)) :
    (exec (processOnTcpMessage env m) w).1 = .error .badFunctionCall ∧
      if replyMark <:+: m.address then
        (exec (processOnTcpMessage env m) w).2.bus.publishers.find m.address = some .empty
      else (exec (processOnTcpMessage env m) w).2.bus.consumers.find m.address = some .empty := by
  rw [exec_inbound _ _ _ hrequest]
  split_ifs with hmark
  · obtain ⟨hempty, hfind⟩ := subscript_of_no_target hpublisher
    simp only [processReply, exec_bind, exec_publishersAt, hempty, callPublisher, call]
    exact ⟨rfl, hfind⟩
  · obtain ⟨hempty, hfind⟩ := subscript_of_no_target hconsumer
    simp only [processConsumer, exec_bind, exec_consumersAt, hempty, exec_get, call]
    exact ⟨rfl, hfind⟩

/-- What such a message should do: nothing. -/
structure Harmless (env : Env F) (b : EventBus) (m : ClusteredMessage) : Prop where
  called : (exec (processOnTcpMessage env m) ⟨b, []⟩).1 ≠ .error .badFunctionCall
  consumers : (exec (processOnTcpMessage env m) ⟨b, []⟩).2.bus.consumers = b.consumers
  publishers : (exec (processOnTcpMessage env m) ⟨b, []⟩).2.bus.publishers = b.publishers

end Stray

section Reachable

variable {F : Type} {encode : ClusteredMessage → Except Fault F} {options : EventBusOptions}
  {steps : List (Handlers × Task)} {s : Node} {m : ClusteredMessage}

/-- **No stray message is harmless.**  In every reachable state, a message whose address
was not registered and is not pending calls an empty function, and afterwards its address
cannot be registered any more, as a consumer or as a reply address, whichever it looks
like. -/
theorem stray_message_throws
    (hrun : Machine.run (Node.step encode) (Node.start options) steps = some s)
    (hrequest : m.request = false) (hregistered : m.address ∉ s.registered)
    (hpending : m.address ∉ s.pending) (handlers : Handlers) :
    ¬ Harmless ⟨handlers, encode⟩ s.bus m ∧
      ∀ w', (exec (processOnTcpMessage ⟨handlers, encode⟩ m) ⟨s.bus, []⟩).2 = w' →
        if replyMark <:+: m.address then
          ∀ func, (w'.bus.publishers.emplace m.address func).find m.address = some .empty
        else ∀ function, (w'.bus.consumers.emplace m.address function).find m.address
          = some .empty := by
  have hinv := Node.inv_of_run hrun
  obtain ⟨hthrows, hblocked⟩ := @exec_stray _ ⟨handlers, encode⟩ ⟨s.bus, []⟩ m hrequest
    (fun f hf => hregistered (hinv.consumers _ f hf)) fun f hf =>
      hpending (hinv.publishers _ f hf)
  refine ⟨fun h => h.called hthrows, ?_⟩
  rintro w' rfl
  split_ifs at hblocked ⊢
  · intro func
    rwa [Table.emplace_of_some hblocked]
  · intro function
    rwa [Table.emplace_of_some hblocked]

end Reachable

/-- A message from another node to `address`, as decoded. -/
def inbound (address : Bytes) : ClusteredMessage where
  messageSize := 50
  protocolVersion := 1
  systemCodecId := 9
  send := true
  address := address
  replay := bytes "__vertx.reply.7"
  port := 15701
  host := bytes "10.0.0.2"
  headers := 4
  body := .string (bytes "book")

/-- User code that leaves every message as it is. -/
def idle : Handlers := fun _ m => .ok m

theorem stray_message_throws_orders :
    ¬ Harmless ⟨idle, ClusteredMessage.toString⟩
      (⟨⟨bytes "10.0.0.1", 15701⟩, Table.empty.assign (bytes "billing") (.target (.handler 0)),
        .empty, .empty⟩ : EventBus) (inbound (bytes "orders")) :=
  (@stray_message_throws _ _ ⟨bytes "10.0.0.1", 15701⟩
    [(idle, .consumer (bytes "billing") (.target (.handler 0)))]
    ⟨⟨⟨bytes "10.0.0.1", 15701⟩, Table.empty.assign (bytes "billing") (.target (.handler 0)),
      .empty, .empty⟩, [bytes "billing"], []⟩ _ rfl rfl (by decide) (by decide) idle).1

/-- A message to `orders` comes before the consumer that is registered for `orders`: it
throws, and the consumer is not there when the next message comes. -/
theorem stray_message_blocks :
    (¬ ∀ (options : EventBusOptions) (steps : List (Handlers × Task)) (s : Node)
        (m : ClusteredMessage) (handlers : Handlers),
      Machine.run (Node.step ClusteredMessage.toString) (Node.start options) steps = some s →
      m.request = false → m.address ∉ s.registered → m.address ∉ s.pending →
      Harmless ⟨handlers, ClusteredMessage.toString⟩ s.bus m) ∧
    (Machine.run (Node.step ClusteredMessage.toString) (Node.start ⟨bytes "10.0.0.1", 15701⟩)
        [(idle, .onMessage (inbound (bytes "orders"))),
          (idle, .consumer (bytes "orders") (.target (.handler 0)))]).map
      (fun s => s.bus.consumers.find (bytes "orders")) = some (some .empty) := by
  refine ⟨fun h => ?_, by decide⟩
  have hharmless := h ⟨bytes "10.0.0.1", 15701⟩ [] _ (inbound (bytes "orders")) idle rfl rfl
    (by simp [Node.start]) (by simp [Node.start])
  have hstray := @exec_stray _ ⟨idle, ClusteredMessage.toString⟩
    ⟨(Node.start ⟨bytes "10.0.0.1", 15701⟩).bus, []⟩ (inbound (bytes "orders")) rfl
    (by simp [Node.start]) (by simp [Node.start])
  exact hharmless.called hstray.1

end VertxCpp
