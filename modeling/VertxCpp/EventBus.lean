/-
# `EventBus` of the clustered build

`src/vertx/event_bus_hazeclast.hpp`.  The three tables of the bus, and the
functions that read and write them: `consumer`, `localConsumer`, the closures
that `request` and `onMessage` put in an event loop, and `processOnTcpMessage`,
which both closures end in.

A function runs in `Action`: it changes the bus, leaves effects behind, and may
end in a fault, after which the changes and the effects made so far stay.  The
effects are what the rest of the program sees of it: which functions were called
with which message, which frames were handed to `processStringMessage`, what was
put in the cluster's multimap.

What a call of user code does, what `uuid::generateUUID` and `hz->next` return and
how a message becomes a frame are parameters.  The frame is one so that the same
`processOnTcpMessage` runs on the bytes of `to_string` and on the fields that are
in them.
-/
import VertxCpp.Library.Table
import VertxCpp.Message

namespace VertxCpp

/-- `EventBusOptions`, but for the number of event loops. -/
structure EventBusOptions where
  host : Bytes
  port : Int32
  deriving DecidableEq, Repr

/-- `EventBus`: the options and the tables of functions. -/
structure EventBus where
  options : EventBusOptions
  consumers : Table Bytes MsgCallback
  consumersLocal : Table Bytes MsgCallback
  publishers : Table Bytes MsgCallback

/-- What a function of the bus does to the world around it. -/
inductive Effect (F : Type) where
  | invoke (func : FuncId) (message : ClusteredMessage)
  | processStringMessage (messageStr : F) (addr : Bytes)
  | addSub (address : Bytes) (port : Int32) (host : Bytes)
  deriving DecidableEq

/-- The bus, and what its functions have done so far, oldest first. -/
structure World (F : Type) where
  bus : EventBus
  effects : List (Effect F)

/-- A function of the bus. -/
abbrev Action (F : Type) := ExceptT Fault (StateM (World F))

variable {F : Type} {α β : Type}

/-- Running a function: what it returns or the fault it ends in, and the world after it. -/
def exec (x : Action F α) (w : World F) : Except Fault α × World F := x.run w

namespace EventBus

/-- The closure that `request` or `onMessage` puts in an event loop. -/
inductive LoopTask (F : Type) where
  | request (address : Bytes) (value : Any) (func : MsgCallback)
  | onMessage (request : F)

/-- What a function of the bus relies on: what user code does, and the encoder. -/
structure Env (F : Type) where
  handlers : Handlers
  encode : ClusteredMessage → Except Fault F

def emit (e : Effect F) : Action F Unit :=
  modify fun w => { w with effects := w.effects ++ [e] }

def modifyBus (f : EventBus → EventBus) : Action F Unit := modify fun w => { w with bus := f w.bus }

/-- Something outside the bus that returns or throws. -/
def ofExcept : Except Fault α → Action F α
  | .ok a => pure a
  | .error e => throw e

/-- `f(message)`. -/
def call (handlers : Handlers) (f : MsgCallback) (message : ClusteredMessage) :
    Action F ClusteredMessage :=
  match f with
  | .empty => throw .badFunctionCall
  | .target f => do
    emit (.invoke f message)
    ofExcept (handlers f message)

/-- `_consumers[key]`. -/
def consumersAt (key : Bytes) : Action F MsgCallback := do
  let (f, consumers) := (← get).bus.consumers.subscript key .empty
  modifyBus fun b => { b with consumers }
  return f

/-- `_publishers[key]`. -/
def publishersAt (key : Bytes) : Action F MsgCallback := do
  let (f, publishers) := (← get).bus.publishers.subscript key .empty
  modifyBus fun b => { b with publishers }
  return f

/-- `consumer(address, function)`. -/
def consumer (address : Bytes) (function : MsgCallback) : Action F Unit := do
  modifyBus fun b => { b with consumers := b.consumers.emplace address function }
  let options := (← get).bus.options
  emit (.addSub address options.port options.host)

/-- `localConsumer(address, function)`. -/
def localConsumer (address : Bytes) (function : MsgCallback) : Action F Unit :=
  modifyBus fun b => { b with consumersLocal := b.consumersLocal.emplace address function }

/-- The text that tells a reply's address from a consumer's. -/
def replyMark : Bytes := bytes "__vertx.reply"

/-! `processOnTcpMessage` is cut at its five returns, in the order of the source. -/

/-- A request for a local consumer. -/
def processLocal (env : Env F) (requestMessage : ClusteredMessage) : Action F Unit := do
  let requestMessage ← call env.handlers requestMessage.func requestMessage
  let requestMessage := requestMessage.setBody requestMessage.reply
  let _ ← call env.handlers requestMessage.callbackFunc requestMessage

/-- The function of a reply is called, and its key erased when it has returned. -/
def callPublisher (env : Env F) (f : MsgCallback) (requestMessage : ClusteredMessage)
    (key : Bytes) : Action F Unit := do
  let _ ← call env.handlers f requestMessage
  modifyBus fun b => { b with publishers := b.publishers.erase key }

/-- A request that `next` gave to this node. -/
def processSameNode (env : Env F) (requestMessage : ClusteredMessage) : Action F Unit := do
  let functionInvoke ← consumersAt requestMessage.replay
  let requestMessage ← call env.handlers functionInvoke requestMessage
  let it := requestMessage.address
  match (← get).bus.publishers.find it with
  | none => pure ()
  | some f => callPublisher env f (requestMessage.setBody requestMessage.reply) it

/-- The message whose frame goes out for a request: what comes back comes to this
node. -/
def outgoing (options : EventBusOptions) (requestMessage : ClusteredMessage) : ClusteredMessage :=
  (requestMessage.setPort options.port).setHost options.host

/-- A request for a consumer on another node. -/
def processOtherNode (env : Env F) (requestMessage : ClusteredMessage) (addr : Bytes) :
    Action F Unit := do
  let msg := outgoing (← get).bus.options requestMessage
  let messageStr ← ofExcept (env.encode msg)
  emit (.processStringMessage messageStr addr)

/-- A message to the address of a reply. -/
def processReply (env : Env F) (requestMessage : ClusteredMessage) : Action F Unit := do
  let address := requestMessage.address
  let responseInvoke ← publishersAt address
  callPublisher env responseInvoke requestMessage address

/-- The message whose frame answers an inbound message.  It is made before the
consumer is called, and the consumer does not see it. -/
def responseMessage (options : EventBusOptions) (requestMessage : ClusteredMessage) :
    ClusteredMessage where
  messageSize := 0
  protocolVersion := 1
  systemCodecId := 9
  send := true
  address := requestMessage.address
  replay := requestMessage.replay
  port := options.port
  host := requestMessage.host
  headers := 4
  body := .other "char const*" []

/-- A message to the address of a consumer. -/
def processConsumer (env : Env F) (requestMessage : ClusteredMessage) (addr : Bytes) :
    Action F Unit := do
  let functionInvoke ← consumersAt requestMessage.address
  let response := responseMessage (← get).bus.options requestMessage
  let _ ← call env.handlers functionInvoke requestMessage
  let messageStr ← ofExcept (env.encode response)
  emit (.processStringMessage messageStr addr)

/-- `processOnTcpMessage(request_message)`. -/
def processOnTcpMessage (env : Env F) (requestMessage : ClusteredMessage) : Action F Unit := do
  let addr := tcpAddress requestMessage.host requestMessage.port
  let options := (← get).bus.options
  if requestMessage.request then
    if requestMessage.isLocal then
      processLocal env requestMessage
    else if requestMessage.host = options.host ∧ requestMessage.port = options.port then
      processSameNode env requestMessage
    else
      processOtherNode env requestMessage addr
  else if replyMark <:+: requestMessage.address then
    processReply env requestMessage
  else
    processConsumer env requestMessage addr

/-- What the constructor makes of a request; its first string is the address of the
reply. -/
def requestMessage (uuid address : Bytes) (port : Int32) (host : Bytes) (value : Any) :
    ClusteredMessage where
  messageSize := 0
  protocolVersion := 1
  systemCodecId := 9
  send := true
  address := uuid
  replay := address
  port := port
  host := host
  headers := 4
  body := value
  request := true

/-- `"__vertx.reply." + uuid::generateUUID()`. -/
def replyAddress (uuid : Bytes) : Bytes := bytes "__vertx.reply." ++ uuid

/-- The closure of `request(address, value, func)`, with what `uuid::generateUUID`
and `hz->next` return in it. -/
def handleRequest (env : Env F) (address : Bytes) (value : Any) (func : MsgCallback)
    (uuid : Bytes) (next : Except Fault ServerID) : Action F Unit := do
  let bus := (← get).bus
  match bus.consumersLocal.find address with
  | none =>
    let uuid := replyAddress uuid
    let server ← ofExcept next
    let message := requestMessage uuid address server.port server.host value
    modifyBus fun b => { b with publishers := b.publishers.emplace uuid func }
    processOnTcpMessage env message
  | some f =>
    let message := requestMessage (bytes "__vertx.reply.local") address bus.options.port
      bus.options.host value
    processOnTcpMessage env (message.setFunc f func)

/-- A closure runs: `decode` is `to_message(request, false)`. -/
def LoopTask.run (env : Env F) (decode : F → ClusteredMessage) (uuid : Bytes)
    (next : Except Fault ServerID) : LoopTask F → Action F Unit
  | .request address value func => handleRequest env address value func uuid next
  | .onMessage frame => processOnTcpMessage env (decode frame)

/-! ### Symbolic execution -/

section Exec

variable (w : World F)

@[simp] theorem exec_get : exec (get : Action F (World F)) w = (.ok w, w) := rfl

@[simp] theorem exec_emit (e : Effect F) :
    exec (emit e) w = (.ok (), { w with effects := w.effects ++ [e] }) := rfl

@[simp] theorem exec_modifyBus (f : EventBus → EventBus) :
    exec (modifyBus f) w = (.ok (), { w with bus := f w.bus }) := rfl

@[simp] theorem exec_ofExcept (r : Except Fault α) : exec (ofExcept r : Action F α) w = (r, w) := by
  cases r <;> rfl

/-- A fault ends a function; otherwise what follows runs in the world it left. -/
theorem exec_bind (x : Action F α) (f : α → Action F β) :
    exec (x >>= f) w = match exec x w with
      | (.ok a, w) => exec (f a) w
      | (.error e, w) => (.error e, w) := by
  have hbind : exec (x >>= f) w = ExceptT.bindCont f (exec x w).1 (exec x w).2 := rfl
  rw [hbind]
  obtain ⟨r, w'⟩ := exec x w
  cases r <;> rfl

/-- Dropping what a function returned leaves the world it left. -/
theorem exec_world_pure (r : Except Fault α) :
    (match (r, w) with
      | (.ok _, w) => exec (pure () : Action F Unit) w
      | (.error e, w) => (.error e, w)).2 = w := by
  cases r <;> rfl

@[simp] theorem exec_call_target (handlers : Handlers) (f : FuncId) (m : ClusteredMessage) :
    exec (call handlers (.target f) m) w
      = (handlers f m, { w with effects := w.effects ++ [.invoke f m] }) := by
  rw [call, exec_bind, exec_emit]
  exact exec_ofExcept _ _

@[simp] theorem exec_consumersAt (key : Bytes) :
    exec (consumersAt key) w
      = (.ok (w.bus.consumers.subscript key .empty).1,
          { w with bus :=
            { w.bus with consumers := (w.bus.consumers.subscript key .empty).2 } }) := rfl

@[simp] theorem exec_publishersAt (key : Bytes) :
    exec (publishersAt key) w
      = (.ok (w.bus.publishers.subscript key .empty).1,
          { w with bus :=
            { w.bus with publishers := (w.bus.publishers.subscript key .empty).2 } }) := rfl

variable (env : Env F) (m : ClusteredMessage)

/-- Where a message goes. -/
theorem exec_processOnTcpMessage :
    exec (processOnTcpMessage env m) w
      = if m.request then
          if m.isLocal then exec (processLocal env m) w
          else if m.host = w.bus.options.host ∧ m.port = w.bus.options.port then
            exec (processSameNode env m) w
          else exec (processOtherNode env m (tcpAddress m.host m.port)) w
        else if replyMark <:+: m.address then exec (processReply env m) w
        else exec (processConsumer env m (tcpAddress m.host m.port)) w := by
  simp only [processOnTcpMessage, exec_bind, exec_get]
  split_ifs <;> rfl

/-- A message that is not a request. -/
theorem exec_inbound (hrequest : m.request = false) :
    exec (processOnTcpMessage env m) w
      = if replyMark <:+: m.address then exec (processReply env m) w
        else exec (processConsumer env m (tcpAddress m.host m.port)) w := by
  rw [exec_processOnTcpMessage, hrequest, if_neg (by simp)]

/-- Where a request goes: to a local consumer, or with its reply address registered
wherever `next` says. -/
theorem exec_handleRequest (a : Bytes) (v : Any) (func : MsgCallback) (uuid : Bytes)
    (next : Except Fault ServerID) :
    exec (handleRequest env a v func uuid next) w
      = match w.bus.consumersLocal.find a, next with
        | some f, _ =>
          exec (processOnTcpMessage env ((requestMessage (bytes "__vertx.reply.local") a
            w.bus.options.port w.bus.options.host v).setFunc f func)) w
        | none, .ok server =>
          exec (processOnTcpMessage env
              (requestMessage (replyAddress uuid) a server.port server.host v))
            { w with bus :=
              { w.bus with publishers := w.bus.publishers.emplace (replyAddress uuid) func } }
        | none, .error e => (.error e, w) := by
  simp only [handleRequest, exec_bind, exec_get]
  cases w.bus.consumersLocal.find a with
  | some f => rfl
  | none => cases next <;> simp [exec_bind]

/-- A request for another node changes nothing here and becomes one frame. -/
theorem exec_processOtherNode (addr : Bytes) :
    exec (processOtherNode env m addr) w
      = match env.encode (outgoing w.bus.options m) with
        | .ok messageStr =>
          (.ok (), { w with effects := w.effects ++ [.processStringMessage messageStr addr] })
        | .error e => (.error e, w) := by
  simp only [processOtherNode, exec_bind, exec_get, exec_ofExcept]
  cases env.encode (outgoing w.bus.options m) <;> rfl

/-- A request whose address has a local consumer. -/
theorem exec_handleRequest_local {a : Bytes} {f : MsgCallback}
    (hlocal : w.bus.consumersLocal.find a = some f) (v : Any) (func : MsgCallback) (uuid : Bytes)
    (next : Except Fault ServerID) :
    exec (handleRequest env a v func uuid next) w
      = exec (processLocal env ((requestMessage (bytes "__vertx.reply.local") a w.bus.options.port
          w.bus.options.host v).setFunc f func)) w := by
  rw [exec_handleRequest, hlocal]
  dsimp only
  rw [exec_processOnTcpMessage, if_pos (by rfl), if_pos (by rfl)]

/-- A request that `next` gives to this node. -/
theorem exec_handleRequest_own {a : Bytes} (hlocal : w.bus.consumersLocal.find a = none) (v : Any)
    (func : MsgCallback) (uuid : Bytes) :
    exec (handleRequest env a v func uuid (.ok ⟨w.bus.options.port, w.bus.options.host⟩)) w
      = exec (processSameNode env
            (requestMessage (replyAddress uuid) a w.bus.options.port w.bus.options.host v))
          { w with bus :=
            { w.bus with publishers := w.bus.publishers.emplace (replyAddress uuid) func } } := by
  rw [exec_handleRequest, hlocal]
  dsimp only
  rw [exec_processOnTcpMessage, if_pos (by rfl), if_neg (by simp [requestMessage]),
    if_pos (by exact ⟨rfl, rfl⟩)]

/-- A request that `next` gives to another node. -/
theorem exec_handleRequest_other {a : Bytes} (hlocal : w.bus.consumersLocal.find a = none)
    {server : ServerID}
    (hserver : ¬ (server.host = w.bus.options.host ∧ server.port = w.bus.options.port)) (v : Any)
    (func : MsgCallback) (uuid : Bytes) :
    exec (handleRequest env a v func uuid (.ok server)) w
      = exec (processOtherNode env
            (requestMessage (replyAddress uuid) a server.port server.host v)
            (tcpAddress server.host server.port))
          { w with bus :=
            { w.bus with publishers := w.bus.publishers.emplace (replyAddress uuid) func } } := by
  rw [exec_handleRequest, hlocal]
  dsimp only
  rw [exec_processOnTcpMessage, if_pos (by rfl), if_neg (by simp [requestMessage]),
    if_neg (by exact hserver)]
  rfl

/-- **An inbound message for a consumer.**  The function registered is called, and
the response, which is not the message it was called with, becomes one frame. -/
theorem exec_processConsumer {f : FuncId} (hf : w.bus.consumers.find m.address = some (.target f))
    (addr : Bytes) :
    exec (processConsumer env m addr) w
      = match env.handlers f m with
        | .ok _ =>
          match env.encode (responseMessage w.bus.options m) with
          | .ok messageStr =>
            (.ok (), { w with
              effects := w.effects ++ [.invoke f m] ++ [.processStringMessage messageStr addr] })
          | .error e => (.error e, { w with effects := w.effects ++ [.invoke f m] })
        | .error e => (.error e, { w with effects := w.effects ++ [.invoke f m] }) := by
  simp only [processConsumer, exec_bind, exec_get, exec_consumersAt, Table.subscript_of_some hf,
    exec_call_target]
  cases env.handlers f m with
  | error e => rfl
  | ok m' =>
    simp only [exec_ofExcept]
    cases env.encode (responseMessage w.bus.options m) <;> rfl

end Exec

end EventBus

end VertxCpp
