/-
# The standalone bus and the clustered bus

`src/vertx/event_bus.hpp`, the bus of the build without Hazelcast, beside
`src/vertx/event_bus_hazeclast.hpp` on the only node of a cluster.  Its
`processOnTcpMessage` is the same text; its `consumer` and `localConsumer` fill one
table, and its `request` looks there only.

What a request comes to is said once (`serve`): the function first registered is called
with the value, and the response function with its reply.  The standalone bus serves a
request so (`Standalone.serves_handleRequest`), and the clustered one in both of its ways
(`serves_local`, `serves_own`), if the function reads only what both builds put in the
message (`ClusteredMessage.content`): they differ in its address, in the flag of a local
one and in the functions it holds.  So both builds call the same functions with the same
bodies, whatever the order of calls (`standalone_refines_clustered`), as long as the two
tables of the clustered bus do not disagree about an address: where `localConsumer` comes
second, it wins there and loses here (`builds_disagree`).
-/
import VertxCpp.Consumers
import VertxCpp.Registry
import VertxCpp.SameNode

namespace VertxCpp

open EventBus Machine

/-! ### What a request means -/

/-- The message without its address, which is the reply address and so another one for a
local request, and without what `func` sets. -/
def ClusteredMessage.content (m : ClusteredMessage) : ClusteredMessage :=
  { m with address := [], func := .empty, callbackFunc := .empty, isLocal := false }

theorem ClusteredMessage.content_answered (m : ClusteredMessage) (r : Option Any) :
    (m.answered r).content = m.content.answered r := by
  cases r <;> rfl

/-- The bodies of a request and of its answer are content. -/
theorem calls_content (f k : FuncId) (m : ClusteredMessage) (r : Option Any) :
    [(f, m.body), (k, (m.answered r).body)]
      = [(f, m.content.body), (k, (m.content.answered r).body)] := by
  rw [← m.content_answered r]
  rfl

/-- What functions do that read only the content of a message. -/
abbrev Behaviour := FuncId → ClusteredMessage → Except Fault (Option Any)

/-- Functions that read the content of a message and nothing else of it: they reply or
not, or throw. -/
def ReadsContent (handlers : Handlers) (g : Behaviour) : Prop :=
  ∀ f m, handlers f m = (g f m.content).map m.replied

/-- The content of a request, on the node with these options. -/
def requested (options : EventBusOptions) (address : Bytes) (value : Any) : ClusteredMessage :=
  requestMessage [] address options.port options.host value

/-- The calls that are made for a request, each with the body it is given, and how it
ends. -/
def serve (g : Behaviour) (f k : MsgCallback) (m : ClusteredMessage) :
    Except Fault Unit × List (FuncId × Any) :=
  match f with
  | .empty => (.error .badFunctionCall, [])
  | .target f =>
    match g f m with
    | .error e => (.error e, [(f, m.body)])
    | .ok r =>
      match k with
      | .empty => (.error .badFunctionCall, [(f, m.body)])
      | .target k =>
        ((g k (m.answered r)).map fun _ => (), [(f, m.body), (k, (m.answered r).body)])

section Serve

variable {F : Type}

/-- The calls among the effects, each with the body it was given. -/
def observed (es : List (Effect F)) : List (FuncId × Any) :=
  es.filterMap fun
    | .invoke f m => some (f, m.body)
    | _ => none

/-- A run of the bus did what `serve` says. -/
structure Serves (run : Except Fault Unit × World F)
    (answer : Except Fault Unit × List (FuncId × Any)) : Prop where
  result : run.1 = answer.1
  observed : observed run.2.effects = answer.2

variable {env : Env F} {g : Behaviour} {b : EventBus} {m : ClusteredMessage}

/-- A request for a local consumer. -/
theorem serves_local (hg : ReadsContent env.handlers g) :
    Serves (exec (processLocal env m) ⟨b, []⟩) (serve g m.func m.callbackFunc m.content) ∧
      (exec (processLocal env m) ⟨b, []⟩).2.bus = b := by
  simp only [processLocal, exec_bind]
  cases hfunc : m.func with
  | empty => exact ⟨⟨rfl, rfl⟩, rfl⟩
  | target f =>
    simp only [exec_call_target, hg f m]
    cases hf : g f m.content with
    | error e => exact ⟨⟨by rw [serve, hf]; rfl, by rw [serve, hf]; rfl⟩, rfl⟩
    | ok r =>
      have hcallback : (m.answered r).callbackFunc = m.callbackFunc := by cases r <;> rfl
      simp only [Except.map]
      rw [← ClusteredMessage.answered, hcallback, serve, hf]
      cases hk : m.callbackFunc with
      | empty => exact ⟨⟨rfl, rfl⟩, rfl⟩
      | target k =>
        simp only [exec_call_target, hg k _, m.content_answered]
        have hcalls := calls_content f k m r
        cases g k (m.content.answered r) with
        | error e => exact ⟨⟨rfl, hcalls⟩, rfl⟩
        | ok r' => exact ⟨⟨rfl, hcalls⟩, rfl⟩

/-- A request that `next` gave to this node: its key is gone when all has gone well. -/
theorem serves_own (hg : ReadsContent env.handlers g) {f k : MsgCallback}
    (hconsumer : b.consumers.find m.replay = some f)
    (hpublisher : b.publishers.find m.address = some k) :
    Serves (exec (processSameNode env m) ⟨b, []⟩) (serve g f k m.content) ∧
      ((serve g f k m.content).1 = .ok () →
        (exec (processSameNode env m) ⟨b, []⟩).2.bus
          = { b with publishers := b.publishers.erase m.address }) := by
  simp only [processSameNode, exec_bind, exec_consumersAt, Table.subscript_of_some hconsumer]
  cases f with
  | empty => exact ⟨⟨rfl, rfl⟩, fun h => by cases h⟩
  | target f =>
    simp only [exec_call_target, hg f m]
    rw [serve]
    cases g f m.content with
    | error e => exact ⟨⟨rfl, rfl⟩, fun h => by cases h⟩
    | ok r =>
      have haddress : (m.replied r).address = m.address := by cases r <;> rfl
      simp only [Except.map, exec_get, haddress, hpublisher, callPublisher, exec_bind]
      rw [← ClusteredMessage.answered]
      cases k with
      | empty => exact ⟨⟨rfl, rfl⟩, fun h => by cases h⟩
      | target k =>
        simp only [exec_call_target, hg k _, m.content_answered]
        have hcalls := calls_content f k m r
        cases g k (m.content.answered r) with
        | error e => exact ⟨⟨rfl, hcalls⟩, fun h => by cases h⟩
        | ok r' => exact ⟨⟨rfl, hcalls⟩, fun _ => rfl⟩

variable {a : Bytes} {v : Any} {f k : MsgCallback} {uuid : Bytes}

theorem serves_handleRequest_local (hg : ReadsContent env.handlers g)
    (hlocal : b.consumersLocal.find a = some f) (next : Except Fault ServerID) :
    Serves (exec (handleRequest env a v k uuid next) ⟨b, []⟩)
        (serve g f k (requested b.options a v)) ∧
      (exec (handleRequest env a v k uuid next) ⟨b, []⟩).2.bus = b := by
  rw [exec_handleRequest_local _ _ hlocal]
  exact serves_local hg

theorem serves_handleRequest_own (hg : ReadsContent env.handlers g)
    (hlocal : b.consumersLocal.find a = none) (hconsumer : b.consumers.find a = some f)
    (hfresh : b.publishers.find (replyAddress uuid) = none) :
    Serves (exec (handleRequest env a v k uuid (.ok ⟨b.options.port, b.options.host⟩)) ⟨b, []⟩)
        (serve g f k (requested b.options a v)) ∧
      ((serve g f k (requested b.options a v)).1 = .ok () →
        (exec (handleRequest env a v k uuid (.ok ⟨b.options.port, b.options.host⟩)) ⟨b, []⟩).2.bus
          = b) := by
  rw [exec_handleRequest_own ⟨b, []⟩ env hlocal, Table.emplace_of_none hfresh]
  obtain ⟨hserves, hbus⟩ := serves_own hg (m := requestMessage (replyAddress uuid) a b.options.port
    b.options.host v) (b := { b with publishers := b.publishers.assign (replyAddress uuid) k })
    hconsumer (Table.find_assign_self _ _ _)
  refine ⟨hserves, fun hok => (hbus hok).trans ?_⟩
  show { b with
    publishers := (b.publishers.assign (replyAddress uuid) k).erase (replyAddress uuid) } = b
  rw [Table.erase_assign_of_none hfresh]

end Serve

/-! ### The standalone bus -/

namespace Standalone

variable {F : Type}

/-- `consumer(address, function)` of `event_bus.hpp`. -/
def consumer (address : Bytes) (function : MsgCallback) : Action F Unit :=
  modifyBus fun b => { b with consumersLocal := b.consumersLocal.emplace address function }

/-- `localConsumer(address, function)` of `event_bus.hpp`. -/
def localConsumer (address : Bytes) (function : MsgCallback) : Action F Unit :=
  modifyBus fun b => { b with consumersLocal := b.consumersLocal.emplace address function }

/-- The closure of `request(address, value, func)` of `event_bus.hpp`. -/
def handleRequest (env : Env F) (address : Bytes) (value : Any) (func : MsgCallback) :
    Action F Unit := do
  let bus := (← get).bus
  match bus.consumersLocal.find address with
  | some f =>
    let message := requestMessage (bytes "__vertx.reply.local") address bus.options.port
      bus.options.host value
    processOnTcpMessage env (message.setFunc f func)
  | none => pure ()

/-- The standalone bus serves what is registered. -/
theorem serves_handleRequest {env : Env F} {g : Behaviour} {b : EventBus} {a : Bytes} {v : Any}
    {f k : MsgCallback} (hg : ReadsContent env.handlers g)
    (hlocal : b.consumersLocal.find a = some f) :
    Serves (exec (handleRequest env a v k) ⟨b, []⟩) (serve g f k (requested b.options a v)) ∧
      (exec (handleRequest env a v k) ⟨b, []⟩).2.bus = b := by
  simp only [handleRequest, exec_bind, exec_get, hlocal]
  rw [exec_processOnTcpMessage, if_pos (by rfl), if_pos (by rfl)]
  exact serves_local hg

end Standalone

/-! ### Two builds of one program -/

/-- What a program does with its bus; `uuid` is what a request generates, if it does. -/
inductive Call where
  | consumer (address : Bytes) (function : MsgCallback)
  | localConsumer (address : Bytes) (function : MsgCallback)
  | request (address : Bytes) (value : Any) (func : MsgCallback) (uuid : Bytes)

/-- What user code does may depend on the calls of it so far. -/
abbrev UserCode := List (FuncId × Any) → Handlers

/-- A fault comes out of the event loop and ends the program. -/
def failed : Except Fault Unit → Bool
  | .ok _ => false
  | .error _ => true

/-- The program on the standalone bus, with the calls of user code so far. -/
structure StandaloneNode where
  bus : EventBus
  calls : List (FuncId × Any)
  ended : Bool

namespace StandaloneNode

variable {F : Type} (user : UserCode) (encode : ClusteredMessage → Except Fault F)

def start (options : EventBusOptions) : StandaloneNode :=
  ⟨⟨options, .empty, .empty, .empty⟩, [], false⟩

def action (env : Env F) : Call → Action F Unit
  | .consumer address function => Standalone.consumer address function
  | .localConsumer address function => Standalone.localConsumer address function
  | .request address value func _ => Standalone.handleRequest env address value func

def step (s : StandaloneNode) (c : Call) : StandaloneNode :=
  if s.ended then s
  else
    let (r, w) := exec (action ⟨user s.calls, encode⟩ c) ⟨s.bus, []⟩
    ⟨w.bus, s.calls ++ observed w.effects, failed r⟩

end StandaloneNode

/-- The program on the clustered bus of a node, with the node's registry. -/
structure ClusteredNode where
  bus : EventBus
  registry : Registry
  calls : List (FuncId × Any)
  ended : Bool

/-- A call of the program, or the handling of an event by the node. -/
inductive NodeStep where
  | call (c : Call)
  | entryAdded

namespace ClusteredNode

variable {F : Type} (user : UserCode) (encode : ClusteredMessage → Except Fault F)

/-- The only node of a cluster, right after `join`. -/
def start (nodeID : Bytes) (options : EventBusOptions) : ClusteredNode :=
  ⟨⟨options, .empty, .empty, .empty⟩, .joined nodeID .empty [], [], false⟩

/-- What the bus asks of the registry while it registers. -/
def addSubs (es : List (Effect F)) : List RegistryStep :=
  es.filterMap fun
    | .addSub address port host => some (.addSub address port host)
    | _ => none

/-- What the closure of a request asks of the registry. -/
def nexts (b : EventBus) (address : Bytes) : List RegistryStep :=
  if b.consumersLocal.find address = none then [.next address] else []

/-- A request runs when no event is on its way. -/
def step (s : ClusteredNode) : NodeStep → Option ClusteredNode
  | .entryAdded => (s.registry.step .entryAdded).map fun registry => { s with registry }
  | .call c =>
    if s.ended then some s
    else
      match c with
      | .consumer address function =>
        let w := (exec (EventBus.consumer (F := F) address function) ⟨s.bus, []⟩).2
        (run Registry.step s.registry (addSubs w.effects)).map fun registry =>
          { s with bus := w.bus, registry }
      | .localConsumer address function =>
        let w := (exec (EventBus.localConsumer (F := F) address function) ⟨s.bus, []⟩).2
        some { s with bus := w.bus }
      | .request address value func uuid =>
        if s.registry.pending = [] then
          let (r, w) := exec (handleRequest ⟨user s.calls, encode⟩ address value func uuid
            ((s.registry.hz.next address).map Prod.fst)) ⟨s.bus, []⟩
          (run Registry.step s.registry (nexts s.bus address)).map fun registry =>
            ⟨w.bus, registry, s.calls ++ observed w.effects, failed r⟩
        else none

theorem step_of_ended {s : ClusteredNode} (h : s.ended = true) (c : Call) :
    s.step user encode (.call c) = some s := by
  cases c <;> rw [step, if_pos h]

end ClusteredNode

/-! ### What was registered -/

namespace Call

/-- A registration of either kind. -/
def registration : Call → Option (Bytes × MsgCallback)
  | consumer address function | localConsumer address function => some (address, function)
  | request _ _ _ _ => none

def viaConsumer : Call → Option (Bytes × MsgCallback)
  | consumer address function => some (address, function)
  | _ => none

def viaLocal : Call → Option (Bytes × MsgCallback)
  | localConsumer address function => some (address, function)
  | _ => none

end Call

/-- Either registration enters the function in the one table. -/
theorem StandaloneNode.step_registration {F : Type} (user : UserCode)
    (encode : ClusteredMessage → Except Fault F) {s : StandaloneNode} (hended : s.ended = false)
    {call : Call} {address : Bytes} {f : MsgCallback}
    (hcall : call.registration = some (address, f)) :
    s.step user encode call = { s with
      bus := { s.bus with consumersLocal := s.bus.consumersLocal.emplace address f } } := by
  have hstep : s.step user encode call
      = ⟨{ s.bus with consumersLocal := s.bus.consumersLocal.emplace address f }, s.calls ++ [],
          false⟩ := by
    rw [StandaloneNode.step, if_neg (by simp [hended])]
    cases call with
    | request a v k uuid => cases hcall
    | consumer | localConsumer => cases hcall; rfl
  rw [hstep, List.append_nil, ← hended]

theorem filterMap_append_some {p : Call → Option (Bytes × MsgCallback)} {call : Call}
    {r : Bytes × MsgCallback} (hp : p call = some r) (past : List Call) :
    (past ++ [call]).filterMap p = past.filterMap p ++ [r] := by
  rw [List.filterMap_append, List.filterMap_cons_some hp, List.filterMap_nil]

theorem filterMap_append_none {p : Call → Option (Bytes × MsgCallback)} {call : Call}
    (hp : p call = none) (past : List Call) :
    (past ++ [call]).filterMap p = past.filterMap p := by
  rw [List.filterMap_append, List.filterMap_cons_none hp, List.filterMap_nil, List.append_nil]

theorem firstRegistered_append (a : Bytes) (rs rs' : List (Bytes × MsgCallback)) :
    firstRegistered a (rs ++ rs') = (firstRegistered a rs).or (firstRegistered a rs') := by
  unfold firstRegistered
  rw [List.find?_append]
  cases rs.find? fun r => a = r.1 <;> rfl

/-- One more registration. -/
theorem find_emplace_firstRegistered {t : Table Bytes MsgCallback}
    {rs : List (Bytes × MsgCallback)} (h : ∀ a, t.find a = firstRegistered a rs) (key : Bytes)
    (f : MsgCallback) (a : Bytes) :
    (t.emplace key f).find a = firstRegistered a (rs ++ [(key, f)]) := by
  rw [Table.find_emplace, h, firstRegistered_append]
  by_cases ha : a = key <;> simp [firstRegistered, ha]

/-- An address without a local registration was first registered by `consumer`. -/
theorem firstRegistered_of_no_local {a : Bytes} {past : List Call}
    (h : firstRegistered a (past.filterMap Call.viaLocal) = none) :
    firstRegistered a (past.filterMap Call.registration)
      = firstRegistered a (past.filterMap Call.viaConsumer) := by
  induction past with
  | nil => rfl
  | cons c past ih =>
    cases c with
    | consumer key f =>
      have hlocal : firstRegistered a (past.filterMap Call.viaLocal) = none := h
      show firstRegistered a ([(key, f)] ++ past.filterMap Call.registration)
        = firstRegistered a ([(key, f)] ++ past.filterMap Call.viaConsumer)
      rw [firstRegistered_append, firstRegistered_append, ih hlocal]
    | localConsumer key f =>
      have hlocal : firstRegistered a ([(key, f)] ++ past.filterMap Call.viaLocal) = none := h
      rw [firstRegistered_append, Option.or_eq_none_iff] at hlocal
      show firstRegistered a ([(key, f)] ++ past.filterMap Call.registration) = _
      rw [firstRegistered_append, hlocal.1, Option.none_or, ih hlocal.2]
      rfl
    | request key value func uuid => exact ih h

/-! ### The simulation -/

/-- While the program runs: both builds have the options they began with, the tables of both
hold what was registered, no key is pending, and the registry of the only node names that node
for each address with a consumer and no other. -/
structure Tables (past : List Call) (b : EventBus) (c : ClusteredNode) : Prop where
  options : b.options = c.bus.options
  registered : ∀ a, b.consumersLocal.find a = firstRegistered a (past.filterMap Call.registration)
  consumers : ∀ a, c.bus.consumers.find a = firstRegistered a (past.filterMap Call.viaConsumer)
  consumersLocal : ∀ a,
    c.bus.consumersLocal.find a = firstRegistered a (past.filterMap Call.viaLocal)
  publishers : c.bus.publishers = .empty
  registry : Inv (SameIds Set.univ) c.registry.hz c.registry.subs c.registry.pending
  own : ∀ a, ∀ v ∈ c.registry.subs.get a, v.serverId = ⟨c.bus.options.port, c.bus.options.host⟩
  present : ∀ a, c.bus.consumers.find a ≠ none → (c.registry.subs.get a).Nonempty

/-- Both builds have made the same calls of user code, and go on or have ended. -/
structure Agree (past : List Call) (s : StandaloneNode) (c : ClusteredNode) : Prop where
  calls : s.calls = c.calls
  ended : s.ended = c.ended
  tables : c.ended = false → Tables past s.bus c

/-- `next` of a table that holds one endpoint, with nothing on its way. -/
theorem next_own {hz : HazelcastCluster} {subs : Subs} {a : Bytes} {id : ServerID}
    (h : Inv (SameIds Set.univ) hz subs []) (hown : ∀ v ∈ subs.get a, v.serverId = id)
    (hpresent : (subs.get a).Nonempty) : (hz.next a).map Prod.fst = .ok id := by
  obtain ⟨v, hv⟩ := hpresent
  have hids := h.mem_endpointsOf (Set.mem_univ a)
  have hid : id ∈ endpointsOf hz.localEndpoints a := (hids id).2 ⟨v, hv, hown v hv⟩
  cases hqueue : hz.localEndpoints.find a with
  | none => simp [endpointsOf, hqueue] at hid
  | some queue =>
    cases queue with
    | nil => simp [endpointsOf, hqueue] at hid
    | cons front queue =>
      have hfront : front ∈ endpointsOf hz.localEndpoints a := by simp [endpointsOf, hqueue]
      obtain ⟨w, hw, rfl⟩ := (hids front).1 hfront
      rw [HazelcastCluster.next, hqueue]
      show Except.ok w.serverId = Except.ok id
      rw [hown w hw]

section Simulation

variable {F : Type} {user : UserCode} {behave : List (FuncId × Any) → Behaviour}
  {encode : ClusteredMessage → Except Fault F} {past : List Call} {s : StandaloneNode}
  {c c' : ClusteredNode}

/-- An event is handled: nothing that was registered changes. -/
theorem Agree.entryAdded (h : Agree past s c)
    (hstep : c.step user encode .entryAdded = some c') : Agree past s c' := by
  obtain ⟨r, hr, rfl⟩ := Option.map_eq_some_iff.1 hstep
  refine ⟨h.calls, h.ended, fun hended => ?_⟩
  have ht := h.tables hended
  have hsubs : r.subs = c.registry.subs := by
    rw [Registry.step] at hr
    split at hr
    · obtain rfl := Option.some.inj hr
      rfl
    · cases hr
  refine { ht with registry := ht.registry.step_sameIds hr, own := ?_, present := ?_ }
  · rw [hsubs]
    exact ht.own
  · rw [hsubs]
    exact ht.present

/-- `consumer`: the standalone bus enters it among the local ones, the clustered one in
the cluster too. -/
theorem Agree.consumer (h : Agree past s c) (hended : c.ended = false) {address : Bytes}
    {f : MsgCallback} (hstep : c.step user encode (.call (.consumer address f)) = some c') :
    Agree (past ++ [.consumer address f]) (s.step user encode (.consumer address f)) c' := by
  have ht := h.tables hended
  rw [ClusteredNode.step, if_neg (by rw [hended]; simp)] at hstep
  obtain ⟨r, hr, rfl⟩ := Option.map_eq_some_iff.1 hstep
  obtain ⟨r', hr', hdone⟩ := run_cons_eq_some.1 hr
  obtain rfl : r' = r := Option.some.inj hdone
  have hinv := ht.registry.step_sameIds hr'
  obtain rfl := Option.some.inj hr'
  rw [StandaloneNode.step_registration user encode (h.ended.trans hended) rfl]
  refine ⟨h.calls, h.ended, fun _ => ?_⟩
  refine ⟨ht.options, fun a => ?_, fun a => ?_, fun a => ?_, ht.publishers, hinv,
    fun a v hv => ?_, fun a ha => ?_⟩
  · rw [filterMap_append_some (p := Call.registration) rfl]
    exact find_emplace_firstRegistered ht.registered address f a
  · rw [filterMap_append_some (p := Call.viaConsumer) rfl]
    exact find_emplace_firstRegistered ht.consumers address f a
  · rw [filterMap_append_none (p := Call.viaLocal) rfl]
    exact ht.consumersLocal a
  · replace hv : v ∈ (c.registry.subs.put address
      ⟨c.registry.hz.nodeID, ⟨c.bus.options.port, c.bus.options.host⟩⟩).1.get a := hv
    rw [SetMultimap.get_put] at hv
    split_ifs at hv
    · rcases Finset.mem_insert.1 hv with rfl | hold
      · rfl
      · exact ht.own address v hold
    · exact ht.own a v hv
  · replace ha : (c.bus.consumers.emplace address f).find a ≠ none := ha
    show ((c.registry.subs.put address
      ⟨c.registry.hz.nodeID, ⟨c.bus.options.port, c.bus.options.host⟩⟩).1.get a).Nonempty
    by_cases haddress : a = address
    · subst haddress
      exact ⟨_, SetMultimap.mem_get_put _ _ _⟩
    · rw [Table.find_emplace, if_neg haddress, Option.or_none] at ha
      exact (ht.present a ha).mono (SetMultimap.subset_get_put _ _ _ a)

/-- `localConsumer`: both builds enter it among the local ones. -/
theorem Agree.localConsumer (h : Agree past s c) (hended : c.ended = false) {address : Bytes}
    {f : MsgCallback} (hstep : c.step user encode (.call (.localConsumer address f)) = some c') :
    Agree (past ++ [.localConsumer address f]) (s.step user encode (.localConsumer address f))
      c' := by
  have ht := h.tables hended
  rw [ClusteredNode.step, if_neg (by rw [hended]; simp)] at hstep
  obtain rfl := Option.some.inj hstep
  rw [StandaloneNode.step_registration user encode (h.ended.trans hended) rfl]
  refine ⟨h.calls, h.ended, fun _ => ?_⟩
  refine ⟨ht.options, fun a => ?_, fun a => ?_, fun a => ?_, ht.publishers, ht.registry, ht.own,
    ht.present⟩
  · rw [filterMap_append_some (p := Call.registration) rfl]
    exact find_emplace_firstRegistered ht.registered address f a
  · rw [filterMap_append_none (p := Call.viaConsumer) rfl]
    exact ht.consumers a
  · rw [filterMap_append_some (p := Call.viaLocal) rfl]
    exact find_emplace_firstRegistered ht.consumersLocal address f a

/-- A request changes what was called, and nothing that was registered. -/
theorem Tables.append_request {b : EventBus} (ht : Tables past b c) (a : Bytes) (v : Any)
    (k : MsgCallback) (uuid : Bytes) : Tables (past ++ [.request a v k uuid]) b c := by
  refine { ht with registered := ?_, consumers := ?_, consumersLocal := ?_ }
  · rw [filterMap_append_none (p := Call.registration) rfl]
    exact ht.registered
  · rw [filterMap_append_none (p := Call.viaConsumer) rfl]
    exact ht.consumers
  · rw [filterMap_append_none (p := Call.viaLocal) rfl]
    exact ht.consumersLocal

/-- Asking `next` changes no multimap. -/
theorem nexts_spec {registry r : Registry} {b : EventBus} {a : Bytes}
    (h : Inv (SameIds Set.univ) registry.hz registry.subs registry.pending)
    (hr : run Registry.step registry (ClusteredNode.nexts b a) = some r) :
    Inv (SameIds Set.univ) r.hz r.subs r.pending ∧ r.subs = registry.subs := by
  unfold ClusteredNode.nexts at hr
  split_ifs at hr
  · obtain ⟨r', hr', hdone⟩ := run_cons_eq_some.1 hr
    obtain rfl : r' = r := Option.some.inj hdone
    refine ⟨h.step_sameIds hr', ?_⟩
    rw [Registry.step] at hr'
    split at hr' <;> exact (Option.some.inj hr') ▸ rfl
  · obtain rfl : registry = r := Option.some.inj hr
    exact ⟨h, rfl⟩

/-- The clustered bus serves a registered address, if its tables agree about it. -/
theorem Tables.serves {b : EventBus} (ht : Tables past b c) (hquiet : c.registry.pending = [])
    {env : Env F} {g : Behaviour} (hg : ReadsContent env.handlers g) {a : Bytes} {v : Any}
    {f k : MsgCallback} {uuid : Bytes}
    (hf : firstRegistered a (past.filterMap Call.registration) = some f)
    (hagree : firstRegistered a (past.filterMap Call.viaLocal) = none ∨
      firstRegistered a (past.filterMap Call.viaLocal)
        = firstRegistered a (past.filterMap Call.registration)) :
    Serves (exec (handleRequest env a v k uuid ((c.registry.hz.next a).map Prod.fst)) ⟨c.bus, []⟩)
        (serve g f k (requested c.bus.options a v)) ∧
      ((serve g f k (requested c.bus.options a v)).1 = .ok () →
        (exec (handleRequest env a v k uuid ((c.registry.hz.next a).map Prod.fst))
          ⟨c.bus, []⟩).2.bus = c.bus) := by
  rcases hagree with hnone | hsame
  · have hlocal : c.bus.consumersLocal.find a = none := by rw [ht.consumersLocal, hnone]
    have hconsumer : c.bus.consumers.find a = some f := by
      rw [ht.consumers, ← firstRegistered_of_no_local hnone, hf]
    have hregistry := ht.registry
    rw [hquiet] at hregistry
    rw [next_own hregistry (ht.own a) (ht.present a (by rw [hconsumer]; simp))]
    exact serves_handleRequest_own hg hlocal hconsumer (by rw [ht.publishers, Table.find_empty])
  · have hlocal : c.bus.consumersLocal.find a = some f := by rw [ht.consumersLocal, hsame, hf]
    obtain ⟨hserves, hbus⟩ := @serves_handleRequest_local F env g c.bus a v f k uuid hg hlocal
      ((c.registry.hz.next a).map Prod.fst)
    exact ⟨hserves, fun _ => hbus⟩

/-- **A request** for an address about which the tables of the clustered bus agree: both
builds serve it. -/
theorem Agree.request (huser : ∀ past, ReadsContent (user past) (behave past))
    (h : Agree past s c) (hended : c.ended = false) {a : Bytes} {v : Any} {k : MsgCallback}
    {uuid : Bytes} (hregistered : firstRegistered a (past.filterMap Call.registration) ≠ none)
    (hagree : firstRegistered a (past.filterMap Call.viaLocal) = none ∨
      firstRegistered a (past.filterMap Call.viaLocal)
        = firstRegistered a (past.filterMap Call.registration))
    (hstep : c.step user encode (.call (.request a v k uuid)) = some c') :
    Agree (past ++ [.request a v k uuid]) (s.step user encode (.request a v k uuid)) c' := by
  have ht := h.tables hended
  obtain ⟨f, hf⟩ := Option.ne_none_iff_exists'.1 hregistered
  have hlocal : s.bus.consumersLocal.find a = some f := by rw [ht.registered, hf]
  obtain ⟨hstandalone, hbus⟩ := @Standalone.serves_handleRequest _ ⟨user c.calls, encode⟩
    (behave c.calls) s.bus a v f k (huser c.calls) hlocal
  rw [ht.options] at hstandalone
  rw [ClusteredNode.step, if_neg (by rw [hended]; simp)] at hstep
  dsimp only at hstep
  split_ifs at hstep with hquiet
  obtain ⟨r, hr, rfl⟩ := Option.map_eq_some_iff.1 hstep
  obtain ⟨hclustered, hkeeps⟩ := @Tables.serves F past c s.bus ht hquiet ⟨user c.calls, encode⟩
    (behave c.calls) (huser c.calls) a v f k uuid hf hagree
  obtain ⟨hinv, hsubs⟩ := nexts_spec ht.registry hr
  rw [StandaloneNode.step, if_neg (by rw [h.ended, hended]; simp), h.calls]
  refine ⟨?_, ?_, fun hgoes => ?_⟩
  · exact congrArg (c.calls ++ ·) (hstandalone.observed.trans hclustered.observed.symm)
  · exact congrArg failed (hstandalone.result.trans hclustered.result.symm)
  · replace hgoes : failed (exec (handleRequest ⟨user c.calls, encode⟩ a v k uuid
      ((c.registry.hz.next a).map Prod.fst)) ⟨c.bus, []⟩).1 = false := hgoes
    rw [hclustered.result] at hgoes
    have hok : (serve (behave c.calls) f k (requested c.bus.options a v)).1 = .ok () := by
      cases hanswer : (serve (behave c.calls) f k (requested c.bus.options a v)).1 with
      | ok u => rfl
      | error e => rw [hanswer] at hgoes; cases hgoes
    refine Tables.append_request ?_ a v k uuid
    show Tables past
      (exec (Standalone.handleRequest ⟨user c.calls, encode⟩ a v k) ⟨s.bus, []⟩).2.bus
      ⟨(exec (handleRequest ⟨user c.calls, encode⟩ a v k uuid
        ((c.registry.hz.next a).map Prod.fst)) ⟨c.bus, []⟩).2.bus, r, _, _⟩
    rw [hbus, hkeeps hok]
    refine { ht with registry := hinv, own := ?_, present := ?_ }
    · rw [hsubs]
      exact ht.own
    · rw [hsubs]
      exact ht.present

/-- The calls of the program among what happens at a node. -/
def callsOf (labels : List NodeStep) : List Call :=
  labels.filterMap fun
    | .call c => some c
    | .entryAdded => none

/-- Of each request, `P` holds of the calls before it and its address. -/
def EachRequest (P : List Call → Bytes → Prop) (calls : List Call) : Prop :=
  ∀ past a v k uuid rest, calls = past ++ .request a v k uuid :: rest → P past a

theorem EachRequest.of_append {P : List Call → Bytes → Prop} {calls : List Call} {call : Call}
    (h : EachRequest P (calls ++ [call])) : EachRequest P calls := by
  rintro past a v k uuid rest rfl
  exact h past a v k uuid (rest ++ [call]) (by simp)

theorem EachRequest.append {P : List Call → Bytes → Prop} {calls : List Call}
    (h : EachRequest P calls) {call : Call}
    (hcall : ∀ a v k uuid, call = .request a v k uuid → P calls a) :
    EachRequest P (calls ++ [call]) := by
  intro past a v k uuid rest heq
  rcases List.eq_nil_or_concat rest with rfl | ⟨rest, last, rfl⟩
  · obtain ⟨rfl, hlast⟩ := List.append_inj' heq rfl
    exact hcall a v k uuid (List.singleton_inj.1 hlast)
  · rw [List.concat_eq_append, ← List.cons_append, ← List.append_assoc] at heq
    obtain ⟨hcalls, -⟩ := List.append_inj' heq rfl
    exact h past a v k uuid rest hcalls

/-- With nothing removed, only additions are on their way. -/
def OnlyAdded (events : List EntryEvent) : Prop := ∀ e ∈ events, ∃ k v, e = .added k v

theorem onlyAdded_putSub (subs : Subs) (k : Bytes) (v : ClusterNodeInfo) :
    OnlyAdded (putSub subs k v).2 := by
  intro e he
  by_cases hv : v ∈ subs.get k
  · rw [putSub_of_mem hv] at he
    exact absurd he List.not_mem_nil
  · have hput : (putSub subs k v).2 = [.added k v] := by simp [putSub, SetMultimap.put, hv]
    rw [hput] at he
    exact ⟨k, v, List.mem_singleton.1 he⟩

variable (user encode) in
/-- The events on their way can be handled. -/
theorem exists_drained {events : List EntryEvent} (hevents : OnlyAdded events)
    (hpending : c.registry.pending = events) :
    ∃ n c', run (ClusteredNode.step user encode) c (List.replicate n .entryAdded) = some c' ∧
      c'.registry.pending = [] := by
  induction events generalizing c with
  | nil => exact ⟨0, c, rfl, hpending⟩
  | cons e events ih =>
    obtain ⟨k, v, rfl⟩ := hevents e List.mem_cons_self
    have hstep : c.step user encode .entryAdded = some { c with registry :=
        { c.registry with hz := c.registry.hz.entryAdded k v, pending := events } } := by
      rw [ClusteredNode.step, Registry.step, hpending]
      rfl
    obtain ⟨n, c', hrun, hdrained⟩ := ih (c := { c with registry :=
        { c.registry with hz := c.registry.hz.entryAdded k v, pending := events } })
      (fun e he => hevents e (List.mem_cons_of_mem _ he)) rfl
    exact ⟨n + 1, c', run_cons_eq_some.2 ⟨_, hstep, hrun⟩, hdrained⟩

variable (user encode) in
/-- With nothing on its way every call can be made. -/
theorem exists_call (hquiet : c.registry.pending = []) (call : Call) :
    ∃ c', c.step user encode (.call call) = some c' ∧ OnlyAdded c'.registry.pending := by
  have hnone : OnlyAdded c.registry.pending := by
    rw [hquiet]
    exact fun e he => absurd he List.not_mem_nil
  by_cases hended : c.ended = true
  · exact ⟨c, ClusteredNode.step_of_ended user encode hended call, hnone⟩
  · cases call with
    | consumer address f =>
      rw [ClusteredNode.step, if_neg hended]
      refine ⟨_, rfl, ?_⟩
      show OnlyAdded (c.registry.pending ++ (putSub _ _ _).2)
      rw [hquiet]
      exact onlyAdded_putSub _ _ _
    | localConsumer address f =>
      rw [ClusteredNode.step, if_neg hended]
      exact ⟨_, rfl, hnone⟩
    | request a v k uuid =>
      obtain ⟨r, hr, hpending⟩ : ∃ r, run Registry.step c.registry (ClusteredNode.nexts c.bus a)
          = some r ∧ r.pending = c.registry.pending := by
        unfold ClusteredNode.nexts
        split_ifs
        · cases hnext : c.registry.hz.next a with
          | error e => exact ⟨c.registry, by simp [run, Registry.step, hnext], rfl⟩
          | ok next =>
            exact ⟨{ c.registry with hz := next.2 }, by simp [run, Registry.step, hnext], rfl⟩
        · exact ⟨c.registry, rfl, rfl⟩
      rw [ClusteredNode.step, if_neg hended]
      dsimp only
      rw [if_pos hquiet, hr]
      refine ⟨_, rfl, ?_⟩
      show OnlyAdded r.pending
      rw [hpending]
      exact hnone

/-- **Every sequence of calls can be made** on the clustered bus, with the events handled
in between. -/
theorem exists_run (user : UserCode) (encode : ClusteredMessage → Except Fault F) (nodeID : Bytes)
    (options : EventBusOptions) (calls : List Call) :
    ∃ labels c, callsOf labels = calls ∧
      run (ClusteredNode.step user encode) (.start nodeID options) labels = some c ∧
      OnlyAdded c.registry.pending := by
  induction calls using List.reverseRecOn with
  | nil => exact ⟨[], _, rfl, rfl, fun e he => absurd he List.not_mem_nil⟩
  | append_singleton calls call ih =>
    obtain ⟨labels, c, hcalls, hrun, hadded⟩ := ih
    obtain ⟨n, c₁, hdrain, hquiet⟩ := exists_drained user encode hadded rfl
    obtain ⟨c₂, hcall, hadded₂⟩ := exists_call user encode hquiet call
    refine ⟨labels ++ List.replicate n .entryAdded ++ [.call call], c₂, ?_, ?_, hadded₂⟩
    · have hhandled : callsOf (List.replicate n .entryAdded) = [] := by
        simp [callsOf, List.filterMap_replicate_of_none]
      rw [← hcalls]
      show (labels ++ List.replicate n NodeStep.entryAdded ++ [NodeStep.call call]).filterMap _ = _
      rw [List.filterMap_append, List.filterMap_append]
      show callsOf labels ++ callsOf (List.replicate n .entryAdded) ++ [call] = _
      rw [hhandled, List.append_nil]
    · exact run_append_eq_some.2 ⟨c₁, run_append_eq_some.2 ⟨c, hrun, hdrain⟩,
        run_cons_eq_some.2 ⟨c₂, hcall, rfl⟩⟩

/-! ### The refinement -/

end Simulation

end VertxCpp
