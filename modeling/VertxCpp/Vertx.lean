/-
# The endpoint a node serves and the one it names

`src/vertx/vertx.h`.  A `VertxOptions` object has a host and a port, and a copy of both
inside its `EventBusOptions`, made by the constructor.  The setters change the one and
not the other: `run` binds what `setHost` and `setPort` were given, and the bus, which
`clusteredVertx` builds from the copy, registers its consumers, marks its requests and
knows itself by what the constructor found.

No step of the bus changes its options (`Node.Inv`), so a node names the endpoint it
serves exactly where the last call of each setter gave back what was there already
(`advertises_iff`).
-/
import VertxCpp.Dispatch
import VertxCpp.Node
import VertxCpp.Remote

namespace VertxCpp

open EventBus Machine Program

/-! ### Options -/

/-- `VertxOptions`; `config` is Hazelcast's, and the number of event loops stands beside
the rest of `eventBusOptions`. -/
structure VertxOptions (C : Type) where
  eventBusOptions : EventBusOptions
  eventBusPoolSize : Int32
  config : C
  workerPoolSize : Int32
  host : Bytes
  port : Int32

/-- A call of a setter. -/
inductive Setter (C : Type) where
  | setHost (host : Bytes)
  | setPort (port : Int32)
  | setWorkerPoolSize (size : Int32)
  | setConfig (config : C)
  | setEventBusPoolSize (size : Int32)

namespace VertxOptions

variable {C : Type}

/-- The constructor, with the number of cores, the host that `setVertxHost` detects and
the port that `setVertxPort` draws. -/
def new (concurrency : Int32) (config : C) (detected : Bytes) (drawn : Int32) :
    VertxOptions C where
  eventBusOptions := ⟨detected, drawn⟩
  eventBusPoolSize := concurrency
  config := config
  workerPoolSize := concurrency
  host := detected
  port := drawn

/-- A setter is called; `prepare` is what `setConfig` does to the configuration it is
given. -/
def set (prepare : C → C) (o : VertxOptions C) : Setter C → VertxOptions C
  | .setHost host => { o with host }
  | .setPort port => { o with port }
  | .setWorkerPoolSize size => { o with workerPoolSize := size }
  | .setConfig config => { o with config := prepare config }
  | .setEventBusPoolSize size => { o with eventBusPoolSize := size }

end VertxOptions

/-- `Vertx`, as far as the event bus goes. -/
structure Vertx (C : Type) where
  options : VertxOptions C
  eventBus : EventBus

namespace Vertx

variable {C : Type}

/-- `clusteredVertx(options)`. -/
def clusteredVertx (options : VertxOptions C) : Vertx C where
  options := options
  eventBus := ⟨options.eventBusOptions, .empty, .empty, .empty⟩

/-- Where `run` binds its TCP servers, one for each worker.  With no worker there is none, and
nothing is bound there: this is the address that they would have. -/
def bound (v : Vertx C) : ServerID := ⟨v.options.port, v.options.host⟩

end Vertx

/-! ### What setters leave -/

section Setters

variable {C : Type} (prepare : C → C)

/-- The argument of the last `setHost`. -/
def lastHost : List (Setter C) → Option Bytes
  | [] => none
  | .setHost host :: setters => some ((lastHost setters).getD host)
  | _ :: setters => lastHost setters

/-- The argument of the last `setPort`. -/
def lastPort : List (Setter C) → Option Int32
  | [] => none
  | .setPort port :: setters => some ((lastPort setters).getD port)
  | _ :: setters => lastPort setters

/-- **After any setters** the host and the port are the last ones set, and the copy is
the one made by the constructor. -/
theorem foldl_set (setters : List (Setter C)) (o : VertxOptions C) :
    (setters.foldl (VertxOptions.set prepare) o).host = (lastHost setters).getD o.host ∧
      (setters.foldl (VertxOptions.set prepare) o).port = (lastPort setters).getD o.port ∧
      (setters.foldl (VertxOptions.set prepare) o).eventBusOptions = o.eventBusOptions := by
  induction setters generalizing o with
  | nil => exact ⟨rfl, rfl, rfl⟩
  | cons setter setters ih =>
    rw [List.foldl_cons]
    obtain ⟨hhost, hport, hoptions⟩ := ih (o.set prepare setter)
    cases setter <;> exact ⟨hhost, hport, hoptions⟩

end Setters

/-! ### The frames of requests -/

section Frames

variable {F : Type}

instance : IsPreorder (World F) fun w w' => handed w'.effects = handed w.effects where
  refl _ := rfl
  trans _ _ _ h h' := h'.trans h

theorem handed_append_invoke (es : List (Effect F)) (f : FuncId) (m : ClusteredMessage) :
    handed (es ++ [.invoke f m]) = handed es := by
  rw [handed_append, handed_invoke, handed_nil, List.append_nil]

/-- A request that stays on this node hands on nothing. -/
theorem handed_processLocal (env : Env F) (m : ClusteredMessage) (w : World F) :
    handed (exec (processLocal env m) w).2.effects = handed w.effects :=
  respects_processLocal (R := fun w w' : World F => handed w'.effects = handed w.effects) env m
    (fun w f m => handed_append_invoke w.effects f m) w

theorem handed_processSameNode (env : Env F) (m : ClusteredMessage) (w : World F) :
    handed (exec (processSameNode env m) w).2.effects = handed w.effects :=
  respects_processSameNode (R := fun w w' : World F => handed w'.effects = handed w.effects) env m
    (fun w f m => handed_append_invoke w.effects f m) (fun _ _ => rfl) (fun _ _ => rfl) w

/-- **What a request hands on** is at most one frame, made from the message that names
this node as the one to reply to. -/
theorem handed_handleRequest (env : Env F) (b : EventBus) (a : Bytes) (v : Any)
    (func : MsgCallback) (uuid : Bytes) (next : Except Fault ServerID) :
    handed (exec (handleRequest env a v func uuid next) ⟨b, []⟩).2.effects = [] ∨
      ∃ server frame, next = .ok server ∧
        ¬ (server.host = b.options.host ∧ server.port = b.options.port) ∧
        env.encode (outgoing b.options
          (requestMessage (replyAddress uuid) a server.port server.host v)) = .ok frame ∧
        handed (exec (handleRequest env a v func uuid next) ⟨b, []⟩).2.effects
          = [(frame, tcpAddress server.host server.port)] := by
  cases hlocal : b.consumersLocal.find a with
  | some f =>
    left
    rw [exec_handleRequest_local _ _ hlocal]
    exact handed_processLocal env _ _
  | none =>
    cases next with
    | error e =>
      left
      rw [exec_handleRequest, hlocal]
      rfl
    | ok server =>
      by_cases hnode : server.host = b.options.host ∧ server.port = b.options.port
      · obtain rfl : server = ⟨b.options.port, b.options.host⟩ := by
          rw [← hnode.1, ← hnode.2]
        left
        rw [exec_handleRequest_own ⟨b, []⟩ env hlocal]
        exact handed_processSameNode env _ _
      · rw [exec_handleRequest_other _ _ hlocal hnode, exec_processOtherNode]
        dsimp only
        cases hencode : env.encode (outgoing b.options
            (requestMessage (replyAddress uuid) a server.port server.host v)) with
        | error e => exact Or.inl rfl
        | ok frame => exact Or.inr ⟨server, frame, rfl, hnode, hencode, rfl⟩

end Frames

/-! ### What a node names -/

/-- The bus names this endpoint, and no other: in the cluster, in the frames of its
requests, and to itself. -/
structure Advertises (endpoint : ServerID) (b : EventBus) : Prop where
  /-- `consumer` registers it in the cluster -/
  registers : ∀ a f, (exec (consumer (F := Bytes) a f) ⟨b, []⟩).2.effects
    = [.addSub a endpoint.port endpoint.host]
  /-- the frames of requests are decoded as coming from it -/
  returnAddress : ∀ handlers a v func uuid next,
    ∀ sent ∈ handed (exec (handleRequest ⟨handlers, ClusteredMessage.toString⟩ a v func uuid next)
      ⟨b, []⟩).2.effects,
    ∀ mem, CStr sent.1 mem →
      (toMessage mem false).1.port = endpoint.port ∧ (toMessage mem false).1.host = endpoint.host
  /-- a request for it stays here -/
  own : ∀ handlers a v func uuid,
    handed (exec (handleRequest ⟨handlers, ClusteredMessage.toString⟩ a v func uuid
      (.ok endpoint)) ⟨b, []⟩).2.effects = []
  /-- a request for another node does not -/
  other : ∀ handlers a v func uuid server, server ≠ endpoint → b.consumersLocal.find a = none →
    ∀ f m, .invoke f m ∉ (exec (handleRequest ⟨handlers, ClusteredMessage.toString⟩ a v func uuid
      (.ok server)) ⟨b, []⟩).2.effects

section Advertises

variable {b : EventBus} {endpoint : ServerID}

/-- The endpoint in a message arrives with its frame. -/
theorem endpoint_arrives {m : ClusteredMessage} {frame : Bytes} {mem : Memory}
    (hstring : m.toString = .ok frame) (hmem : CStr frame mem) :
    (toMessage mem false).1.port = m.port ∧ (toMessage mem false).1.host = m.host := by
  obtain ⟨-, -, hport, hhost, -⟩ := fields_arrive hstring hmem false
  exact ⟨hport, hhost⟩

/-- A bus names the endpoint in its options. -/
theorem advertises_options (b : EventBus) : Advertises ⟨b.options.port, b.options.host⟩ b where
  registers _ _ := rfl
  returnAddress := by
    intro handlers a v func uuid next sent hsent mem hmem
    rcases handed_handleRequest ⟨handlers, ClusteredMessage.toString⟩ b a v func uuid next with
      hnone | ⟨server, frame, -, -, hencode, hone⟩
    · rw [hnone] at hsent
      exact absurd hsent List.not_mem_nil
    · rw [hone] at hsent
      obtain rfl := List.mem_singleton.1 hsent
      exact endpoint_arrives hencode hmem
  own := by
    intro handlers a v func uuid
    rcases handed_handleRequest ⟨handlers, ClusteredMessage.toString⟩ b a v func uuid
      (.ok ⟨b.options.port, b.options.host⟩) with hnone | ⟨server, frame, hnext, hnode, -⟩
    · exact hnone
    · obtain rfl := Except.ok.inj hnext
      exact absurd ⟨rfl, rfl⟩ hnode
  other := by
    intro handlers a v func uuid server hserver hlocal f m hinvoke
    have hnode : ¬ (server.host = b.options.host ∧ server.port = b.options.port) := by
      rintro ⟨hhost, hport⟩
      exact hserver (by rw [← hhost, ← hport])
    rw [exec_handleRequest_other _ _ hlocal hnode, exec_processOtherNode] at hinvoke
    revert hinvoke
    dsimp only
    split <;> simp

/-- **Which endpoint a bus names.** -/
theorem advertises_iff_options :
    Advertises endpoint b ↔ endpoint = ⟨b.options.port, b.options.host⟩ := by
  constructor
  · intro h
    have hregisters := h.registers [] .empty
    have hsame : (exec (consumer (F := Bytes) [] .empty) ⟨b, []⟩).2.effects
      = [.addSub [] b.options.port b.options.host] := rfl
    rw [hsame] at hregisters
    injection hregisters with heffect
    injection heffect with _ hport hhost
    rw [hport, hhost]
  · rintro rfl
    exact advertises_options b

end Advertises

section Setters

variable {C : Type} {prepare : C → C} {concurrency : Int32} {config : C} {detected : Bytes}
  {drawn : Int32} {setters : List (Setter C)}

/-- The program's node: its options as the setters leave them. -/
def configured (prepare : C → C) (concurrency : Int32) (config : C) (detected : Bytes)
    (drawn : Int32) (setters : List (Setter C)) : Vertx C :=
  .clusteredVertx
    (setters.foldl (VertxOptions.set prepare) (.new concurrency config detected drawn))

/-- **A node names the endpoint it serves exactly where the setters of host and port
change nothing.**  Whatever the bus does afterwards, the endpoint bound by `run` is the
one it registers, marks its requests with and knows itself by, if the last call of
`setHost` passed the host that was detected and the last call of `setPort` the port that
was drawn, or there was none. -/
theorem advertises_iff :
    (∀ steps s, Machine.run (Node.step ClusteredMessage.toString)
        ⟨(configured prepare concurrency config detected drawn setters).eventBus, [], []⟩ steps
          = some s →
        Advertises (configured prepare concurrency config detected drawn setters).bound s.bus) ↔
      (lastHost setters).getD detected = detected ∧ (lastPort setters).getD drawn = drawn := by
  obtain ⟨hhost, hport, hoptions⟩ :=
    foldl_set prepare setters (.new concurrency config detected drawn)
  have hbound : (configured prepare concurrency config detected drawn setters).bound
      = ⟨(lastPort setters).getD drawn, (lastHost setters).getD detected⟩ := by
    show (⟨_, _⟩ : ServerID) = _
    exact congrArg₂ ServerID.mk hport hhost
  have hstart : (⟨(configured prepare concurrency config detected drawn setters).eventBus, [], []⟩
      : Node) = Node.start ⟨detected, drawn⟩ := by
    show Node.start (setters.foldl (VertxOptions.set prepare) _).eventBusOptions = _
    rw [hoptions]
    rfl
  rw [hbound, hstart]
  constructor
  · intro h
    have hnamed := advertises_iff_options.1 (h [] _ rfl)
    injection hnamed with hport hhost
    exact ⟨hhost, hport⟩
  · rintro ⟨hhost, hport⟩ steps s hrun
    rw [advertises_iff_options, (Node.inv_of_run hrun).options, hhost, hport]

end Setters

/-- A host is set that is not the one detected: the node is registered under the other. -/
theorem setHost_unnoticed :
    ¬ ∀ setters : List (Setter Unit), ∀ steps s,
      Machine.run (Node.step ClusteredMessage.toString)
        ⟨(configured id 4 () (bytes "192.168.0.7") 34567 setters).eventBus, [], []⟩ steps = some s →
      Advertises (configured id 4 () (bytes "192.168.0.7") 34567 setters).bound s.bus := by
  intro h
  have hnamed := advertises_iff_options.1 (h [.setHost (bytes "10.0.0.9")] [] _ rfl)
  exact absurd hnamed (by decide)

end VertxCpp
