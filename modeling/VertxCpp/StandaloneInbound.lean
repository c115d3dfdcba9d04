/-
# What the standalone bus finds

The bus of `src/vertx/event_bus.hpp` (`Standalone`) with the messages that come in over the
TCP server, which `Vertx::run` starts in this build too.

Both registrations enter their function in `_consumersLocal`, and `request` looks there.  But
the consumer of an inbound message is looked for in `_consumers`, as in the clustered build,
and in this one nothing fills that table nor `_publishers` (`Standalone.Inv`).  So a request
of the program calls the function first registered for its address (`request_finds`), and a
message from outside calls an empty one, whatever was registered (`inbound_finds_nothing`).
-/
import VertxCpp.Addressing
import VertxCpp.Node
import VertxCpp.Standalone

namespace VertxCpp

open EventBus Machine

namespace Standalone

/-- What happens to the bus: a call of the program, or an inbound message as decoded. -/
inductive Step where
  | call (c : Call)
  | onMessage (message : ClusteredMessage)

/-- No function is registered. -/
def start (options : EventBusOptions) : EventBus := ⟨options, .empty, .empty, .empty⟩

/-- A step, with what user code does in it.  A fault does not stop what comes later. -/
def step {F : Type} (encode : ClusteredMessage → Except Fault F) (b : EventBus)
    (l : Handlers × Step) : Option EventBus :=
  match l.2 with
  | .call c => some (exec (StandaloneNode.action ⟨l.1, encode⟩ c) ⟨b, []⟩).2.bus
  | .onMessage message =>
    if message.request then none
    else some (exec (processOnTcpMessage ⟨l.1, encode⟩ message) ⟨b, []⟩).2.bus

/-- The registrations of a run, of either kind, in their order. -/
def registrations (labels : List (Handlers × Step)) : List (Bytes × MsgCallback) :=
  labels.filterMap fun l => match l.2 with
    | .call c => c.registration
    | .onMessage _ => none

/-- The function is called once, with the body of the message, and no other function, an
empty one included. -/
structure Dispatched {F : Type} (run : Except Fault Unit × World F) (f : Option MsgCallback)
    (m : ClusteredMessage) : Prop where
  once : ∃ g, f = some (.target g) ∧ observed run.2.effects = [(g, m.body)]
  notEmpty : run.1 ≠ .error .badFunctionCall

/-! ### Which table holds what -/

/-- After the registrations `rs`, `_consumersLocal` has the first of each address, and the
other tables have none. -/
structure Inv (rs : List (Bytes × MsgCallback)) (b : EventBus) : Prop where
  consumersLocal : ∀ a, b.consumersLocal.find a = firstRegistered a rs
  consumers : ∀ k f, b.consumers.find k ≠ some (.target f)
  publishers : ∀ k f, b.publishers.find k ≠ some (.target f)

theorem inv_start (options : EventBusOptions) : Inv [] (start options) := by
  refine ⟨fun _ => rfl, ?_, ?_⟩ <;> simp [start]

section Runs

variable {F : Type} {env : Env F} {encode : ClusteredMessage → Except Fault F}
  {rs : List (Bytes × MsgCallback)} {b b' : EventBus} {l : Handlers × Step}
  {labels : List (Handlers × Step)} {options : EventBusOptions}

/-- What adds no function keeps the invariant. -/
theorem Inv.loses (h : Inv rs b) (hloses : Loses b b') : Inv rs b' := by
  refine ⟨fun a => ?_, fun k f hf => ?_, fun k f hf => ?_⟩
  · rw [hloses.consumersLocal]
    exact h.consumersLocal a
  · exact h.consumers k f (hloses.consumers k f hf)
  · exact h.publishers k f (hloses.publishers k f hf)

/-- A registration of either kind. -/
theorem Inv.register (h : Inv rs b) (a : Bytes) (f : MsgCallback) :
    Inv (rs ++ [(a, f)]) { b with consumersLocal := b.consumersLocal.emplace a f } :=
  ⟨find_emplace_firstRegistered h.consumersLocal a f, h.consumers, h.publishers⟩

/-- A request of the program goes to the function that is registered, or nowhere. -/
theorem exec_request (a : Bytes) (v : Any) (k : MsgCallback) (w : World F) :
    exec (handleRequest env a v k) w
      = match w.bus.consumersLocal.find a with
        | some f => exec (processOnTcpMessage env ((requestMessage (bytes "__vertx.reply.local") a
            w.bus.options.port w.bus.options.host v).setFunc f k)) w
        | none => (.ok (), w) := by
  simp only [handleRequest, exec_bind, exec_get]
  cases w.bus.consumersLocal.find a <;> rfl

/-- **One step.** -/
theorem Inv.step (h : Inv rs b) (hb : step encode b l = some b') :
    Inv (rs ++ registrations [l]) b' := by
  obtain ⟨handlers, s⟩ := l
  cases s with
  | onMessage message =>
    unfold Standalone.step at hb
    dsimp only at hb
    split_ifs at hb
    obtain rfl := Option.some.inj hb
    rw [registrations, List.filterMap_cons_none rfl, List.filterMap_nil, List.append_nil]
    exact h.loses (loses_processOnTcpMessage _ message ⟨b, []⟩)
  | call c =>
    obtain rfl := Option.some.inj hb
    cases c with
    | consumer a f => exact h.register a f
    | localConsumer a f => exact h.register a f
    | request a v k uuid =>
      rw [registrations, List.filterMap_cons_none rfl, List.filterMap_nil, List.append_nil,
        StandaloneNode.action, exec_request]
      split
      · exact h.loses (loses_processOnTcpMessage _ _ ⟨b, []⟩)
      · exact h

/-- **Every run.** -/
theorem Inv.of_run (h : Inv rs b) (hrun : Machine.run (Standalone.step encode) b labels = some b') :
    Inv (rs ++ registrations labels) b' := by
  induction labels generalizing rs b with
  | nil =>
    obtain rfl := Option.some.inj hrun
    rwa [registrations, List.filterMap_nil, List.append_nil]
  | cons l labels ih =>
    obtain ⟨r, hr, hrt⟩ := run_cons_eq_some.1 hrun
    have hall := ih (h.step hr) hrt
    rwa [List.append_assoc, registrations, registrations, ← List.filterMap_append,
      List.singleton_append, ← registrations] at hall

theorem inv_of_run (hrun : Machine.run (step encode) (start options) labels = some b) :
    Inv (registrations labels) b := (inv_start options).of_run hrun

/-- **The program's own requests find** the function first registered. -/
theorem request_finds (hrun : Machine.run (step encode) (start options) labels = some b)
    {a : Bytes} {f : FuncId} (hf : firstRegistered a (registrations labels) = some (.target f))
    (v : Any) (k : MsgCallback) :
    ∃ m, (exec (handleRequest env a v k) ⟨b, []⟩).2.effects.head? = some (.invoke f m) ∧
      m.body = v := by
  rw [exec_request, (inv_of_run hrun).consumersLocal, hf]
  dsimp only
  rw [exec_processOnTcpMessage, if_pos (by rfl), if_pos (by rfl), head?_processLocal]
  exact ⟨_, rfl, rfl⟩

/-- A message for a consumer where `_consumers` has none calls nothing. -/
theorem Inv.calls_nothing (h : Inv rs b) {m : ClusteredMessage} (hrequest : m.request = false)
    (hmark : ¬ replyMark <:+: m.address) :
    (exec (processOnTcpMessage env m) ⟨b, []⟩).1 = .error .badFunctionCall ∧
      (exec (processOnTcpMessage env m) ⟨b, []⟩).2.effects = [] := by
  refine ⟨(exec_stray hrequest (h.consumers _) (h.publishers _)).1, ?_⟩
  rw [exec_inbound _ _ _ hrequest, if_neg hmark, ← List.head?_eq_none_iff, head?_processConsumer,
    (subscript_of_no_target (h.consumers _)).1]
  rfl

/-- **No inbound message finds** the function first registered, after any calls and messages:
an empty function is called, and no other. -/
theorem inbound_finds_nothing
    (hrun : Machine.run (step encode) (start options) labels = some b) {m : ClusteredMessage}
    (hrequest : m.request = false) (hmark : ¬ replyMark <:+: m.address) (handlers : Handlers) :
    ¬ Dispatched (exec (processOnTcpMessage ⟨handlers, encode⟩ m) ⟨b, []⟩)
        (firstRegistered m.address (registrations labels)) m ∧
      (exec (processOnTcpMessage ⟨handlers, encode⟩ m) ⟨b, []⟩).1 = .error .badFunctionCall ∧
      (exec (processOnTcpMessage ⟨handlers, encode⟩ m) ⟨b, []⟩).2.effects = [] := by
  obtain ⟨hempty, hnone⟩ := @Inv.calls_nothing F ⟨handlers, encode⟩ _ b (inv_of_run hrun) m
    hrequest hmark
  exact ⟨fun h => h.notEmpty hempty, hempty, hnone⟩

end Runs

/-- The consumer of `orders` is registered. -/
def ordersRegistered : List (Handlers × Step) :=
  [(idle, .call (.consumer (bytes "orders") (.target (.handler 0))))]

/-- The bus behind it. -/
def ordersBus : EventBus where
  options := ⟨bytes "10.0.0.1", 15701⟩
  consumers := .empty
  consumersLocal := Table.empty.assign (bytes "orders") (.target (.handler 0))
  publishers := .empty

/-- A request of the program finds the consumer of `orders`, and a message does not. -/
theorem inbound_finds_nothing_orders :
    (∃ m, (exec (handleRequest ⟨idle, ClusteredMessage.toString⟩ (bytes "orders")
        (.string (bytes "book")) .empty) ⟨ordersBus, []⟩).2.effects.head?
          = some (.invoke (.handler 0) m) ∧ m.body = .string (bytes "book")) ∧
    ¬ Dispatched (exec (processOnTcpMessage ⟨idle, ClusteredMessage.toString⟩
        (inbound (bytes "orders"))) ⟨ordersBus, []⟩)
      (some (.target (.handler 0))) (inbound (bytes "orders")) := by
  have hrun : Machine.run (step ClusteredMessage.toString) (start ⟨bytes "10.0.0.1", 15701⟩)
      ordersRegistered = some ordersBus := rfl
  obtain ⟨hunfound, -⟩ := inbound_finds_nothing hrun (m := inbound (bytes "orders")) rfl
    (by decide) idle
  exact ⟨request_finds hrun (by decide) _ _, hunfound⟩

/-- A message for `orders` does not find the consumer that is registered for it. -/
theorem registered_consumer_not_found :
    ¬ ∀ (options : EventBusOptions) (labels : List (Handlers × Step)) (b : EventBus)
        (m : ClusteredMessage) (f : MsgCallback) (handlers : Handlers),
      Machine.run (step ClusteredMessage.toString) (start options) labels = some b →
      m.request = false → ¬ replyMark <:+: m.address →
      (∃ l ∈ labels, l.2 = .call (.consumer m.address f)) →
      Dispatched (exec (processOnTcpMessage ⟨handlers, ClusteredMessage.toString⟩ m) ⟨b, []⟩)
        (firstRegistered m.address (registrations labels)) m := by
  intro h
  have hrun : Machine.run (step ClusteredMessage.toString) (start ⟨bytes "10.0.0.1", 15701⟩)
      ordersRegistered = some ordersBus := rfl
  have hfound := h _ _ _ (inbound (bytes "orders")) _ idle hrun rfl (by decide)
    ⟨_, List.mem_cons_self, rfl⟩
  obtain ⟨hempty, -⟩ := @Inv.calls_nothing _ ⟨idle, ClusteredMessage.toString⟩ _ _
    (inv_of_run hrun) (inbound (bytes "orders")) rfl (by decide)
  exact hfound.notEmpty hempty

end Standalone

end VertxCpp
