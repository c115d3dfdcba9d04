/-
# Requests that fail

The closure of `request` in `src/vertx/event_bus_hazeclast.hpp` can end in an exception at
several points: `next` throws where the address has no endpoint, an empty `std::function` is
called where this node has no consumer, user code throws.  Nothing is undone then.

What has happened by that time depends on the point.  Behind `next` the response function is
in `_publishers` under the uuid, and it is taken out only behind the last call; and the
lookup of the consumer by `operator[]` leaves an empty function where there was none.  So a
request that fails leaves the tables as they were where it fails in front of both, or where
both find their key there already, and nowhere else (`failed_request_traceless_iff`).
-/
import VertxCpp.Node
import VertxCpp.Turns

namespace VertxCpp

open EventBus Program

/-- The tables of functions are the same. -/
structure SameTables (b b' : EventBus) : Prop where
  publishers : b'.publishers = b.publishers
  consumers : b'.consumers = b.consumers
  consumersLocal : b'.consumersLocal = b.consumersLocal

section Branches

variable {F : Type} {env : Env F} {m : ClusteredMessage} {w : World F} {e : Fault}

instance : IsPreorder (World F) fun w w' => w'.bus = w.bus where
  refl _ := rfl
  trans _ _ _ h h' := h'.trans h

/-- A request for a local consumer touches no table, however it ends. -/
theorem bus_processLocal (env : Env F) (m : ClusteredMessage) (w : World F) :
    (exec (processLocal env m) w).2.bus = w.bus :=
  respects_processLocal (R := fun w w' : World F => w'.bus = w.bus) env m (fun _ _ _ => rfl) w

/-- A request for another node touches no table either. -/
theorem bus_processOtherNode (env : Env F) (m : ClusteredMessage) (addr : Bytes) (w : World F) :
    (exec (processOtherNode env m addr) w).2.bus = w.bus :=
  respects_processOtherNode (R := fun w w' : World F => w'.bus = w.bus) env m
    (fun _ _ _ => rfl) addr w

/-- A key is erased only behind a call that returns. -/
theorem bus_callPublisher_of_error {f : MsgCallback} {key : Bytes}
    (h : (exec (callPublisher env f m key) w).1 = .error e) :
    (exec (callPublisher env f m key) w).2.bus = w.bus := by
  rw [callPublisher, exec_bind] at h ⊢
  cases f with
  | empty => rfl
  | target f =>
    rw [exec_call_target] at h ⊢
    cases hcall : env.handlers f m with
    | error e => rfl
    | ok m' =>
      rw [hcall] at h
      cases h

/-- A request for this node that fails has looked up its consumer, and that is all. -/
theorem bus_processSameNode_of_error (h : (exec (processSameNode env m) w).1 = .error e) :
    (exec (processSameNode env m) w).2.bus
      = { w.bus with consumers := (w.bus.consumers.subscript m.replay .empty).2 } := by
  simp only [processSameNode, exec_bind, exec_consumersAt] at h ⊢
  cases hf : (w.bus.consumers.subscript m.replay .empty).1 with
  | empty => rfl
  | target f =>
    rw [hf] at h
    simp only [exec_call_target] at h ⊢
    cases hcall : env.handlers f m with
    | error e => rfl
    | ok m' =>
      rw [hcall] at h
      simp only [exec_get] at h ⊢
      cases hfind : w.bus.publishers.find m'.address with
      | none =>
        rw [hfind] at h
        cases h
      | some g =>
        rw [hfind] at h
        exact bus_callPublisher_of_error h

end Branches

section Request

variable {F : Type} {env : Env F} {b : EventBus} {hz : HazelcastCluster} {a uuid : Bytes}
  {v : Any} {func : MsgCallback} {e : Fault}

/-- A request fails where its address has no endpoint, and where it is given to this node and
no consumer is registered for it. -/
theorem request_fails (hlocal : b.consumersLocal.find a = none) (next : Except Fault ServerID)
    (hnext : (∃ e, next = .error e) ∨ next = .ok ⟨b.options.port, b.options.host⟩ ∧
      ∀ f, b.consumers.find a ≠ some (.target f)) :
    ∃ e, (exec (handleRequest env a v func uuid next) ⟨b, []⟩).1 = .error e := by
  rcases hnext with ⟨e, rfl⟩ | ⟨rfl, hconsumer⟩
  · refine ⟨e, ?_⟩
    rw [exec_handleRequest, hlocal]
  · refine ⟨.badFunctionCall, ?_⟩
    rw [exec_handleRequest_own ⟨b, []⟩ env hlocal]
    obtain ⟨hempty, -⟩ := subscript_of_no_target hconsumer
    simp only [processSameNode, exec_bind, exec_consumersAt, requestMessage, hempty, call]
    rfl

/-- A request that fails does so in front of both insertions, or finds both keys there. -/
def Untouched (b : EventBus) (hz : HazelcastCluster) (a uuid : Bytes) : Prop :=
  b.consumersLocal.find a ≠ none ∨ endpointsOf hz.localEndpoints a = [] ∨
    b.publishers.find (replyAddress uuid) ≠ none ∧
      ((endpointsOf hz.localEndpoints a).head? = some ⟨b.options.port, b.options.host⟩ →
        b.consumers.find a ≠ none)

/-- **Which failed requests leave no trace.**  In every state and for every table of
endpoints, a request that ends in an exception leaves the tables of functions as they were
exactly where its address has a local consumer, or no endpoint, or the key of its uuid is
pending already and, if the endpoint is this node, `_consumers` has an entry for the
address. -/
theorem failed_request_traceless_iff
    (hfailed : (exec (handleRequest env a v func uuid ((hz.next a).map Prod.fst)) ⟨b, []⟩).1
      = .error e) :
    SameTables b
        (exec (handleRequest env a v func uuid ((hz.next a).map Prod.fst)) ⟨b, []⟩).2.bus ↔
      Untouched b hz a uuid := by
  have hhead := hz.next_toOption a
  rw [Untouched, ← List.head?_eq_none_iff, ← hhead]
  generalize (hz.next a).map Prod.fst = next at hfailed ⊢
  cases hlocal : b.consumersLocal.find a with
  | some f =>
    rw [exec_handleRequest_local ⟨b, []⟩ env hlocal, bus_processLocal]
    exact ⟨fun _ => Or.inl (by simp), fun _ => ⟨rfl, rfl, rfl⟩⟩
  | none =>
    cases next with
    | error e =>
      rw [exec_handleRequest, hlocal]
      exact ⟨fun _ => Or.inr (Or.inl rfl), fun _ => ⟨rfl, rfl, rfl⟩⟩
    | ok server =>
      simp only [ne_eq, not_true_eq_false, false_or, Except.toOption, reduceCtorEq,
        Option.some.injEq]
      rw [← ne_eq, ← Table.emplace_eq_self_iff _ _ func]
      by_cases hnode : server = ⟨b.options.port, b.options.host⟩
      · subst hnode
        rw [exec_handleRequest_own ⟨b, []⟩ env hlocal] at hfailed ⊢
        rw [bus_processSameNode_of_error hfailed, ← ne_eq,
          ← Table.subscript_eq_self_iff _ _ MsgCallback.empty]
        exact ⟨fun h => ⟨h.publishers, fun _ => h.consumers⟩,
          fun h => ⟨h.1, h.2 rfl, rfl⟩⟩
      · have hother : ¬ (server.host = b.options.host ∧ server.port = b.options.port) := by
          rintro ⟨hhost, hport⟩
          exact hnode (by rw [← hhost, ← hport])
        rw [exec_handleRequest_other ⟨b, []⟩ env hlocal hother, bus_processOtherNode]
        exact ⟨fun h => ⟨h.publishers, fun h => absurd h hnode⟩, fun h => ⟨h.1, rfl, rfl⟩⟩

end Request

/-- A node that has registered nothing, and its view of a cluster where it is the one endpoint
of `orders`. -/
def bareBus : EventBus := ⟨⟨bytes "10.0.0.1", 15701⟩, .empty, .empty, .empty⟩

def ownOrders : HazelcastCluster where
  nodeID := bytes "n1"
  localSubs := []
  localEndpoints := Table.empty.assign (bytes "orders") [⟨15701, bytes "10.0.0.1"⟩]

/-- A request for `billing` finds no endpoint, and leaves no trace. -/
theorem failed_request_traceless_billing :
    SameTables bareBus (exec (handleRequest ⟨idle, ClusteredMessage.toString⟩ (bytes "billing")
      (.string (bytes "book")) (.target (.response 0)) (bytes "7")
      ((ownOrders.next (bytes "billing")).map Prod.fst)) ⟨bareBus, []⟩).2.bus := by
  have hnext : (ownOrders.next (bytes "billing")).map Prod.fst = .error .outOfRange := rfl
  obtain ⟨e, hfailed⟩ := @request_fails _ ⟨idle, ClusteredMessage.toString⟩ bareBus
    (bytes "billing") (bytes "7") (.string (bytes "book")) (.target (.response 0)) rfl _
    (Or.inl ⟨_, hnext⟩)
  exact (@failed_request_traceless_iff _ ⟨idle, ClusteredMessage.toString⟩ bareBus ownOrders
    (bytes "billing") (bytes "7") _ _ e hfailed).2 (Or.inr (Or.inl (by decide)))

/-- A request for `orders` is given to this node, which has no consumer: its response function
stays in `_publishers`. -/
theorem failed_request_leaves_key :
    ¬ ∀ (handlers : Handlers) (b : EventBus) (hz : HazelcastCluster) (a uuid : Bytes) (v : Any)
        (func : MsgCallback) (e : Fault),
      (exec (handleRequest ⟨handlers, ClusteredMessage.toString⟩ a v func uuid
        ((hz.next a).map Prod.fst)) ⟨b, []⟩).1 = .error e →
      SameTables b (exec (handleRequest ⟨handlers, ClusteredMessage.toString⟩ a v func uuid
        ((hz.next a).map Prod.fst)) ⟨b, []⟩).2.bus := by
  intro h
  have hsame := h idle bareBus ownOrders (bytes "orders") (bytes "7") (.string (bytes "book"))
    (.target (.response 0)) .badFunctionCall rfl
  have hkey := congrArg (fun t => t.find (replyAddress (bytes "7"))) hsame.publishers
  cases hkey

end VertxCpp
