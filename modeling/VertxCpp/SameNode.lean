/-
# Requests that stay on this node

`request` of `src/vertx/event_bus_hazeclast.hpp` for a consumer of this node.  One that
`localConsumer` registered is called with both functions in the message; one that
`consumer` registered is found through the cluster, and the response function through
the key that the request left in `_publishers`.

For a function that reads the body and may reply, both ways come to the same
(`local_sameNode_agree`): it is called with the value, then the response function with
the reply, and the tables are as before.  They differ where the response function
throws: its key is erased behind the call, so it stays; and where the key of the request is
in use already (`sameNode_leaves_key`).
-/
import VertxCpp.Dispatch
import VertxCpp.Encode

namespace VertxCpp

open EventBus

/-- The message as a function leaves it that replied or did not. -/
def ClusteredMessage.replied (m : ClusteredMessage) : Option Any → ClusteredMessage
  | none => m
  | some reply => m.setReply reply

/-- A function that reads the body of a message and nothing else of it: it replies or
not, or throws. -/
def ReadsBody (handlers : Handlers) (f : FuncId) (g : Any → Except Fault (Option Any)) : Prop :=
  ∀ m, handlers f m = (g m.body).map m.replied

/-- `body(std::move(reply()))` behind a call: what the response function is called
with. -/
def ClusteredMessage.answered (m : ClusteredMessage) (r : Option Any) : ClusteredMessage :=
  (m.replied r).setBody (m.replied r).reply

theorem ClusteredMessage.body_answered {m : ClusteredMessage} (hreply : m.reply = .empty)
    (r : Option Any) : (m.answered r).body = r.getD .empty := by
  cases r with
  | none => exact hreply
  | some reply => rfl

section Exec

variable {F : Type} {env : Env F} {w : World F} {m : ClusteredMessage} {f k : FuncId}
  {g : Any → Except Fault (Option Any)}

/-- A request for a local consumer. -/
theorem exec_processLocal (hf : ReadsBody env.handlers f g) (hfunc : m.func = .target f)
    (hcallback : m.callbackFunc = .target k) :
    exec (processLocal env m) w
      = match g m.body with
        | .error e => (.error e, { w with effects := w.effects ++ [.invoke f m] })
        | .ok r => ((env.handlers k (m.answered r)).map fun _ => (),
            { w with effects := w.effects ++ [.invoke f m] ++ [.invoke k (m.answered r)] }) := by
  simp only [processLocal, exec_bind, hfunc, exec_call_target, hf m]
  cases g m.body with
  | error e => rfl
  | ok r =>
    have hk : ((m.replied r).setBody (m.replied r).reply).callbackFunc = .target k := by
      cases r <;> exact hcallback
    simp only [Except.map, hk, exec_call_target]
    rw [← ClusteredMessage.answered]
    cases env.handlers k (m.answered r) <;> rfl

/-- A request that `next` gave to this node, with its response function where the
request left it. -/
theorem exec_processSameNode (hf : ReadsBody env.handlers f g)
    (hconsumer : w.bus.consumers.find m.replay = some (.target f))
    (hpublisher : w.bus.publishers.find m.address = some (.target k)) :
    exec (processSameNode env m) w
      = match g m.body with
        | .error e => (.error e, { w with effects := w.effects ++ [.invoke f m] })
        | .ok r =>
          ((env.handlers k (m.answered r)).map fun _ => (),
            { bus := match env.handlers k (m.answered r) with
                | .ok _ => { w.bus with publishers := w.bus.publishers.erase m.address }
                | .error _ => w.bus
              effects := w.effects ++ [.invoke f m] ++ [.invoke k (m.answered r)] }) := by
  simp only [processSameNode, exec_bind, exec_consumersAt, Table.subscript_of_some hconsumer,
    exec_call_target, hf m]
  cases g m.body with
  | error e => rfl
  | ok r =>
    have haddress : (m.replied r).address = m.address := by cases r <;> rfl
    simp only [Except.map, exec_get, haddress, hpublisher, callPublisher, exec_bind,
      exec_call_target]
    rw [← ClusteredMessage.answered]
    cases env.handlers k (m.answered r) <;> rfl

variable {a uuid : Bytes} {v : Any}

/-- The message of a request for a local consumer. -/
def localRequest (b : EventBus) (a : Bytes) (v : Any) (f k : FuncId) : ClusteredMessage :=
  (requestMessage (bytes "__vertx.reply.local") a b.options.port b.options.host v).setFunc
    (.target f) (.target k)

/-- The message of a request that `next` gives to this node. -/
def ownRequest (b : EventBus) (a : Bytes) (v : Any) (uuid : Bytes) : ClusteredMessage :=
  requestMessage (replyAddress uuid) a b.options.port b.options.host v

/-- A request whose address has a local consumer. -/
theorem exec_request_local (hf : ReadsBody env.handlers f g)
    (hlocal : w.bus.consumersLocal.find a = some (.target f)) (next : Except Fault ServerID) :
    exec (handleRequest env a v (.target k) uuid next) w
      = match g v with
        | .error e =>
          (.error e, { w with effects := w.effects ++ [.invoke f (localRequest w.bus a v f k)] })
        | .ok r => ((env.handlers k ((localRequest w.bus a v f k).answered r)).map fun _ => (),
            { w with
              effects := w.effects ++ [.invoke f (localRequest w.bus a v f k)]
                ++ [.invoke k ((localRequest w.bus a v f k).answered r)] }) := by
  rw [exec_handleRequest_local _ _ hlocal, ← localRequest]
  exact exec_processLocal hf rfl rfl

/-- A request that `next` gives to this node. -/
theorem exec_request_own (hf : ReadsBody env.handlers f g)
    (hlocal : w.bus.consumersLocal.find a = none)
    (hconsumer : w.bus.consumers.find a = some (.target f))
    (hfresh : w.bus.publishers.find (replyAddress uuid) = none) :
    exec (handleRequest env a v (.target k) uuid
        (.ok ⟨w.bus.options.port, w.bus.options.host⟩)) w
      = match g v with
        | .error e =>
          (.error e, {
            bus := { w.bus with
              publishers := w.bus.publishers.assign (replyAddress uuid) (.target k) }
            effects := w.effects ++ [.invoke f (ownRequest w.bus a v uuid)] })
        | .ok r =>
          ((env.handlers k ((ownRequest w.bus a v uuid).answered r)).map fun _ => (),
            { bus := match env.handlers k ((ownRequest w.bus a v uuid).answered r) with
                | .ok _ => w.bus
                | .error _ => { w.bus with
                    publishers := w.bus.publishers.assign (replyAddress uuid) (.target k) }
              effects := w.effects ++ [.invoke f (ownRequest w.bus a v uuid)]
                ++ [.invoke k ((ownRequest w.bus a v uuid).answered r)] }) := by
  have haddress : (ownRequest w.bus a v uuid).address = replyAddress uuid := rfl
  rw [exec_handleRequest_own _ _ hlocal, ← ownRequest, Table.emplace_of_none hfresh,
    exec_processSameNode hf (k := k) hconsumer (Table.find_assign_self _ _ _), haddress,
    Table.erase_assign_of_none hfresh]
  rfl

end Exec

/-- What both ways come to: one call with the value, one with the answer, and no frame. -/
def AnsweredHere {F : Type} (f k : FuncId) (v r : Any) (es : List (Effect F)) : Prop :=
  ∃ m₁ m₂, es = [.invoke f m₁, .invoke k m₂] ∧ m₁.body = v ∧ m₂.body = r

/-- What a request for this node comes to under a key that may be in use: one call with the
value, and no frame; behind it one of the function under the key, if there is one, with the
answer. -/
def AskedHere {F : Type} (f : FuncId) (v r : Any) (pending : Option MsgCallback)
    (es : List (Effect F)) : Prop :=
  ∃ m₁ m₂, m₁.body = v ∧ m₂.body = r ∧ es = .invoke f m₁ ::
    match pending with
    | some (.target k) => [.invoke k m₂]
    | _ => []

section Agree

variable {F : Type} {env : Env F} {a uuid : Bytes} {v : Any} {f k : FuncId}
  {g : Any → Option Any}

/-- Whatever is under the key of a request for this node, its consumer is called, and the
tables of consumers stay. -/
theorem asked_processSameNode {m : ClusteredMessage} {w : World F} (hw : w.effects = [])
    (hf : ReadsBody env.handlers f fun body => .ok (g body)) (hreply : m.reply = .empty)
    (hconsumer : w.bus.consumers.find m.replay = some (.target f)) :
    AskedHere f m.body ((g m.body).getD .empty) (w.bus.publishers.find m.address)
        (exec (processSameNode env m) w).2.effects ∧
      (exec (processSameNode env m) w).2.bus.consumers = w.bus.consumers ∧
      (exec (processSameNode env m) w).2.bus.consumersLocal = w.bus.consumersLocal := by
  have haddress : (m.replied (g m.body)).address = m.address := by
    cases g m.body <;> rfl
  have hbody : (m.answered (g m.body)).body = (g m.body).getD .empty :=
    ClusteredMessage.body_answered hreply _
  have hone : w.effects ++ [.invoke f m] = [.invoke f m] := by rw [hw, List.nil_append]
  simp only [processSameNode, exec_bind, exec_consumersAt, Table.subscript_of_some hconsumer,
    exec_call_target, hf m, Except.map, exec_get, haddress]
  cases w.bus.publishers.find m.address with
  | none => exact ⟨⟨m, _, rfl, hbody, hone⟩, rfl, rfl⟩
  | some function =>
    cases function with
    | empty => exact ⟨⟨m, _, rfl, hbody, hone⟩, rfl, rfl⟩
    | target k =>
      have htwo : w.effects ++ [.invoke f m] ++ [.invoke k (m.answered (g m.body))]
          = [.invoke f m, .invoke k (m.answered (g m.body))] := by
        rw [hone, List.singleton_append]
      simp only [callPublisher, exec_bind, exec_call_target]
      rw [← ClusteredMessage.answered]
      cases env.handlers k (m.answered (g m.body)) with
      | error e => exact ⟨⟨m, _, rfl, hbody, htwo⟩, rfl, rfl⟩
      | ok m' => exact ⟨⟨m, _, rfl, hbody, htwo⟩, rfl, rfl⟩

/-- **Local and same-node requests agree.**  Both call `f` with the value, hand on no frame and
leave the tables of consumers alone.  A local request then calls the response function with the
reply, and leaves the whole bus alone.  One that `next` gives to this node calls what is under its
key: with a fresh key that is the response function, which is called with the reply as well, and
the bus is as before if it returns from this call. -/
theorem local_sameNode_agree (hf : ReadsBody env.handlers f fun body => .ok (g body)) :
    (∀ b : EventBus, b.consumersLocal.find a = some (.target f) → b.consumers.find a = none →
      ∀ next, AnsweredHere f k v ((g v).getD .empty)
          (exec (handleRequest env a v (.target k) uuid next) ⟨b, []⟩).2.effects ∧
        (exec (handleRequest env a v (.target k) uuid next) ⟨b, []⟩).2.bus = b) ∧
    ∀ b : EventBus, b.consumers.find a = some (.target f) → b.consumersLocal.find a = none →
      ∀ w', (exec (handleRequest env a v (.target k) uuid
          (.ok ⟨b.options.port, b.options.host⟩)) ⟨b, []⟩).2 = w' →
        AskedHere f v ((g v).getD .empty)
          ((b.publishers.emplace (replyAddress uuid) (.target k)).find (replyAddress uuid))
          w'.effects ∧
        w'.bus.consumers = b.consumers ∧ w'.bus.consumersLocal = b.consumersLocal ∧
        (b.publishers.find (replyAddress uuid) = none →
          AnsweredHere f k v ((g v).getD .empty) w'.effects ∧
          ((∃ m', env.handlers k ((ownRequest b a v uuid).answered (g v)) = .ok m') →
            w'.bus.publishers = b.publishers)) := by
  refine ⟨fun b hlocal _ next => ?_, fun b hconsumer hlocal w' hw' => ?_⟩
  · rw [exec_request_local hf hlocal next]
    exact ⟨⟨_, _, rfl, rfl, ClusteredMessage.body_answered rfl _⟩, rfl⟩
  · have hown : exec (handleRequest env a v (.target k) uuid
          (.ok ⟨b.options.port, b.options.host⟩)) ⟨b, []⟩
        = exec (processSameNode env (ownRequest b a v uuid))
          ⟨{ b with publishers := b.publishers.emplace (replyAddress uuid) (.target k) }, []⟩ :=
      exec_handleRequest_own ⟨b, []⟩ env hlocal v (.target k) uuid
    have hall := asked_processSameNode (m := ownRequest b a v uuid)
      (w := ⟨{ b with publishers := b.publishers.emplace (replyAddress uuid) (.target k) }, []⟩)
      rfl hf rfl hconsumer
    rw [← hown, hw'] at hall
    obtain ⟨hasked, hconsumers, hconsumersLocal⟩ := hall
    refine ⟨hasked, hconsumers, hconsumersLocal, fun hfresh => ?_⟩
    rw [exec_request_own (w := ⟨b, []⟩) hf hlocal hconsumer hfresh] at hw'
    subst hw'
    refine ⟨⟨_, _, rfl, rfl, ClusteredMessage.body_answered rfl _⟩, ?_⟩
    rintro ⟨m', hm'⟩
    dsimp only
    rw [hm']

end Agree

/-- A node with a consumer of `orders`, and the response function of a request pending. -/
def shop (publishers : Table Bytes MsgCallback) : EventBus where
  options := ⟨bytes "10.0.0.1", 15701⟩
  consumers := Table.empty.assign (bytes "orders") (.target (.handler 0))
  consumersLocal := .empty
  publishers := publishers

/-- The same with the consumer registered by `localConsumer`. -/
def shopLocal : EventBus where
  options := ⟨bytes "10.0.0.1", 15701⟩
  consumers := .empty
  consumersLocal := Table.empty.assign (bytes "orders") (.target (.handler 0))
  publishers := .empty

/-- A consumer that answers `done`, and response functions that throw. -/
def throwing : Handlers
  | .handler _, m => .ok (m.setReply (.string (bytes "done")))
  | .response _, _ => .error (.thrown 1)

theorem readsBody_throwing (n : ℕ) :
    ReadsBody throwing (.handler n) fun _ => .ok (some (.string (bytes "done"))) :=
  fun _ => rfl

/-- Both paths, with a response function that returns: the calls, and the tables behind them. -/
theorem local_sameNode_agree_orders :
    (AnsweredHere (.handler 0) (.handler 1) (.string (bytes "book")) (.string (bytes "done"))
        (exec (handleRequest ⟨throwing, ClusteredMessage.toString⟩ (bytes "orders")
          (.string (bytes "book")) (.target (.handler 1)) (bytes "7") (.error .outOfRange))
          ⟨shopLocal, []⟩).2.effects ∧
      (exec (handleRequest ⟨throwing, ClusteredMessage.toString⟩ (bytes "orders")
          (.string (bytes "book")) (.target (.handler 1)) (bytes "7") (.error .outOfRange))
          ⟨shopLocal, []⟩).2.bus = shopLocal) ∧
    ∃ w', (exec (handleRequest ⟨throwing, ClusteredMessage.toString⟩ (bytes "orders")
          (.string (bytes "book")) (.target (.handler 1)) (bytes "7")
          (.ok ⟨15701, bytes "10.0.0.1"⟩)) ⟨shop .empty, []⟩).2 = w' ∧
      AnsweredHere (.handler 0) (.handler 1) (.string (bytes "book")) (.string (bytes "done"))
        w'.effects ∧
      w'.bus.consumers = (shop .empty).consumers ∧ w'.bus.consumersLocal = .empty ∧
      w'.bus.publishers = .empty := by
  obtain ⟨hlocal, hown⟩ := @local_sameNode_agree _ ⟨throwing, ClusteredMessage.toString⟩
    (bytes "orders") (bytes "7") (.string (bytes "book")) _ (.handler 1) _ (readsBody_throwing 0)
  obtain ⟨-, hconsumers, hconsumersLocal, hfresh⟩ := hown (shop .empty) rfl rfl _ rfl
  obtain ⟨hanswered, hpublishers⟩ := hfresh rfl
  exact ⟨hlocal shopLocal rfl rfl _, _, rfl, hanswered, hconsumers, hconsumersLocal,
    hpublishers ⟨_, rfl⟩⟩

/-- A response function that throws leaves its key behind, and one whose key is already
pending is not called. -/
theorem sameNode_leaves_key :
    (¬ ∀ (handlers : Handlers) (b : EventBus) (a uuid : Bytes) (v : Any) (f k : FuncId)
        (g : Any → Option Any), ReadsBody handlers f (fun body => .ok (g body)) →
      b.consumers.find a = some (.target f) → b.consumersLocal.find a = none →
      b.publishers.find (replyAddress uuid) = none →
      (exec (handleRequest ⟨handlers, ClusteredMessage.toString⟩ a v (.target k) uuid
        (.ok ⟨b.options.port, b.options.host⟩)) ⟨b, []⟩).2.bus.publishers = b.publishers) ∧
    ¬ ∀ (handlers : Handlers) (b : EventBus) (a uuid : Bytes) (v : Any) (f k : FuncId)
        (g : Any → Option Any), ReadsBody handlers f (fun body => .ok (g body)) →
      b.consumers.find a = some (.target f) → b.consumersLocal.find a = none →
      AnsweredHere f k v ((g v).getD .empty)
        (exec (handleRequest ⟨handlers, ClusteredMessage.toString⟩ a v (.target k) uuid
          (.ok ⟨b.options.port, b.options.host⟩)) ⟨b, []⟩).2.effects := by
  refine ⟨fun h => ?_, fun h => ?_⟩
  · have hkeys := h throwing (shop .empty) (bytes "orders") (bytes "7") .empty (.handler 0)
      (.response 0) _ (readsBody_throwing 0) rfl rfl rfl
    have hkey := congrArg (fun t => t.find (replyAddress (bytes "7"))) hkeys
    rw [exec_request_own (w := ⟨shop .empty, []⟩) (readsBody_throwing 0) rfl rfl rfl] at hkey
    cases hkey
  · obtain ⟨m₁, m₂, hcalls, -⟩ := h throwing
      (shop (Table.empty.assign (replyAddress (bytes "7")) (.target (.response 1))))
      (bytes "orders") (bytes "7") .empty (.handler 0) (.response 0) _ (readsBody_throwing 0) rfl
      rfl
    have hother := congrArg responses hcalls
    cases hother

end VertxCpp
