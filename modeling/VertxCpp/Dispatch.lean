/-
# What one run of `processOnTcpMessage` can do

One summary of all branches, for proofs about many nodes.  A run calls the
response function of at most one request and hands on at most one frame, and never
both (`Did`): which of them, and what the frame is made from, is decided by the
message and by what `_publishers` holds at its address.  The tables lose functions
or gain empty ones, and never gain a function they did not hold (`Keeps`).
-/
import VertxCpp.EventBus

namespace VertxCpp

namespace EventBus

variable {F : Type}

/-- The requests whose response functions were called. -/
def responses (es : List (Effect F)) : List ℕ :=
  es.filterMap fun
    | .invoke (.response r) _ => some r
    | _ => none

/-- What was handed to `processStringMessage`. -/
def handed (es : List (Effect F)) : List (F × Bytes) :=
  es.filterMap fun
    | .processStringMessage messageStr addr => some (messageStr, addr)
    | _ => none

@[simp] theorem responses_nil : responses ([] : List (Effect F)) = [] := rfl

@[simp] theorem handed_nil : handed ([] : List (Effect F)) = [] := rfl

@[simp] theorem responses_handler (n : ℕ) (m : ClusteredMessage) (es : List (Effect F)) :
    responses (.invoke (.handler n) m :: es) = responses es := rfl

@[simp] theorem responses_response (r : ℕ) (m : ClusteredMessage) (es : List (Effect F)) :
    responses (.invoke (.response r) m :: es) = r :: responses es := rfl

@[simp] theorem handed_invoke (f : FuncId) (m : ClusteredMessage) (es : List (Effect F)) :
    handed (.invoke f m :: es) = handed es := rfl

theorem responses_append (es fs : List (Effect F)) :
    responses (es ++ fs) = responses es ++ responses fs := List.filterMap_append

theorem handed_append (es fs : List (Effect F)) : handed (es ++ fs) = handed es ++ handed fs :=
  List.filterMap_append

/-- No function in the table is the response function of a request. -/
def HandlersOnly (t : Table Bytes MsgCallback) : Prop :=
  ∀ k r, t.find k ≠ some (.target (.response r))

theorem HandlersOnly.subscript {t : Table Bytes MsgCallback} (h : HandlersOnly t) (k : Bytes) :
    HandlersOnly (t.subscript k .empty).2 ∧
      ∀ r, (t.subscript k .empty).1 ≠ .target (.response r) := by
  cases hfind : t.find k with
  | some f =>
    rw [Table.subscript_of_some hfind]
    exact ⟨h, fun r hr => h k r (hr ▸ hfind)⟩
  | none =>
    rw [Table.subscript_of_none hfind]
    refine ⟨fun j r => ?_, fun r => by simp⟩
    rw [Table.find_assign]
    split_ifs
    · simp
    · exact h j r

theorem HandlersOnly.emplace {t : Table Bytes MsgCallback} (h : HandlersOnly t) (k : Bytes)
    (n : ℕ) :
    HandlersOnly (t.emplace k (.target (.handler n))) := by
  intro j r
  cases hfind : t.find k with
  | some f =>
    rw [Table.emplace_of_some hfind]
    exact h j r
  | none =>
    rw [Table.emplace_of_none hfind, Table.find_assign]
    split_ifs
    · simp
    · exact h j r

/-- User code as far as it goes: it has no setter for the address of a message, and
where it gives a message another callback, that is a function of its own. -/
structure Tame (handlers : Handlers) : Prop where
  address : ∀ f m m', handlers f m = .ok m' → m'.address = m.address
  callbackFunc : ∀ f m m', handlers f m = .ok m' → m'.callbackFunc = m.callbackFunc ∨
    ∀ r, m'.callbackFunc ≠ .target (.response r)

/-- What a run for the message `m` leaves of the tables. -/
structure Keeps (m : ClusteredMessage) (b b' : EventBus) : Prop where
  options : b'.options = b.options
  consumersLocal : b'.consumersLocal = b.consumersLocal
  consumers : HandlersOnly b.consumers → HandlersOnly b'.consumers
  publishers : ∀ k f, b'.publishers.find k = some (.target f) →
    b.publishers.find k = some (.target f)
  keys : ∀ k, b'.publishers.find k ≠ none → b.publishers.find k ≠ none ∨
    k = m.address ∧ replyMark <:+: m.address ∧ m.request = false

/-- What a run for the message `m` does on the bus `b`. -/
inductive Did (env : Env F) (b : EventBus) (m : ClusteredMessage) (es : List (Effect F)) :
    Prop where
  /-- no response function is called and no frame handed on -/
  | nothing (hr : responses es = []) (hf : handed es = [])
  /-- a local request is answered -/
  | answeredLocal (r : ℕ) (hr : responses es = [r]) (hf : handed es = [])
      (hrequest : m.request = true) (hlocal : m.isLocal = true)
      (hfunc : m.callbackFunc = .target (.response r)) (hcall : ∃ n, .invoke (.handler n) m ∈ es)
  /-- the function of a reply is found in `_publishers`: behind the call of a consumer, or for
  the message as it came -/
  | answered (r : ℕ) (hr : responses es = [r]) (hf : handed es = [])
      (hkind : m.request = true ∧ m.isLocal = false ∨ m.request = false ∧ replyMark <:+: m.address)
      (hfunc : b.publishers.find m.address = some (.target (.response r)))
      (hcall : m.request = true → ∃ n, .invoke (.handler n) m ∈ es)
      (hmessage : m.request = false → ∀ x, .invoke (.response r) x ∈ es → x = m)
  /-- a request goes to another node -/
  | forwarded (frame : F) (hr : responses es = [])
      (hf : handed es = [(frame, tcpAddress m.host m.port)]) (hrequest : m.request = true)
      (hlocal : m.isLocal = false) (hencode : env.encode (outgoing b.options m) = .ok frame)
  /-- a consumer is called and a response goes back -/
  | served (frame : F) (n : ℕ) (hcall : .invoke (.handler n) m ∈ es) (hr : responses es = [])
      (hf : handed es = [(frame, tcpAddress m.host m.port)]) (hrequest : m.request = false)
      (hmark : ¬ replyMark <:+: m.address)
      (hencode : env.encode (responseMessage b.options m) = .ok frame)

theorem Keeps.refl (m : ClusteredMessage) (b : EventBus) : Keeps m b b :=
  ⟨rfl, rfl, id, fun _ _ => id, fun _ => Or.inl⟩

theorem Keeps.consumersAt (m : ClusteredMessage) (b : EventBus) (k : Bytes) :
    Keeps m b { b with consumers := (b.consumers.subscript k .empty).2 } :=
  ⟨rfl, rfl, fun h => (h.subscript k).1, fun _ _ => id, fun _ => Or.inl⟩

theorem Keeps.erase {m : ClusteredMessage} {b b' : EventBus} (h : Keeps m b b') (k : Bytes) :
    Keeps m b { b' with publishers := b'.publishers.erase k } := by
  refine ⟨h.options, h.consumersLocal, h.consumers, fun j f hf => ?_, fun j hj => ?_⟩
  · rw [Table.find_erase] at hf
    split_ifs at hf
    exact h.publishers j f hf
  · rw [Table.find_erase] at hj
    split_ifs at hj
    · exact absurd rfl hj
    · exact h.keys j hj

section Branches

variable {env : Env F} {m : ClusteredMessage} {b : EventBus}

/-- A request for a local consumer. -/
theorem processLocal_spec (htame : Tame env.handlers) (hrequest : m.request = true)
    (hlocal : m.isLocal = true) (hfunc : ∀ r, m.func ≠ .target (.response r)) :
    Keeps m b (exec (processLocal env m) ⟨b, []⟩).2.bus ∧
      Did env b m (exec (processLocal env m) ⟨b, []⟩).2.effects := by
  simp only [processLocal, exec_bind]
  cases hf : m.func with
  | empty => exact ⟨Keeps.refl m b, .nothing rfl rfl⟩
  | target f =>
    cases f with
    | response r => exact absurd hf (hfunc r)
    | handler n =>
      simp only [exec_call_target]
      cases hcall : env.handlers (.handler n) m with
      | error e => exact ⟨Keeps.refl m b, .nothing rfl rfl⟩
      | ok m' =>
        dsimp only
        cases hg : (m'.setBody m'.reply).callbackFunc with
        | empty => exact ⟨Keeps.refl m b, .nothing rfl rfl⟩
        | target g =>
          rw [exec_call_target, exec_world_pure]
          refine ⟨Keeps.refl m b, ?_⟩
          cases g with
          | handler k => exact .nothing rfl rfl
          | response r =>
            have hcallback : m'.callbackFunc = .target (.response r) := hg
            rcases htame.callbackFunc _ _ _ hcall with hsame | hown
            · exact .answeredLocal r rfl rfl hrequest hlocal (hsame ▸ hcallback) ⟨n, by simp⟩
            · exact absurd hcallback (hown r)

theorem notMem_of_responses {es : List (Effect F)} (hr : responses es = []) (r : ℕ)
    (x : ClusteredMessage) : .invoke (.response r) x ∉ es := by
  intro h
  have hmem : r ∈ responses es := List.mem_filterMap.2 ⟨_, h, rfl⟩
  rw [hr] at hmem
  exact absurd hmem List.not_mem_nil

/-- The world after the function of a reply is called: what `Did` and `Keeps` say of the
run so far, with this call added. -/
theorem callPublisher_spec {b' : EventBus} {es : List (Effect F)} (hkeeps : Keeps m b b')
    (hr : responses es = []) (hf : handed es = []) (x : ClusteredMessage) {f : MsgCallback}
    (hfind : f = .empty ∨ b.publishers.find m.address = some f)
    (hkind : m.request = true ∧ m.isLocal = false ∨ m.request = false ∧ replyMark <:+: m.address)
    (hcall : m.request = true → ∃ n, .invoke (.handler n) m ∈ es)
    (hmessage : m.request = false → x = m) :
    Keeps m b (exec (callPublisher env f x m.address) ⟨b', es⟩).2.bus ∧
      Did env b m (exec (callPublisher env f x m.address) ⟨b', es⟩).2.effects := by
  rw [callPublisher, exec_bind]
  cases f with
  | empty => exact ⟨hkeeps, .nothing hr hf⟩
  | target g =>
    have hg : b.publishers.find m.address = some (.target g) := by simpa using hfind
    have hdid : Did env b m (es ++ [.invoke g x]) := by
      cases g with
      | handler n => exact .nothing (by simp [responses_append, hr]) (by simp [handed_append, hf])
      | response r =>
        refine .answered r (by simp [responses_append, hr]) (by simp [handed_append, hf]) hkind hg
          (fun h => ?_) fun h y hy => ?_
        · obtain ⟨n, hn⟩ := hcall h
          exact ⟨n, List.mem_append_left _ hn⟩
        · rcases List.mem_append.1 hy with hold | hnew
          · exact absurd hold (notMem_of_responses hr r y)
          · obtain ⟨-, rfl⟩ := Effect.invoke.inj (List.mem_singleton.1 hnew)
            exact hmessage h
    rw [exec_call_target]
    cases env.handlers g x with
    | error e => exact ⟨hkeeps, hdid⟩
    | ok x' => exact ⟨hkeeps.erase m.address, hdid⟩

/-- A request that `next` gave to this node. -/
theorem processSameNode_spec (htame : Tame env.handlers) (hrequest : m.request = true)
    (hlocal : m.isLocal = false) (hconsumers : HandlersOnly b.consumers) :
    Keeps m b (exec (processSameNode env m) ⟨b, []⟩).2.bus ∧
      Did env b m (exec (processSameNode env m) ⟨b, []⟩).2.effects := by
  have hkeeps := Keeps.consumersAt m b m.replay
  simp only [processSameNode, exec_bind, exec_consumersAt]
  cases hf : (b.consumers.subscript m.replay .empty).1 with
  | empty => exact ⟨hkeeps, .nothing rfl rfl⟩
  | target f =>
    cases f with
    | response r => exact absurd hf ((hconsumers.subscript m.replay).2 r)
    | handler n =>
      simp only [exec_call_target]
      cases hcall : env.handlers (.handler n) m with
      | error e => exact ⟨hkeeps, .nothing rfl rfl⟩
      | ok m' =>
        simp only [exec_get]
        rw [htame.address _ _ _ hcall]
        cases hg : b.publishers.find m.address with
        | none => exact ⟨hkeeps, .nothing rfl rfl⟩
        | some g =>
          exact callPublisher_spec hkeeps rfl rfl _ (Or.inr hg) (Or.inl ⟨hrequest, hlocal⟩)
            (fun _ => ⟨n, by simp⟩) fun h => by simp [hrequest] at h

/-- A message to the address of a reply. -/
theorem processReply_spec (hrequest : m.request = false) (hmark : replyMark <:+: m.address) :
    Keeps m b (exec (processReply env m) ⟨b, []⟩).2.bus ∧
      Did env b m (exec (processReply env m) ⟨b, []⟩).2.effects := by
  simp only [processReply, exec_bind, exec_publishersAt]
  have hkind : m.request = true ∧ m.isLocal = false ∨
      m.request = false ∧ replyMark <:+: m.address :=
    Or.inr ⟨hrequest, hmark⟩
  cases hfind : b.publishers.find m.address with
  | some f =>
    rw [Table.subscript_of_some hfind]
    exact callPublisher_spec (Keeps.refl m b) rfl rfl m (Or.inr hfind) hkind
      (fun h => by simp [hrequest] at h) fun _ => rfl
  | none =>
    rw [Table.subscript_of_none hfind]
    have hkeeps : Keeps m b { b with publishers := b.publishers.assign m.address .empty } := by
      refine ⟨rfl, rfl, id, fun k f hk => ?_, fun k hk => ?_⟩
      · rw [Table.find_assign] at hk
        split_ifs at hk
        · simp at hk
        · exact hk
      · rw [Table.find_assign] at hk
        split_ifs at hk with hkey
        · exact Or.inr ⟨hkey, hmark, hrequest⟩
        · exact Or.inl hk
    exact callPublisher_spec hkeeps rfl rfl m (Or.inl rfl) hkind
      (fun h => by simp [hrequest] at h) fun _ => rfl

/-- A message to the address of a consumer. -/
theorem processConsumer_spec (hrequest : m.request = false) (hmark : ¬ replyMark <:+: m.address)
    (hconsumers : HandlersOnly b.consumers) :
    Keeps m b (exec (processConsumer env m (tcpAddress m.host m.port)) ⟨b, []⟩).2.bus ∧
      Did env b m (exec (processConsumer env m (tcpAddress m.host m.port)) ⟨b, []⟩).2.effects := by
  have hkeeps := Keeps.consumersAt m b m.address
  simp only [processConsumer, exec_bind, exec_consumersAt, exec_get]
  cases hf : (b.consumers.subscript m.address .empty).1 with
  | empty => exact ⟨hkeeps, .nothing rfl rfl⟩
  | target f =>
    cases f with
    | response r => exact absurd hf ((hconsumers.subscript m.address).2 r)
    | handler n =>
      simp only [exec_call_target]
      cases env.handlers (.handler n) m with
      | error e => exact ⟨hkeeps, .nothing rfl rfl⟩
      | ok m' =>
        simp only [exec_ofExcept]
        cases hencode : env.encode (responseMessage b.options m) with
        | error e => exact ⟨hkeeps, .nothing rfl rfl⟩
        | ok frame =>
          exact ⟨hkeeps, .served frame n (by simp) rfl rfl hrequest hmark hencode⟩

/-- **One run of `processOnTcpMessage`.** -/
theorem processOnTcpMessage_spec (env : Env F) (m : ClusteredMessage) (htame : Tame env.handlers)
    (hconsumers : HandlersOnly b.consumers)
    (hfunc : m.request = true → m.isLocal = true → ∀ r, m.func ≠ .target (.response r)) :
    Keeps m b (exec (processOnTcpMessage env m) ⟨b, []⟩).2.bus ∧
      Did env b m (exec (processOnTcpMessage env m) ⟨b, []⟩).2.effects := by
  rw [exec_processOnTcpMessage]
  split_ifs with hrequest hlocal hnode hmark
  · exact processLocal_spec htame hrequest hlocal (hfunc hrequest hlocal)
  · exact processSameNode_spec htame hrequest (by simpa using hlocal) hconsumers
  · rw [exec_processOtherNode]
    cases hencode : env.encode (outgoing b.options m) with
    | error e => exact ⟨Keeps.refl m b, .nothing rfl rfl⟩
    | ok frame =>
      exact ⟨Keeps.refl m b, .forwarded frame rfl rfl hrequest (by simpa using hlocal) hencode⟩
  · exact processReply_spec (by simpa using hrequest) hmark
  · exact processConsumer_spec (by simpa using hrequest) hmark hconsumers

end Branches

end EventBus

end VertxCpp
