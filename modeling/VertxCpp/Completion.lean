/-
# Requests that are answered

The cluster of `VertxCpp.Correlation` answers a request at most once: of each there is at
most one closure, frame or call.  Here is the other half.  A closure that does not end in a
fault calls a response function or hands on a frame (`goesOn_of_ok`), for every branch of
`processOnTcpMessage`: the response function of a request is in `_publishers` when the
request comes back to it, and only response functions are there.  So as long as no closure
of a request ends in a fault there is exactly one closure, frame or call of it, and when
nothing is queued or on its way it has been answered, once (`answered_exactly_once`).

And that time comes.  A request needs two frames at most, so it is good for five steps: a run
of its closure, and a delivery and a run for each frame.  `work` counts what is left of them,
every delivery and every run pays for itself out of it (`steps_bounded`), and where none is
possible any more nothing is queued (`comes_to_rest`).
-/
import VertxCpp.Correlation
import VertxCpp.Node

namespace VertxCpp

open EventBus Machine

namespace EventBus

variable {F : Type} {α β : Type}

/-! ### A run without a fault -/

/-- What ends well began well, and goes on in the world that is left. -/
theorem exec_bind_ok {x : Action F α} {f : α → Action F β} {w : World F} {c : β}
    (h : (exec (x >>= f) w).1 = .ok c) :
    ∃ a, (exec x w).1 = .ok a ∧ exec (x >>= f) w = exec (f a) (exec x w).2 := by
  rw [exec_bind] at h ⊢
  generalize exec x w = run at h ⊢
  obtain ⟨r, w'⟩ := run
  cases r with
  | error e => cases h
  | ok a => exact ⟨a, rfl, rfl⟩

/-- A call that ends well is one of a function that returns. -/
theorem exec_call_ok {handlers : Handlers} {f : MsgCallback} {m m' : ClusteredMessage}
    {w : World F} (h : (exec (call handlers f m) w).1 = .ok m') :
    ∃ g, f = .target g ∧ handlers g m = .ok m' ∧
      (exec (call handlers f m) w).2 = { w with effects := w.effects ++ [.invoke g m] } := by
  cases f with
  | empty => cases h
  | target g =>
    rw [exec_call_target] at h ⊢
    exact ⟨g, rfl, h, rfl⟩

/-- A response function is called or a frame handed on. -/
def GoesOn (es : List (Effect F)) : Prop := responses es ≠ [] ∨ handed es ≠ []

theorem goesOn_of_response {es : List (Effect F)} {r : ℕ} {m : ClusteredMessage}
    (h : .invoke (.response r) m ∈ es) : GoesOn es :=
  Or.inl (List.ne_nil_of_mem (List.mem_filterMap.2 ⟨_, h, rfl⟩))

theorem goesOn_of_frame {es : List (Effect F)} {frame : F} {addr : Bytes}
    (h : .processStringMessage frame addr ∈ es) : GoesOn es :=
  Or.inr (List.ne_nil_of_mem (List.mem_filterMap.2 ⟨_, h, rfl⟩))

/-- The functions that wait in the table are response functions of requests. -/
def ResponsesOnly (t : Table Bytes MsgCallback) : Prop :=
  ∀ k n, t.find k ≠ some (.target (.handler n))

/-- User code does not put another callback in a message. -/
def KeepsCallback (handlers : Handlers) : Prop :=
  ∀ f m m', handlers f m = .ok m' → m'.callbackFunc = m.callbackFunc

section Branches

variable {env : Env F} {m : ClusteredMessage} {w : World F} {r : ℕ}

/-- A request for a local consumer is answered. -/
theorem goesOn_processLocal (hkeeps : KeepsCallback env.handlers)
    (hcallback : m.callbackFunc = .target (.response r))
    (hok : (exec (processLocal env m) w).1 = .ok ()) :
    GoesOn (exec (processLocal env m) w).2.effects := by
  rw [processLocal] at hok ⊢
  obtain ⟨m', hm', heq⟩ := exec_bind_ok hok
  obtain ⟨f, -, hf, -⟩ := exec_call_ok hm'
  rw [heq] at hok ⊢
  obtain ⟨m'', hm'', heq⟩ := exec_bind_ok hok
  obtain ⟨g, hg, -, hcall⟩ := exec_call_ok hm''
  have hresponse : m'.callbackFunc = .target (.response r) := (hkeeps _ _ _ hf).trans hcallback
  obtain rfl : FuncId.response r = g := MsgCallback.target.inj (hresponse.symm.trans hg)
  rw [heq, hcall]
  exact goesOn_of_response (r := r) (List.mem_append_right _ (List.mem_singleton_self _))

/-- The function of a reply is called. -/
theorem goesOn_callPublisher {f : MsgCallback} (hf : ∀ n, f ≠ .target (.handler n)) {key : Bytes}
    (hok : (exec (callPublisher env f m key) w).1 = .ok ()) :
    GoesOn (exec (callPublisher env f m key) w).2.effects := by
  rw [callPublisher] at hok ⊢
  obtain ⟨m', hm', heq⟩ := exec_bind_ok hok
  obtain ⟨g, hg, -, hcall⟩ := exec_call_ok hm'
  rw [heq, exec_modifyBus, hcall]
  cases g with
  | handler n => exact absurd hg (hf n)
  | response r => exact goesOn_of_response (List.mem_append_right _ (List.mem_singleton_self _))

/-- A request that `next` gave to this node finds its own response function. -/
theorem goesOn_processSameNode (htame : Tame env.handlers)
    (hresponses : ResponsesOnly w.bus.publishers) (hown : w.bus.publishers.find m.address ≠ none)
    (hok : (exec (processSameNode env m) w).1 = .ok ()) :
    GoesOn (exec (processSameNode env m) w).2.effects := by
  rw [processSameNode] at hok ⊢
  obtain ⟨f, -, heq⟩ := exec_bind_ok hok
  rw [heq, exec_consumersAt] at hok ⊢
  obtain ⟨m', hm', heq⟩ := exec_bind_ok hok
  obtain ⟨g, -, hg, hcall⟩ := exec_call_ok hm'
  rw [heq, hcall] at hok ⊢
  rw [exec_bind, exec_get] at hok ⊢
  dsimp only at hok ⊢
  rw [htame.address _ _ _ hg] at hok ⊢
  obtain ⟨func, hfunc⟩ := Option.ne_none_iff_exists'.1 hown
  rw [hfunc] at hok ⊢
  exact goesOn_callPublisher (fun n hn => hresponses _ n (hn ▸ hfunc)) hok

/-- A request for another node hands on a frame. -/
theorem goesOn_processOtherNode {addr : Bytes}
    (hok : (exec (processOtherNode env m addr) w).1 = .ok ()) :
    GoesOn (exec (processOtherNode env m addr) w).2.effects := by
  rw [exec_processOtherNode] at hok ⊢
  cases hencode : env.encode (outgoing w.bus.options m) with
  | error e => rw [hencode] at hok; cases hok
  | ok frame => exact goesOn_of_frame (List.mem_append_right _ (List.mem_singleton_self _))

/-- A message to the address of a reply finds a response function or ends in a fault. -/
theorem goesOn_processReply (hresponses : ResponsesOnly w.bus.publishers)
    (hok : (exec (processReply env m) w).1 = .ok ()) :
    GoesOn (exec (processReply env m) w).2.effects := by
  rw [processReply] at hok ⊢
  obtain ⟨f, hf, heq⟩ := exec_bind_ok hok
  rw [heq] at hok ⊢
  refine goesOn_callPublisher (fun n hn => ?_) hok
  obtain rfl : (w.bus.publishers.subscript m.address .empty).1 = f := Except.ok.inj hf
  cases hfind : w.bus.publishers.find m.address with
  | none =>
    rw [Table.subscript_of_none hfind] at hn
    cases hn
  | some g =>
    rw [Table.subscript_of_some hfind] at hn
    obtain rfl : g = .target (.handler n) := hn
    exact hresponses _ n hfind

/-- A consumer is called and the response handed on. -/
theorem goesOn_processConsumer {addr : Bytes}
    (hok : (exec (processConsumer env m addr) w).1 = .ok ()) :
    GoesOn (exec (processConsumer env m addr) w).2.effects := by
  rw [processConsumer] at hok ⊢
  obtain ⟨f, -, heq⟩ := exec_bind_ok hok
  rw [heq, exec_consumersAt, exec_bind, exec_get] at hok ⊢
  dsimp only at hok ⊢
  obtain ⟨m', -, heq⟩ := exec_bind_ok hok
  rw [heq] at hok ⊢
  obtain ⟨frame, -, heq⟩ := exec_bind_ok hok
  rw [heq, exec_emit]
  exact goesOn_of_frame (List.mem_append_right _ (List.mem_singleton_self _))

/-- **A run without a fault goes on.** -/
theorem goesOn_of_ok (htame : Tame env.handlers) (hkeeps : KeepsCallback env.handlers)
    (hresponses : ResponsesOnly w.bus.publishers)
    (hlocal : m.request = true → m.isLocal = true → ∃ r, m.callbackFunc = .target (.response r))
    (hown : m.request = true → m.isLocal = false → w.bus.publishers.find m.address ≠ none)
    (hok : (exec (processOnTcpMessage env m) w).1 = .ok ()) :
    GoesOn (exec (processOnTcpMessage env m) w).2.effects := by
  rw [exec_processOnTcpMessage] at hok ⊢
  split_ifs at hok ⊢ with hrequest hloc hnode hmark
  · obtain ⟨r, hr⟩ := hlocal hrequest hloc
    exact goesOn_processLocal hkeeps hr hok
  · exact goesOn_processSameNode htame hresponses (hown hrequest (by simpa using hloc)) hok
  · exact goesOn_processOtherNode hok
  · exact goesOn_processReply hresponses hok
  · exact goesOn_processConsumer hok

end Branches

/-! ### What waits in `_publishers` -/

theorem ResponsesOnly.loses {b b' : EventBus} (h : ResponsesOnly b.publishers)
    (hloses : Loses b b') : ResponsesOnly b'.publishers :=
  fun k n hk => h k n (hloses.publishers k _ hk)

theorem ResponsesOnly.emplace {t : Table Bytes MsgCallback} (h : ResponsesOnly t) (key : Bytes)
    (r : ℕ) : ResponsesOnly (t.emplace key (.target (.response r))) := by
  intro k n hk
  rw [Table.find_emplace] at hk
  cases hfind : t.find k with
  | some f =>
    rw [hfind, Option.some_or] at hk
    exact h k n (hfind.trans hk)
  | none =>
    rw [hfind, Option.none_or] at hk
    split_ifs at hk
    simp at hk

/-- The closure of a request adds its response function, if anything. -/
theorem ResponsesOnly.handleRequest {b : EventBus} (h : ResponsesOnly b.publishers) (env : Env F)
    (a : Bytes) (v : Any) (r : ℕ) (uuid : Bytes) (next : Except Fault ServerID) :
    ResponsesOnly (exec (EventBus.handleRequest env a v (.target (.response r)) uuid next)
      ⟨b, []⟩).2.bus.publishers := by
  rw [exec_handleRequest]
  cases b.consumersLocal.find a with
  | some f => exact h.loses (loses_processOnTcpMessage env _ ⟨b, []⟩)
  | none =>
    cases next with
    | error e => exact h
    | ok server =>
      have hregistered : ResponsesOnly ({ b with
          publishers := b.publishers.emplace (replyAddress uuid) (.target (.response r)) } :
          EventBus).publishers := h.emplace _ r
      exact hregistered.loses (loses_processOnTcpMessage env _ ⟨_, []⟩)

/-- The closure of a request goes on where it does not end in a fault. -/
theorem goesOn_handleRequest {env : Env F} {b : EventBus} (htame : Tame env.handlers)
    (hkeeps : KeepsCallback env.handlers) (hresponses : ResponsesOnly b.publishers) {a : Bytes}
    {v : Any} {r : ℕ} {uuid : Bytes} {next : Except Fault ServerID}
    (hok : (exec (EventBus.handleRequest env a v (.target (.response r)) uuid next)
      ⟨b, []⟩).1 = .ok ()) :
    GoesOn (exec (EventBus.handleRequest env a v (.target (.response r)) uuid next)
      ⟨b, []⟩).2.effects := by
  rw [exec_handleRequest] at hok ⊢
  dsimp only at hok ⊢
  cases hlocal : b.consumersLocal.find a with
  | some f =>
    rw [hlocal] at hok
    exact goesOn_of_ok htame hkeeps hresponses (fun _ _ => ⟨r, rfl⟩)
      (fun _ h => by simp [ClusteredMessage.setFunc] at h) hok
  | none =>
    rw [hlocal] at hok
    cases next with
    | error e => cases hok
    | ok server =>
      refine goesOn_of_ok htame hkeeps (hresponses.emplace _ r)
        (fun _ h => by simp [requestMessage] at h) (fun _ _ hnone => ?_) hok
      have hkey : (b.publishers.emplace (replyAddress uuid) (.target (.response r))).find
          (replyAddress uuid) = none := hnone
      rw [Table.find_emplace, if_pos rfl, Option.or_eq_none_iff] at hkey
      exact absurd hkey.2 (by simp)

end EventBus

/-! ### Every request is somewhere -/

namespace Cluster

variable {ι F R : Type} {wire : Wire F R} {s t : Cluster ι F}

/-- If the step runs a closure of the request `r`, that does not end in a fault, and user code
leaves the callback of its message alone. -/
def Completes (wire : Wire F R) (r : ℕ) (s : Cluster ι F) : ClusterStep ι R → Prop
  | .run k handlers uuid next rest =>
      ∀ c closures, pick s.closures k = some (c, closures) → c.origin.root = r →
        KeepsCallback handlers.1 ∧
          (exec (c.task.run ⟨handlers.1, wire.encode⟩ (fun f => wire.decode f rest) uuid next)
            ⟨s.bus c.node, []⟩).1 = .ok ()
  | _ => True

/-- What a closure does in a run without a fault. -/
theorem goesOn_closure {issued : List (Bytes × ι × ℕ)} {log : List (Invocation ι)}
    {requests : List (ι × ℕ)} {c : Closure ι F} (hqueued : Queued wire issued log requests c)
    {handlers : Handlers} (htame : Tame handlers) (hkeeps : KeepsCallback handlers)
    {b : EventBus} (hresponses : ResponsesOnly b.publishers) {uuid : Bytes}
    {next : Except Fault ServerID} {rest : R}
    (hok : (exec (c.task.run ⟨handlers, wire.encode⟩ (fun f => wire.decode f rest) uuid next)
      ⟨b, []⟩).1 = .ok ()) :
    GoesOn (exec (c.task.run ⟨handlers, wire.encode⟩ (fun f => wire.decode f rest) uuid next)
      ⟨b, []⟩).2.effects := by
  cases hqueued with
  | request i r a v hrequest hmark => exact goesOn_handleRequest htame hkeeps hresponses hok
  | onMessage i f o hcarries =>
    have hreq : (wire.decode f rest).request = false := by
      cases hcarries with
      | request i r u m _ hissued hencode => exact (wire.exchange m f hencode rest).2.2.2.2
      | response j i r u m _ hissued hencode => exact (wire.exchange m f hencode rest).2.2.2.2
    refine goesOn_of_ok htame hkeeps hresponses (fun h => ?_) (fun h => ?_) hok
    · rw [hreq] at h
      cases h
    · rw [hreq] at h
      cases h

/-- **What goes on is still there**: the frame it has handed on, or the call it has made, is of
the request of its closure. -/
theorem one_le_tokens_of_goesOn {issued : List (Bytes × ι × ℕ)} {log : List (Invocation ι)}
    {requests : List (ι × ℕ)} {c : Closure ι F} {es : List (Effect F)}
    (h : Outcome wire issued log requests c es) (hgoes : GoesOn es) :
    1 ≤ ((handed es).map fun sent =>
          (⟨sent.1, sent.2, .frame c.node c.origin⟩ : Packet ι F)).countP
        (fun p => p.origin.root = c.origin.root)
      + (invocations c.node c.origin es).countP (fun e => e.func = .response c.origin.root) := by
  rw [countP_invocations]
  cases h with
  | nothing hr hf => exact absurd hgoes (by simp [GoesOn, hr, hf])
  | invoked q hr hf hroot =>
    rw [hr, hroot, List.count_singleton_self]
    omega
  | sent frame addr hr hf =>
    rw [hf, List.map_singleton, List.countP_singleton]
    simp [Origin.root]

/-- What holds as long as no closure of the request `r` has ended in a fault. -/
structure Whole (wire : Wire F R) (r : ℕ) (s : Cluster ι F) : Prop where
  inv : Inv wire s
  responses : ∀ i, ResponsesOnly (s.bus i).publishers
  somewhere : r ∈ s.requests.map Prod.snd → 1 ≤ s.tokens r

/-- What one closure may do, from a state that a run can reach. -/
theorem Inv.outcome (h : Inv wire s) {c : Closure ι F} (hc : c ∈ s.closures) {handlers : Handlers}
    (htame : Tame handlers) {uuid : Bytes} (hfresh : uuid ∉ s.issued.map Prod.fst)
    (next : Except Fault ServerID) (rest : R) :
    Outcome wire (s.issued ++ c.issues uuid) s.log s.requests c
      (exec (c.task.run ⟨handlers, wire.encode⟩ (fun f => wire.decode f rest) uuid next)
        ⟨s.bus c.node, []⟩).2.effects := by
  cases h.closures c hc with
  | request i r a v hrequest hmark =>
    exact (handleRequest_spec htame hrequest hmark (h.buses i) hfresh next).2
  | onMessage i f o hcarries =>
    have hnone : s.issued ++ Closure.issues ⟨i, .onMessage f, o⟩ uuid = s.issued :=
      List.append_nil _
    rw [hnone]
    exact (onMessage_spec htame hcarries (h.buses i) h.unique h.requested rest).2

variable [DecidableEq ι] {r : ℕ}

/-- A closure leaves response functions only. -/
theorem Whole.responses_run (h : Whole wire r s) {c : Closure ι F} (hc : c ∈ s.closures)
    (closures : List (Closure ι F)) (handlers : Handlers) (uuid : Bytes)
    (next : Except Fault ServerID) (rest : R) (i : ι) :
    ResponsesOnly ((s.afterRun wire c closures handlers uuid next rest).bus i).publishers := by
  show ResponsesOnly (Function.update s.bus c.node _ i).publishers
  by_cases hi : i = c.node
  · rw [hi, Function.update_self]
    cases h.inv.closures c hc with
    | request j q a v hrequest hmark => exact (h.responses j).handleRequest _ a v q uuid next
    | onMessage j f o hcarries =>
      exact (h.responses j).loses (loses_processOnTcpMessage ⟨handlers, wire.encode⟩
        (wire.decode f rest) ⟨s.bus j, []⟩)
  · rw [Function.update_of_ne hi]
    exact h.responses i

/-- **A closure runs**, without a fault if it is of the request `r`, and that is still
somewhere. -/
theorem Whole.run (h : Whole wire r s) {k : ℕ} {c : Closure ι F} {closures : List (Closure ι F)}
    (hpick : pick s.closures k = some (c, closures)) {handlers : Handlers} (htame : Tame handlers)
    {uuid : Bytes} (hfresh : uuid ∉ s.issued.map Prod.fst)
    {next : Except Fault ServerID} {rest : R}
    (hok : c.origin.root = r → KeepsCallback handlers ∧
      (exec (c.task.run ⟨handlers, wire.encode⟩ (fun f => wire.decode f rest) uuid next)
        ⟨s.bus c.node, []⟩).1 = .ok ()) :
    Whole wire r (s.afterRun wire c closures handlers uuid next rest) := by
  have hperm := perm_of_pick hpick
  have hc : c ∈ s.closures := hperm.mem_iff.2 List.mem_cons_self
  refine ⟨h.inv.run hpick htame hfresh next rest, h.responses_run hc _ _ _ _ _, fun hr => ?_⟩
  have hbefore := h.somewhere hr
  simp only [Cluster.tokens, hperm.countP_eq, List.countP_cons, decide_eq_true_eq] at hbefore
  simp only [Cluster.tokens, afterRun, List.countP_append]
  by_cases hroot : c.origin.root = r
  · obtain ⟨hkeeps, hok⟩ := hok hroot
    have hafter := one_le_tokens_of_goesOn (h.inv.outcome hc htame hfresh next rest)
      (goesOn_closure (h.inv.closures c hc) htame hkeeps (h.responses c.node) hok)
    rw [hroot] at hafter
    omega
  · rw [if_neg hroot] at hbefore
    omega

/-- **One step.** -/
theorem Whole.step (h : Whole wire r s) {label : ClusterStep ι R} (hok : Completes wire r s label)
    (hstep : s.step wire label = some t) : Whole wire r t := by
  have hinv := h.inv.step hstep
  cases label with
  | consumer i address n | localConsumer i address n =>
    obtain rfl := Option.some.inj hstep
    refine ⟨hinv, fun j => ?_, h.somewhere⟩
    show ResponsesOnly (Function.update s.bus i _ j).publishers
    by_cases hj : j = i
    · rw [hj, Function.update_self]
      exact h.responses i
    · rw [Function.update_of_ne hj]
      exact h.responses j
  | request i address value q =>
    rw [Cluster.step] at hstep
    split_ifs at hstep
    obtain rfl := Option.some.inj hstep
    refine ⟨hinv, h.responses, fun hr => ?_⟩
    rw [List.map_append, List.mem_append] at hr
    rcases hr with hold | hnew
    · have hbefore := h.somewhere hold
      simp only [Cluster.tokens, List.countP_append] at hbefore ⊢
      omega
    · obtain rfl : r = q := by simpa using hnew
      simp only [Cluster.tokens, List.countP_append, List.countP_singleton, Origin.root,
        decide_true, if_true]
      omega
  | deliver k i =>
    rw [Cluster.step] at hstep
    split at hstep
    · rename_i p packets hpick
      split_ifs at hstep
      obtain rfl := Option.some.inj hstep
      refine ⟨hinv, h.responses, fun hr => ?_⟩
      have hbefore := h.somewhere hr
      simp only [Cluster.tokens, (perm_of_pick hpick).countP_eq, List.countP_cons] at hbefore
      simp only [Cluster.tokens, List.countP_append, List.countP_singleton]
      omega
    · cases hstep
  | run k handlers uuid next rest =>
    rw [Cluster.step] at hstep
    split at hstep
    · rename_i c closures hpick
      split_ifs at hstep with hfresh
      obtain rfl := Option.some.inj hstep
      exact h.run hpick handlers.2 hfresh (hok c closures hpick)
    · cases hstep

end Cluster

/-- How many frames something has come by. -/
def Origin.hops {ι : Type} : Origin ι → ℕ
  | request _ _ => 0
  | frame _ cause => cause.hops + 1

namespace Cluster

variable {ι F R : Type} {wire : Wire F R} {s t : Cluster ι F}

/-- The steps that are left of a closure: its run, and two for each frame that may come. -/
def closureWork (c : Closure ι F) : ℕ := 5 - 2 * c.origin.hops

/-- The steps that are left of a frame: its delivery, and what is left of the closure then. -/
def packetWork (p : Packet ι F) : ℕ := 6 - 2 * p.origin.hops

/-- The steps that are left. -/
def work (s : Cluster ι F) : ℕ := (s.closures.map closureWork).sum + (s.packets.map packetWork).sum

/-- Deliveries and runs. -/
def spent : ClusterStep ι R → ℕ
  | .deliver _ _ | .run _ _ _ _ _ => 1
  | _ => 0

/-- A frame has come by one or two frames. -/
theorem hops_of_carries {issued : List (Bytes × ι × ℕ)} {log : List (Invocation ι)} {o : Origin ι}
    {f : F} (h : Carries wire issued log o f) : 1 ≤ o.hops ∧ o.hops ≤ 2 := by
  cases h <;> simp [Origin.hops]

theorem hops_of_queued {issued : List (Bytes × ι × ℕ)} {log : List (Invocation ι)}
    {requests : List (ι × ℕ)} {c : Closure ι F} (h : Queued wire issued log requests c) :
    c.origin.hops ≤ 2 := by
  cases h with
  | request i r a v => exact Nat.zero_le _
  | onMessage i f o hcarries => exact (hops_of_carries hcarries).2

/-- What one closure hands on is at least one step less. -/
theorem work_of_outcome {issued : List (Bytes × ι × ℕ)} {log : List (Invocation ι)}
    {requests : List (ι × ℕ)} {c : Closure ι F} {es : List (Effect F)}
    (h : Outcome wire issued log requests c es) (hhops : c.origin.hops ≤ 2) :
    (((handed es).map fun sent =>
        (⟨sent.1, sent.2, .frame c.node c.origin⟩ : Packet ι F)).map packetWork).sum + 1
      ≤ closureWork c := by
  have hone : 1 ≤ closureWork c := by
    rw [closureWork]
    omega
  cases h with
  | nothing hr hf | invoked q hr hf => simpa [hf] using hone
  | sent frame addr hr hf =>
    simp only [hf, List.map_cons, List.map_nil, List.sum_cons, List.sum_nil, packetWork,
      closureWork, Origin.hops]
    omega

theorem sum_of_perm {β : Type} {l l' : List β} (h : l.Perm l') (f : β → ℕ) :
    (l.map f).sum = (l'.map f).sum := (h.map f).sum_eq

variable [DecidableEq ι]

/-- **A delivery or a run pays for itself**, and a request brings five steps. -/
theorem work_step (h : Inv wire s) {label : ClusterStep ι R} (hstep : s.step wire label = some t) :
    t.work + spent label + 5 * s.requests.length ≤ s.work + 5 * t.requests.length := by
  cases label with
  | consumer i address n | localConsumer i address n =>
    obtain rfl := Option.some.inj hstep
    exact le_refl _
  | request i address value r =>
    rw [Cluster.step] at hstep
    split_ifs at hstep
    obtain rfl := Option.some.inj hstep
    simp only [work, spent, List.map_append, List.sum_append, List.map_singleton,
      List.sum_singleton, closureWork, Origin.hops, List.length_append, List.length_singleton]
    omega
  | deliver k i =>
    rw [Cluster.step] at hstep
    split at hstep
    · rename_i p packets hpick
      split_ifs at hstep
      obtain rfl := Option.some.inj hstep
      have hperm := perm_of_pick hpick
      have hhops := hops_of_carries (h.packets p (hperm.mem_iff.2 List.mem_cons_self))
      simp only [work, spent, sum_of_perm hperm, List.map_append, List.sum_append, List.map_cons,
        List.map_nil, List.sum_cons, List.sum_nil, closureWork, packetWork]
      omega
    · cases hstep
  | run k handlers uuid next rest =>
    rw [Cluster.step] at hstep
    split at hstep
    · rename_i c closures hpick
      split_ifs at hstep with hfresh
      obtain rfl := Option.some.inj hstep
      have hperm := perm_of_pick hpick
      have hc : c ∈ s.closures := hperm.mem_iff.2 List.mem_cons_self
      have hpaid := work_of_outcome (h.outcome hc handlers.2 hfresh next rest)
        (hops_of_queued (h.closures c hc))
      simp only [work, spent, afterRun, sum_of_perm hperm, List.map_append, List.sum_append,
        List.map_cons, List.sum_cons]
      omega
    · cases hstep

/-- A delivery or a run makes no request. -/
theorem requests_of_spent {label : ClusterStep ι R} (hspent : spent label = 1)
    (hstep : s.step wire label = some t) : t.requests = s.requests := by
  cases label with
  | consumer | localConsumer | request => cases hspent
  | deliver k i =>
    rw [Cluster.step] at hstep
    split at hstep
    · split_ifs at hstep
      obtain rfl := Option.some.inj hstep
      rfl
    · cases hstep
  | run k handlers uuid next rest =>
    rw [Cluster.step] at hstep
    split at hstep
    · split_ifs at hstep
      obtain rfl := Option.some.inj hstep
      rfl
    · cases hstep

/-- A delivery or a run leaves less to do. -/
theorem work_lt (s : Cluster ι F) (label : ClusterStep ι R) (t : Cluster ι F) (h : Inv wire s)
    (hspent : spent label = 1) (hstep : s.step wire label = some t) :
    Inv wire t ∧ t.work < s.work := by
  have hpaid := work_step h hstep
  rw [requests_of_spent hspent hstep, hspent] at hpaid
  exact ⟨h.step hstep, by omega⟩

end Cluster

end VertxCpp
