/-
# Who a frame names

Any number of nodes of the clustered build, with every frame they have handed to
`processStringMessage`.  Nothing is assumed of the connections but that they carry frames of
nodes to the nodes these are addressed to, as late and as often as they like.

A frame names a host and a port, and the receiver answers there: the first line of
`processOnTcpMessage` makes the address from them.  The frame of a request gets both from the
options of its node.  The frame of a response gets the port from there, but the host from
the message that it answers (`response_host`).  So the runs in which every frame names its
sender are those in which a node answers only messages that name its own host
(`frames_name_sender_iff`); where all nodes have one host, that is every run
(`frames_name_sender_of_one_host`).
-/
import VertxCpp.Node
import VertxCpp.Remote
import VertxCpp.Vertx
import VertxCpp.Wire

namespace VertxCpp

open EventBus Machine Memory

/-! ### The frames of inbound messages -/

section Inbound

variable {F : Type}

/-- A message to the address of a reply hands on nothing. -/
theorem handed_processReply (env : Env F) (m : ClusteredMessage) (w : World F) :
    handed (exec (processReply env m) w).2.effects = handed w.effects :=
  respects_processReply (R := fun w w' : World F => handed w'.effects = handed w.effects) env m
    (fun w f m => handed_append_invoke w.effects f m) (fun _ _ => rfl) (fun _ _ => rfl) w

/-- The message is answered: its consumer is there and returns, and the frame of the response
fits the buffer. -/
structure Answers (handlers : Handlers) (b : EventBus) (m : ClusteredMessage) : Prop where
  mark : ¬ replyMark <:+: m.address
  called : ∃ f m', b.consumers.find m.address = some (.target f) ∧ handlers f m = .ok m'
  fits : 27 + m.replay.length + m.address.length + m.host.length ≤ 2048

/-- **What an inbound message hands on** is the frame of the response to it, or nothing. -/
theorem handed_inbound (handlers : Handlers) (b : EventBus) {m : ClusteredMessage}
    (hrequest : m.request = false) :
    handed (exec (processOnTcpMessage ⟨handlers, ClusteredMessage.toString⟩ m) ⟨b, []⟩).2.effects
        = [] ∧ ¬ Answers handlers b m ∨
      handed (exec (processOnTcpMessage ⟨handlers, ClusteredMessage.toString⟩ m) ⟨b, []⟩).2.effects
        = [((responseMessage b.options m).header, tcpAddress m.host m.port)] ∧
        Answers handlers b m := by
  by_cases hanswers : Answers handlers b m
  · right
    obtain ⟨f, m', hconsumer, hcall⟩ := hanswers.called
    rw [processConsumer_frame hrequest hanswers.mark hconsumer hcall hanswers.fits]
    exact ⟨rfl, hanswers⟩
  · left
    refine ⟨?_, hanswers⟩
    rw [exec_inbound _ _ _ hrequest]
    split_ifs with hmark
    · exact handed_processReply _ m _
    · simp only [processConsumer, exec_bind, exec_consumersAt, exec_get]
      cases hfind : b.consumers.find m.address with
      | none =>
        rw [Table.subscript_of_none hfind]
        rfl
      | some f =>
        rw [Table.subscript_of_some hfind]
        cases f with
        | empty => rfl
        | target f =>
          simp only [exec_call_target]
          cases hcall : handlers f m with
          | error e => rfl
          | ok m' =>
            simp only [exec_ofExcept]
            cases hencode : (responseMessage b.options m).toString with
            | error e => rfl
            | ok frame =>
              have hfits : 27 + m.replay.length + m.address.length + m.host.length ≤ 2048 := by
                rw [ClusteredMessage.toString_eq, ClusteredMessage.length_frame] at hencode
                split_ifs at hencode with hfits
                exact hfits
              exact absurd ⟨hmark, ⟨f, m', hfind, hcall⟩, hfits⟩ hanswers

end Inbound

/-! ### The network -/

/-- A frame handed to `processStringMessage`, with the node that did and the address. -/
structure SentFrame (ι : Type) where
  sender : ι
  frame : Bytes
  addr : Bytes

/-- The nodes, the closures queued in their event loops, and all frames handed on so far. -/
structure Network (ι : Type) where
  bus : ι → EventBus
  queued : List (ι × LoopTask Bytes)
  sent : List (SentFrame ι)

/-- What can happen next.  A run of a closure comes with what user code does in it, the uuid
generated, the answer of `hz->next` and the memory behind the frame. -/
inductive NetworkStep (ι : Type) where
  | consumer (node : ι) (address : Bytes) (function : MsgCallback)
  | localConsumer (node : ι) (address : Bytes) (function : MsgCallback)
  | request (node : ι) (address : Bytes) (value : Any) (func : MsgCallback)
  | deliver (k : ℕ) (node : ι)
  | run (k : ℕ) (handlers : Handlers) (uuid : Bytes) (next : Except Fault ServerID)
      (behind : Memory)

namespace Network

variable {ι : Type}

def start (options : ι → EventBusOptions) : Network ι where
  bus i := ⟨options i, .empty, .empty, .empty⟩
  queued := []
  sent := []

variable [DecidableEq ι]

/-- The network after the closure of a node, taken out of the loops, has run. -/
def afterRun (s : Network ι) (node : ι) (task : LoopTask Bytes) (queued : List (ι × LoopTask Bytes))
    (handlers : Handlers) (uuid : Bytes) (next : Except Fault ServerID) (behind : Memory) :
    Network ι :=
  let action := task.run ⟨handlers, ClusteredMessage.toString⟩
    (fun frame => byteWire.decode frame behind) uuid next
  let w := (exec action ⟨s.bus node, []⟩).2
  { bus := Function.update s.bus node w.bus
    queued := queued
    sent := s.sent ++ (handed w.effects).map fun sent => ⟨node, sent.1, sent.2⟩ }

def step (s : Network ι) : NetworkStep ι → Option (Network ι)
  | .consumer node address function =>
    let action : Action Bytes Unit := EventBus.consumer address function
    some { s with bus := Function.update s.bus node (exec action ⟨s.bus node, []⟩).2.bus }
  | .localConsumer node address function =>
    let action : Action Bytes Unit := EventBus.localConsumer address function
    some { s with bus := Function.update s.bus node (exec action ⟨s.bus node, []⟩).2.bus }
  | .request node address value func =>
    some { s with queued := s.queued ++ [(node, .request address value func)] }
  | .deliver k node =>
    match s.sent[k]? with
    | some p =>
      if p.addr = tcpAddress (s.bus node).options.host (s.bus node).options.port then
        some { s with queued := s.queued ++ [(node, .onMessage p.frame)] }
      else none
    | none => none
  | .run k handlers uuid next behind =>
    match pick s.queued k with
    | some ((node, task), queued) => some (s.afterRun node task queued handlers uuid next behind)
    | none => none

omit [DecidableEq ι] in
/-- A message that a node answers names the host of the node. -/
def SharesHost (s : Network ι) : NetworkStep ι → Prop
  | .run k handlers _ _ behind => ∀ node frame, s.queued[k]? = some (node, .onMessage frame) →
      Answers handlers (s.bus node) (byteWire.decode frame behind) →
      (byteWire.decode frame behind).host = (s.bus node).options.host
  | _ => True

end Network

/-- The frame decodes to the host and the port of the node that handed it on, whatever stands
behind it, so that an answer is addressed to that node. -/
structure NamesSender {ι : Type} (options : ι → EventBusOptions) (p : SentFrame ι) : Prop where
  host : ∀ mem, CStr p.frame mem → (toMessage mem false).1.host = (options p.sender).host
  port : ∀ mem, CStr p.frame mem → (toMessage mem false).1.port = (options p.sender).port

/-- The frame of a response names the port of its node and the host of the message that it
answers. -/
theorem response_host {handlers : Handlers} {b : EventBus} {m : ClusteredMessage} {mem : Memory}
    (hanswers : Answers handlers b m)
    (hmem : CStr (responseMessage b.options m).header mem) :
    (toMessage mem false).1.port = b.options.port ∧ (toMessage mem false).1.host = m.host :=
  endpoint_arrives (m := responseMessage b.options m) (toString_of_no_reply rfl hanswers.fits) hmem

namespace Network

variable {ι : Type} {options : ι → EventBusOptions}

/-- Frames name their senders, only frames that were handed on are queued, and the options of
a node stay. -/
structure Inv (options : ι → EventBusOptions) (s : Network ι) : Prop where
  sent : ∀ p ∈ s.sent, NamesSender options p
  queued : ∀ i frame, (i, LoopTask.onMessage frame) ∈ s.queued → ∃ p ∈ s.sent, p.frame = frame
  options : ∀ i, (s.bus i).options = options i

theorem inv_start (options : ι → EventBusOptions) : Inv options (start options) :=
  ⟨fun _ hp => absurd hp List.not_mem_nil, fun _ _ h => absurd h List.not_mem_nil, fun _ => rfl⟩

section Step

variable [DecidableEq ι] {s t : Network ι} {node : ι} {handlers : Handlers} {uuid : Bytes}
  {next : Except Fault ServerID} {behind : Memory}

/-- A task leaves the options of its bus alone. -/
theorem options_run (task : LoopTask Bytes) (env : Env Bytes) (decode : Bytes → ClusteredMessage)
    (uuid : Bytes) (next : Except Fault ServerID) (b : EventBus) :
    (exec (task.run env decode uuid next) ⟨b, []⟩).2.bus.options = b.options := by
  cases task with
  | request address value func =>
    exact (Task.gains env (.request address value func uuid next) ⟨b, []⟩).options
  | onMessage frame => exact (loses_processOnTcpMessage env (decode frame) ⟨b, []⟩).options

/-- **The frames of one run** name the node: those of a request always, that of a response
where the message answered names the host of the node. -/
theorem names_of_run {b : EventBus} {task : LoopTask Bytes}
    (htask : ∀ frame, task = .onMessage frame →
      Answers handlers b (byteWire.decode frame behind) →
      (byteWire.decode frame behind).host = b.options.host)
    {sent : Bytes × Bytes}
    (hsent : sent ∈ handed (exec (task.run ⟨handlers, ClusteredMessage.toString⟩
      (fun frame => byteWire.decode frame behind) uuid next) ⟨b, []⟩).2.effects)
    {mem : Memory} (hmem : CStr sent.1 mem) :
    (toMessage mem false).1.host = b.options.host ∧
      (toMessage mem false).1.port = b.options.port := by
  cases task with
  | request address value func =>
    rcases handed_handleRequest ⟨handlers, ClusteredMessage.toString⟩ b address value func uuid
      next with hnone | ⟨server, frame, -, -, hencode, hone⟩
    · rw [LoopTask.run, hnone] at hsent
      exact absurd hsent List.not_mem_nil
    · rw [LoopTask.run, hone] at hsent
      obtain rfl := List.mem_singleton.1 hsent
      obtain ⟨hport, hhost⟩ := endpoint_arrives hencode hmem
      exact ⟨hhost, hport⟩
  | onMessage frame =>
    rcases handed_inbound handlers b (m := byteWire.decode frame behind) rfl with
      ⟨hnone, -⟩ | ⟨hone, hanswers⟩
    · rw [LoopTask.run, hnone] at hsent
      exact absurd hsent List.not_mem_nil
    · rw [LoopTask.run, hone] at hsent
      obtain rfl := List.mem_singleton.1 hsent
      obtain ⟨hport, hhost⟩ := response_host hanswers hmem
      exact ⟨hhost.trans (htask frame rfl hanswers), hport⟩

/-- A registration changes no options, queues nothing and hands on nothing. -/
theorem Inv.update (h : Inv options s) (node : ι) {b : EventBus}
    (hb : b.options = (s.bus node).options) :
    Inv options { s with bus := Function.update s.bus node b } := by
  refine ⟨h.sent, h.queued, fun i => ?_⟩
  show (Function.update s.bus node b i).options = options i
  by_cases hi : i = node
  · subst hi
    rw [Function.update_self, hb, h.options]
  · rw [Function.update_of_ne hi, h.options]

/-- **One step.** -/
theorem Inv.step (h : Inv options s) {label : NetworkStep ι} (hok : SharesHost s label)
    (hstep : s.step label = some t) : Inv options t := by
  cases label with
  | consumer node address function =>
    obtain rfl := Option.some.inj hstep
    exact h.update node rfl
  | localConsumer node address function =>
    obtain rfl := Option.some.inj hstep
    exact h.update node rfl
  | request node address value func =>
    obtain rfl := Option.some.inj hstep
    refine ⟨h.sent, fun i frame hi => ?_, h.options⟩
    rcases List.mem_append.1 hi with hold | hnew
    · exact h.queued i frame hold
    · cases List.mem_singleton.1 hnew
  | deliver k node =>
    rw [Network.step] at hstep
    split at hstep
    · rename_i p hp
      split_ifs at hstep
      obtain rfl := Option.some.inj hstep
      refine ⟨h.sent, fun i frame hi => ?_, h.options⟩
      rcases List.mem_append.1 hi with hold | hnew
      · exact h.queued i frame hold
      · cases List.mem_singleton.1 hnew
        exact ⟨p, List.mem_of_getElem? hp, rfl⟩
    · cases hstep
  | run k handlers uuid next behind =>
    rw [Network.step] at hstep
    split at hstep
    · rename_i node task queued hpick
      obtain rfl := Option.some.inj hstep
      obtain ⟨closure, hclosure, hrest⟩ := Option.map_eq_some_iff.1 hpick
      obtain ⟨rfl, rfl⟩ := Prod.mk.inj hrest
      have htask : ∀ frame, task = .onMessage frame →
          Answers handlers (s.bus node) (byteWire.decode frame behind) →
          (byteWire.decode frame behind).host = (s.bus node).options.host := by
        rintro frame rfl hanswers
        exact hok node frame hclosure hanswers
      have hbus := h.update node (options_run task ⟨handlers, ClusteredMessage.toString⟩
        (fun frame => byteWire.decode frame behind) uuid next (s.bus node))
      refine ⟨fun p hp => ?_, fun i frame hi => ?_, hbus.options⟩
      · rcases List.mem_append.1 hp with hold | hnew
        · exact h.sent p hold
        · obtain ⟨sent, hsent, rfl⟩ := List.mem_map.1 hnew
          have hnames {mem : Memory} (hmem : CStr sent.1 mem) := names_of_run htask hsent hmem
          rw [h.options] at hnames
          exact ⟨fun mem hmem => (hnames hmem).1, fun mem hmem => (hnames hmem).2⟩
      · obtain ⟨p, hp, hframe⟩ := h.queued i frame (List.mem_of_mem_eraseIdx hi)
        exact ⟨p, List.mem_append_left _ hp, hframe⟩
    · cases hstep

/-- What was handed on stays handed on. -/
theorem sent_step {label : NetworkStep ι} (hstep : s.step label = some t) : s.sent <+: t.sent := by
  cases label with
  | deliver k node =>
    rw [Network.step] at hstep
    split at hstep
    · split_ifs at hstep
      obtain rfl := Option.some.inj hstep
      exact List.prefix_refl _
    · cases hstep
  | run k handlers uuid next behind =>
    rw [Network.step] at hstep
    split at hstep
    · obtain rfl := Option.some.inj hstep
      exact List.prefix_append _ _
    · cases hstep
  | _ =>
    obtain rfl := Option.some.inj hstep
    exact List.prefix_refl _

theorem sent_run {labels : List (NetworkStep ι)}
    (hrun : Machine.run Network.step s labels = some t) :
    s.sent <+: t.sent :=
  run_invariant (I := fun r => s.sent <+: r.sent)
    (fun _ _ _ h hstep => h.trans (sent_step hstep)) hrun (List.prefix_refl _)

/-- **A node that answers a message with another host** hands on a frame that does not name
it. -/
theorem not_names_of_step (h : Inv options s) {label : NetworkStep ι}
    (hhost : ¬ SharesHost s label) (hstep : s.step label = some t) :
    ∃ p ∈ t.sent, ¬ NamesSender options p := by
  cases label with
  | run k handlers uuid next behind =>
    obtain ⟨node, frame, hclosure, hanswers, hne⟩ : ∃ node frame,
        s.queued[k]? = some (node, .onMessage frame) ∧
        Answers handlers (s.bus node) (byteWire.decode frame behind) ∧
        (byteWire.decode frame behind).host ≠ (s.bus node).options.host := by
      simpa [SharesHost] using hhost
    rw [Network.step, pick, hclosure] at hstep
    obtain rfl := Option.some.inj hstep
    rcases handed_inbound handlers (s.bus node) (m := byteWire.decode frame behind) rfl with
      ⟨-, hnot⟩ | ⟨hone, -⟩
    · exact absurd hanswers hnot
    · have hframe : ((responseMessage (s.bus node).options (byteWire.decode frame behind)).header,
          tcpAddress (byteWire.decode frame behind).host (byteWire.decode frame behind).port)
            ∈ handed (exec (processOnTcpMessage ⟨handlers, ClusteredMessage.toString⟩
              (byteWire.decode frame behind)) ⟨s.bus node, []⟩).2.effects := by
        rw [hone]
        exact List.mem_singleton_self _
      refine ⟨_, List.mem_append_right _ (List.mem_map_of_mem hframe), fun hnames => ?_⟩
      have hmem := holds_overlay ((responseMessage (s.bus node).options
        (byteWire.decode frame behind)).header ++ [0]) behind
      obtain ⟨-, hfirst⟩ := response_host hanswers hmem
      rw [h.options] at hne
      exact hne (hfirst.symm.trans (hnames.host _ hmem))
  | _ => exact absurd trivial hhost

/-- Where every frame names its sender at the end, no step of the run was one of these. -/
theorem Inv.meets_of_names (h : Inv options s) {labels : List (NetworkStep ι)}
    (hrun : Machine.run Network.step s labels = some t)
    (hnames : ∀ p ∈ t.sent, NamesSender options p) : Meets Network.step SharesHost s labels := by
  induction labels generalizing s with
  | nil => trivial
  | cons label labels ih =>
    obtain ⟨r, hr, hrt⟩ := run_cons_eq_some.1 hrun
    have hok : SharesHost s label := by
      by_contra hhost
      obtain ⟨p, hp, hnot⟩ := not_names_of_step h hhost hr
      exact hnot (hnames p ((sent_run hrt).subset hp))
    refine ⟨hok, fun r' hr' => ?_⟩
    obtain rfl := Option.some.inj (hr.symm.trans hr')
    exact ih (h.step hok hr) hrt

omit [DecidableEq ι] in
/-- Where all nodes have one host, every frame names it. -/
theorem Inv.sharesHost (h : Inv options s) (hone : ∀ i j, (options i).host = (options j).host)
    (label : NetworkStep ι) : SharesHost s label := by
  cases label with
  | run k handlers uuid next behind =>
    intro node frame hclosure _
    obtain ⟨p, hp, rfl⟩ := h.queued node frame (List.mem_of_getElem? hclosure)
    rw [h.options, hone node p.sender]
    exact (h.sent p hp).host _ (holds_overlay _ _)
  | _ => trivial

theorem Inv.meets (h : Inv options s) (hone : ∀ i j, (options i).host = (options j).host)
    (labels : List (NetworkStep ι)) : Meets Network.step SharesHost s labels := by
  induction labels generalizing s with
  | nil => trivial
  | cons label labels ih =>
    have hok := h.sharesHost hone label
    exact ⟨hok, fun t hstep => ih (h.step hok hstep)⟩

end Step

section Runs

variable [DecidableEq ι] {labels : List (NetworkStep ι)} {s : Network ι}

theorem inv_of_run (hok : Meets step SharesHost (start options) labels)
    (hrun : run step (start options) labels = some s) : Inv options s :=
  hok.invariant (fun _ _ _ h hl hstep => h.step hl hstep) hrun (inv_start options)

/-- **The runs in which every frame names its sender** are those in which every message that
a node answers names the host of the node. -/
theorem frames_name_sender_iff (hrun : run step (start options) labels = some s) :
    (∀ p ∈ s.sent, NamesSender options p) ↔ Meets step SharesHost (start options) labels :=
  ⟨(inv_start options).meets_of_names hrun, fun hok => (inv_of_run hok hrun).sent⟩

/-- Where all nodes have one host, that is every run. -/
theorem frames_name_sender_of_one_host (hone : ∀ i j, (options i).host = (options j).host)
    (hrun : run step (start options) labels = some s) : ∀ p ∈ s.sent, NamesSender options p :=
  (inv_of_run ((inv_start options).meets hone labels) hrun).sent

end Runs

/-- Two nodes. -/
def nodes (second : EventBusOptions) : Bool → EventBusOptions
  | false => ⟨bytes "10.0.0.1", 15701⟩
  | true => second

/-- A consumer on the second node, a request from the first, its frame delivered, the consumer
called. -/
def servedRequest (second : EventBusOptions) : List (NetworkStep Bool) :=
  [.consumer true (bytes "orders") (.target (.handler 0)),
    .request false (bytes "orders") (.string (bytes "book")) (.target (.response 0)),
    .run 0 idle (bytes "7") (.ok ⟨second.port, second.host⟩) fun _ => 0,
    .deliver 0 true,
    .run 0 idle [] (.error .outOfRange) fun _ => 0]

/-- The frames of a run, each with its sender and the host it names. -/
def hosts (s : Network Bool) : List (Bool × Bytes) :=
  s.sent.map fun p => (p.sender, (byteWire.decode p.frame fun _ => 0).host)

/-- Two nodes on one host. -/
theorem frames_name_sender_two :
    ∃ s, run step (start (nodes ⟨bytes "10.0.0.1", 15702⟩))
        (servedRequest ⟨bytes "10.0.0.1", 15702⟩) = some s ∧
      hosts s = [(false, bytes "10.0.0.1"), (true, bytes "10.0.0.1")] ∧
      ∀ p ∈ s.sent, NamesSender (nodes ⟨bytes "10.0.0.1", 15702⟩) p := by
  have hseen : (run step (start (nodes ⟨bytes "10.0.0.1", 15702⟩))
      (servedRequest ⟨bytes "10.0.0.1", 15702⟩)).map hosts
        = some [(false, bytes "10.0.0.1"), (true, bytes "10.0.0.1")] := by
    decide +kernel
  obtain ⟨s, hrun, hhosts⟩ := Option.map_eq_some_iff.1 hseen
  have hone : ∀ i j, (nodes ⟨bytes "10.0.0.1", 15702⟩ i).host
      = (nodes ⟨bytes "10.0.0.1", 15702⟩ j).host := by decide
  exact ⟨s, hrun, hhosts, (frames_name_sender_iff hrun).2 ((inv_start _).meets hone _)⟩

/-- On two hosts, the response of the second node names the host of the first. -/
theorem response_names_requester :
    ¬ ∀ (options : Bool → EventBusOptions) (labels : List (NetworkStep Bool)) (s : Network Bool),
      (∀ i j, i ≠ j → options i ≠ options j) → run step (start options) labels = some s →
      ∀ p ∈ s.sent, NamesSender options p := by
  intro h
  have hseen : (run step (start (nodes ⟨bytes "10.0.0.2", 15701⟩))
      (servedRequest ⟨bytes "10.0.0.2", 15701⟩)).map hosts
        = some [(false, bytes "10.0.0.1"), (true, bytes "10.0.0.1")] := by
    decide +kernel
  obtain ⟨s, hrun, hhosts⟩ := Option.map_eq_some_iff.1 hseen
  obtain ⟨p, hp, hhost⟩ : ∃ p ∈ s.sent,
      (p.sender, (byteWire.decode p.frame fun _ => 0).host) = (true, bytes "10.0.0.1") := by
    rw [← List.mem_map]
    rw [hosts] at hhosts
    rw [hhosts]
    simp
  obtain ⟨hsender, hfirst⟩ := Prod.mk.inj hhost
  have hnames := (h _ _ s (by decide) hrun p hp).host _ (holds_overlay (p.frame ++ [0]) fun _ => 0)
  have hsecond : (byteWire.decode p.frame fun _ => 0).host = (nodes ⟨bytes "10.0.0.2", 15701⟩
    p.sender).host := hnames
  rw [hfirst, hsender] at hsecond
  exact absurd hsecond (by decide)

end Network

end VertxCpp
