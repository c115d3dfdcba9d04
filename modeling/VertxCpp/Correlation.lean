/-
# Requests and replies across nodes

Any number of nodes, the closures queued in their event loops and the frames on
their way between them.  A step is a registration, a call of `request`, the
arrival of a frame at the node it is addressed to, or the run of any one closure;
frames and closures may be taken in any order, and never.  A run brings with it
what user code does in it, the uuid generated and the answer of `hz->next`.

Every closure and every frame carries its `Origin`, the request it began with and
the nodes it has passed, which nothing in the system looks at.  A request begins
with one closure, and what a run hands on or calls takes the place of the closure
it ran: so of each request there is at most one closure, frame or call at a time
(`Inv.tokens`), and its response function is called at most once.

That it is called for its own request is the uuid's doing.  A key of
`_publishers` is a reply address that this node issued for the request whose
function it holds (`BusInv`), and a frame carries the reply address issued for the
request it began with, in the one field on the way out and in the other on the way
back (`Carries`).  Two requests never have the same, so which node the frame is
delivered to does not matter.
-/
import VertxCpp.Dispatch
import VertxCpp.Library.Machine
import VertxCpp.Wire

namespace VertxCpp

open EventBus Machine

/-- Where a closure or a frame comes from: the call of `request` of that number on a
node, or the frame that a node handed on while it ran a closure from there. -/
inductive Origin (ι : Type) where
  | request (node : ι) (r : ℕ)
  | frame (node : ι) (cause : Origin ι)
  deriving DecidableEq

/-- The number of the request that something began with. -/
def Origin.root {ι : Type} : Origin ι → ℕ
  | request _ r => r
  | frame _ cause => cause.root

/-- A closure queued in an event loop of a node. -/
structure Closure (ι F : Type) where
  node : ι
  task : LoopTask F
  origin : Origin ι

/-- A frame handed to `processStringMessage` and not delivered yet. -/
structure Packet (ι F : Type) where
  frame : F
  addr : Bytes
  origin : Origin ι

/-- A call of a user's function, by a node running a closure of that origin. -/
structure Invocation (ι : Type) where
  node : ι
  origin : Origin ι
  func : FuncId
  message : ClusteredMessage

/-- The nodes of a cluster.  `requests`, `issued` and `log` record what has happened:
which node called `request` with which number, which uuid it generated for it, and
which functions were called. -/
structure Cluster (ι F : Type) where
  bus : ι → EventBus
  closures : List (Closure ι F)
  packets : List (Packet ι F)
  requests : List (ι × ℕ)
  issued : List (Bytes × ι × ℕ)
  log : List (Invocation ι)

/-- What can happen next.  The number of a registration or a request names the function
it is given. -/
inductive ClusterStep (ι R : Type) where
  | consumer (node : ι) (address : Bytes) (n : ℕ)
  | localConsumer (node : ι) (address : Bytes) (n : ℕ)
  | request (node : ι) (address : Bytes) (value : Any) (r : ℕ)
  | deliver (k : ℕ) (node : ι)
  | run (k : ℕ) (handlers : Subtype Tame) (uuid : Bytes) (next : Except Fault ServerID) (rest : R)

/-- The uuid that the run of a closure generates, with what it is for. -/
def Closure.issues {ι F : Type} (c : Closure ι F) (uuid : Bytes) : List (Bytes × ι × ℕ) :=
  match c.task with
  | .request _ _ _ => [(uuid, c.node, c.origin.root)]
  | .onMessage _ => []

/-- The calls among the effects of a run. -/
def invocations {ι F : Type} (node : ι) (origin : Origin ι) (es : List (Effect F)) :
    List (Invocation ι) :=
  es.filterMap fun
    | .invoke f m => some ⟨node, origin, f, m⟩
    | _ => none

namespace Cluster

variable {ι F R : Type} [DecidableEq ι]

/-- The cluster at first: the nodes with their options. -/
def start (options : ι → EventBusOptions) : Cluster ι F where
  bus i := ⟨options i, .empty, .empty, .empty⟩
  closures := []
  packets := []
  requests := []
  issued := []
  log := []

/-- The cluster after the closure `c`, taken out of the loops, has run. -/
def afterRun (wire : Wire F R) (s : Cluster ι F) (c : Closure ι F) (closures : List (Closure ι F))
    (handlers : Handlers) (uuid : Bytes) (next : Except Fault ServerID) (rest : R) : Cluster ι F :=
  let action := c.task.run ⟨handlers, wire.encode⟩ (fun f => wire.decode f rest) uuid next
  let w := (exec action ⟨s.bus c.node, []⟩).2
  { bus := Function.update s.bus c.node w.bus
    closures := closures
    packets := s.packets
      ++ (handed w.effects).map fun sent => ⟨sent.1, sent.2, .frame c.node c.origin⟩
    requests := s.requests
    issued := s.issued ++ c.issues uuid
    log := s.log ++ invocations c.node c.origin w.effects }

def step (wire : Wire F R) (s : Cluster ι F) : ClusterStep ι R → Option (Cluster ι F)
  | .consumer i address n =>
    let action : Action F Unit := EventBus.consumer address (.target (.handler n))
    some { s with bus := Function.update s.bus i (exec action ⟨s.bus i, []⟩).2.bus }
  | .localConsumer i address n =>
    let action : Action F Unit := EventBus.localConsumer address (.target (.handler n))
    some { s with bus := Function.update s.bus i (exec action ⟨s.bus i, []⟩).2.bus }
  | .request i address value r =>
    if r ∈ s.requests.map Prod.snd ∨ replyMark <:+: address then none
    else
      let task : LoopTask F := .request address value (.target (.response r))
      some { s with closures := s.closures ++ [⟨i, task, .request i r⟩],
                    requests := s.requests ++ [(i, r)] }
  | .deliver k i =>
    match pick s.packets k with
    | some (p, packets) =>
      if p.addr = tcpAddress (s.bus i).options.host (s.bus i).options.port then
        some { s with packets, closures := s.closures ++ [⟨i, .onMessage p.frame, p.origin⟩] }
      else none
    | none => none
  | .run k handlers uuid next rest =>
    match pick s.closures k with
    | some (c, closures) =>
      if uuid ∈ s.issued.map Prod.fst then none
      else some (s.afterRun wire c closures handlers.1 uuid next rest)
    | none => none

end Cluster

/-! ### What holds of one bus, one frame, one closure -/

section Parts

variable {ι F R : Type} (wire : Wire F R) (issued : List (Bytes × ι × ℕ))
  (log : List (Invocation ι)) (requests : List (ι × ℕ))

/-- The tables of the node `i`: keys of `_publishers` are issued, and the response
function under one is of the request it was issued for, a request of this node. -/
structure BusInv (i : ι) (b : EventBus) : Prop where
  consumers : HandlersOnly b.consumers
  consumersLocal : HandlersOnly b.consumersLocal
  keys : ∀ k, b.publishers.find k ≠ none → ∃ e ∈ issued, k = replyAddress e.1
  functions : ∀ k r, b.publishers.find k = some (.target (.response r)) →
    ∃ u, (u, i, r) ∈ issued ∧ k = replyAddress u

/-- What a frame of some origin carries: on the way out the reply address issued for its
request and the address of a consumer; on the way back, from a node that has called a
consumer with the request, the reply address in the other field. -/
inductive Carries : Origin ι → F → Prop
  | request (i : ι) (r : ℕ) (u : Bytes) (m : ClusteredMessage) (f : F)
      (hissued : (u, i, r) ∈ issued) (hencode : wire.encode m = .ok f)
      (haddress : m.address = replyAddress u)
      (hmark : ¬ replyMark <:+: m.replay) : Carries (.frame i (.request i r)) f
  | response (j i : ι) (r : ℕ) (u : Bytes) (m : ClusteredMessage) (f : F)
      (hissued : (u, i, r) ∈ issued) (hencode : wire.encode m = .ok f)
      (hreplay : m.replay = replyAddress u)
      (hcall : ∃ n q options, ⟨j, .frame i (.request i r), .handler n, q⟩ ∈ log ∧
        m = responseMessage options q) :
      Carries (.frame j (.frame i (.request i r))) f

/-- What a closure is: a request that was made, or a frame. -/
inductive Queued : Closure ι F → Prop
  | request (i : ι) (r : ℕ) (a : Bytes) (v : Any) (hrequest : (i, r) ∈ requests)
      (hmark : ¬ replyMark <:+: a) :
      Queued ⟨i, .request a v (.target (.response r)), .request i r⟩
  | onMessage (i : ι) (f : F) (o : Origin ι) (hcarries : Carries wire issued log o f) :
      Queued ⟨i, .onMessage f, o⟩

/-- A node that runs a closure of origin `o` may call the response function of its request
`r` with `message`: the closure is the request, and a consumer has been called in the same run;
or it brings the answer of a node that has called a consumer with the very frame sent for the
request, and `message` is what is decoded of that answer. -/
def Rightful (node : ι) (o : Origin ι) (r : ℕ) (message : ClusteredMessage) : Prop :=
  (o = .request node r ∧ ∃ n q, ⟨node, .request node r, .handler n, q⟩ ∈ log) ∨
    ∃ j, o = .frame j (.frame node (.request node r)) ∧
      ∃ n q options frame rest, ⟨j, .frame node (.request node r), .handler n, q⟩ ∈ log ∧
        wire.encode (responseMessage options q) = .ok frame ∧ message = wire.decode frame rest

/-- What the run of a closure does: one thing at most, and that rightly. -/
inductive Outcome (c : Closure ι F) (es : List (Effect F)) : Prop
  | nothing (hr : responses es = []) (hf : handed es = [])
  | invoked (r : ℕ) (hr : responses es = [r]) (hf : handed es = []) (hroot : c.origin.root = r)
      (hrequest : (c.node, r) ∈ requests)
      (hright : ∀ x, .invoke (.response r) x ∈ es →
        Rightful wire (log ++ invocations c.node c.origin es) c.node c.origin r x)
  | sent (frame : F) (addr : Bytes) (hr : responses es = []) (hf : handed es = [(frame, addr)])
      (hcarries : Carries wire issued (log ++ invocations c.node c.origin es)
        (.frame c.node c.origin) frame)

end Parts

section Runs

variable {ι F R : Type} {wire : Wire F R} {issued issued' : List (Bytes × ι × ℕ)}
  {log log' : List (Invocation ι)} {requests : List (ι × ℕ)} {i : ι} {b b' : EventBus}

theorem replyMark_infix (u : Bytes) : replyMark <:+: replyAddress u := by
  refine ⟨[], bytes "." ++ u, ?_⟩
  rw [List.nil_append, ← List.append_assoc]
  rfl

theorem replyAddress_injective : Function.Injective replyAddress := by
  intro u v h
  exact List.append_cancel_left h

theorem BusInv.mono (h : BusInv issued i b) (hsub : issued ⊆ issued') : BusInv issued' i b := by
  refine ⟨h.consumers, h.consumersLocal, fun k hk => ?_, fun k r hk => ?_⟩
  · obtain ⟨e, he, hkey⟩ := h.keys k hk
    exact ⟨e, hsub he, hkey⟩
  · obtain ⟨u, hu, hkey⟩ := h.functions k r hk
    exact ⟨u, hsub hu, hkey⟩

theorem Carries.mono {o : Origin ι} {f : F} (h : Carries wire issued log o f)
    (hsub : issued ⊆ issued') (hlog : log ⊆ log') : Carries wire issued' log' o f := by
  cases h with
  | request i r u m _ hissued hencode haddress hmark =>
    exact .request i r u m f (hsub hissued) hencode haddress hmark
  | response j i r u m _ hissued hencode hreplay hcall =>
    obtain ⟨n, q, options, hq, hm⟩ := hcall
    exact .response j i r u m f (hsub hissued) hencode hreplay ⟨n, q, options, hlog hq, hm⟩

theorem Rightful.mono {o : Origin ι} {r : ℕ} {message : ClusteredMessage}
    (h : Rightful wire log i o r message) (hlog : log ⊆ log') :
    Rightful wire log' i o r message := by
  rcases h with ⟨ho, n, q, hq⟩ | ⟨j, ho, n, q, options, frame, rest, hq, hmessage⟩
  · exact Or.inl ⟨ho, n, q, hlog hq⟩
  · exact Or.inr ⟨j, ho, n, q, options, frame, rest, hlog hq, hmessage⟩

/-- A run that leaves the tables alone, or drops from them, keeps what holds of a bus. -/
theorem BusInv.keeps {m : ClusteredMessage} (h : BusInv issued i b) (hkeeps : Keeps m b b')
    (hkey : replyMark <:+: m.address → m.request = false →
      ∃ e ∈ issued, m.address = replyAddress e.1) :
    BusInv issued i b' := by
  refine ⟨hkeeps.consumers h.consumers, hkeeps.consumersLocal ▸ h.consumersLocal, fun k hk => ?_,
    fun k r hk => h.functions k r (hkeeps.publishers k _ hk)⟩
  rcases hkeeps.keys k hk with hold | ⟨rfl, hmark, hrequest⟩
  · exact h.keys k hold
  · exact hkey hmark hrequest

theorem mem_invocations {node : ι} {o : Origin ι} {es : List (Effect F)} {f : FuncId}
    {m : ClusteredMessage} (h : .invoke f m ∈ es) : ⟨node, o, f, m⟩ ∈ invocations node o es :=
  List.mem_filterMap.2 ⟨_, h, rfl⟩

theorem of_mem_invocations {node : ι} {o : Origin ι} {es : List (Effect F)} {e : Invocation ι}
    (h : e ∈ invocations node o es) :
    e.node = node ∧ e.origin = o ∧ .invoke e.func e.message ∈ es := by
  obtain ⟨effect, heffect, he⟩ := List.mem_filterMap.1 h
  cases effect with
  | invoke f m =>
    obtain rfl := Option.some.inj he
    exact ⟨rfl, rfl, heffect⟩
  | processStringMessage frame addr => simp at he
  | addSub address port host => simp at he

theorem Queued.mono {c : Closure ι F} (h : Queued wire issued log requests c)
    (hsub : issued ⊆ issued') (hlog : log ⊆ log') : Queued wire issued' log' requests c := by
  cases h with
  | request i r a v hrequest hmark => exact .request i r a v hrequest hmark
  | onMessage i f o hcarries => exact .onMessage i f o (hcarries.mono hsub hlog)

/-- What a closure issues is for the request it is. -/
theorem Queued.issues {c : Closure ι F} (h : Queued wire issued log requests c) {uuid u : Bytes}
    {r : ℕ} (hu : (u, i, r) ∈ c.issues uuid) :
    u = uuid ∧ i = c.node ∧ r = c.origin.root ∧ (i, r) ∈ requests := by
  cases h with
  | request j q a v hrequest hmark =>
    obtain ⟨rfl, rfl, rfl⟩ : u = uuid ∧ i = j ∧ r = q := by
      simpa [Closure.issues, Origin.root] using hu
    exact ⟨rfl, rfl, rfl, hrequest⟩
  | onMessage j f o hcarries => exact absurd hu List.not_mem_nil

/-- **A frame arrives.**  On the way out it reaches a consumer, whose answer carries the
reply address on; on the way back it can only find the function it is for. -/
theorem onMessage_spec {f : F} {o : Origin ι} {handlers : Handlers} (htame : Tame handlers)
    (hcarries : Carries wire issued log o f) (hb : BusInv issued i b)
    (hunique : ∀ u i r j q, (u, i, r) ∈ issued → (u, j, q) ∈ issued → i = j ∧ r = q)
    (hrequests : ∀ u i r, (u, i, r) ∈ issued → (i, r) ∈ requests) (rest : R) :
    let w := (exec (processOnTcpMessage ⟨handlers, wire.encode⟩ (wire.decode f rest)) ⟨b, []⟩).2
    BusInv issued i w.bus ∧
      Outcome wire issued log requests ⟨i, .onMessage f, o⟩ w.effects := by
  intro w
  cases hcarries with
  | request i₀ r u m _ hissued hencode haddress hmark =>
    obtain ⟨ha, hreply, hport, hhost, hreq⟩ := wire.exchange m f hencode rest
    have hspec : Keeps (wire.decode f rest) b w.bus ∧
        Did ⟨handlers, wire.encode⟩ b (wire.decode f rest) w.effects :=
      processOnTcpMessage_spec _ _ htame hb.consumers (by simp [hreq])
    obtain ⟨hkeeps, hdid⟩ := hspec
    rw [← ha] at hmark
    refine ⟨hb.keeps hkeeps fun h _ => absurd h hmark, ?_⟩
    cases hdid with
    | nothing hr hf => exact .nothing hr hf
    | answeredLocal r hr hf hrequest => simp [hreq] at hrequest
    | answered r hr hf hkind =>
      rcases hkind with ⟨hrequest, -⟩ | ⟨-, hm⟩
      · simp [hreq] at hrequest
      · exact absurd hm hmark
    | forwarded frame hr hf hrequest => simp [hreq] at hrequest
    | served frame g hcall hr hf hrequest hm hencode' =>
      refine .sent frame _ hr hf (.response i i₀ r u _ frame hissued hencode' ?_ ?_)
      · rw [responseMessage, hreply, haddress]
      · exact ⟨g, _, b.options, List.mem_append_right _ (mem_invocations hcall), rfl⟩
  | response j i₀ r u m _ hissued hencode hreplay hcall =>
    obtain ⟨ha, hreply, hport, hhost, hreq⟩ := wire.exchange m f hencode rest
    have hspec : Keeps (wire.decode f rest) b w.bus ∧
        Did ⟨handlers, wire.encode⟩ b (wire.decode f rest) w.effects :=
      processOnTcpMessage_spec _ _ htame hb.consumers (by simp [hreq])
    obtain ⟨hkeeps, hdid⟩ := hspec
    rw [hreplay] at ha
    refine ⟨hb.keeps hkeeps fun _ _ => ⟨_, hissued, ha⟩, ?_⟩
    cases hdid with
    | nothing hr hf => exact .nothing hr hf
    | answeredLocal r hr hf hrequest => simp [hreq] at hrequest
    | answered q hr hf hkind hfunc _ hmessage =>
      rw [ha] at hfunc
      obtain ⟨v, hv, hkey⟩ := hb.functions _ _ hfunc
      obtain rfl := replyAddress_injective hkey
      obtain ⟨rfl, rfl⟩ := hunique _ _ _ _ _ hissued hv
      obtain ⟨n, p, options, hp, rfl⟩ := hcall
      refine .invoked r hr hf rfl (hrequests _ _ _ hissued) fun x hx => Or.inr ⟨j, rfl, ?_⟩
      exact ⟨n, p, options, f, rest, List.mem_append_left _ hp, hencode, hmessage hreq x hx⟩
    | forwarded frame hr hf hrequest => simp [hreq] at hrequest
    | served frame g hcall hr hf hrequest hm => exact absurd (ha ▸ replyMark_infix u) hm

/-- **A request runs.**  It is answered here, or it goes out with the reply address
issued for it, under which its response function now stands. -/
theorem handleRequest_spec {r : ℕ} {a : Bytes} {v : Any} {handlers : Handlers}
    (htame : Tame handlers) (hrequest : (i, r) ∈ requests) (hmark : ¬ replyMark <:+: a)
    (hb : BusInv issued i b)
    {uuid : Bytes} (hfresh : uuid ∉ issued.map Prod.fst) (next : Except Fault ServerID) :
    let w := (exec (handleRequest ⟨handlers, wire.encode⟩ a v (.target (.response r)) uuid next)
      ⟨b, []⟩).2
    BusInv (issued ++ [(uuid, i, r)]) i w.bus ∧
      Outcome wire (issued ++ [(uuid, i, r)]) log requests
        ⟨i, .request a v (.target (.response r)), .request i r⟩ w.effects := by
  intro w
  have hgrown : BusInv (issued ++ [(uuid, i, r)]) i b := hb.mono (List.subset_append_left _ _)
  have hissued : (uuid, i, r) ∈ issued ++ [(uuid, i, r)] := by simp
  have hw : w = (exec (handleRequest ⟨handlers, wire.encode⟩ a v (.target (.response r)) uuid next)
      ⟨b, []⟩).2 := rfl
  rw [exec_handleRequest] at hw
  dsimp only at hw
  cases hlocal : b.consumersLocal.find a with
  | some f =>
    rw [hlocal] at hw
    have hspec := processOnTcpMessage_spec ⟨handlers, wire.encode⟩
      ((requestMessage (bytes "__vertx.reply.local") a b.options.port b.options.host v).setFunc
        f (.target (.response r))) htame hb.consumers
      (fun _ _ q hq => hb.consumersLocal a q (hq ▸ hlocal))
    rw [← hw] at hspec
    obtain ⟨hkeeps, hdid⟩ := hspec
    refine ⟨hgrown.keeps hkeeps (by simp [requestMessage, ClusteredMessage.setFunc]), ?_⟩
    cases hdid with
    | nothing hr hf => exact .nothing hr hf
    | answeredLocal q hr hf _ _ hfunc hcall =>
      obtain rfl : r = q := by simpa [ClusteredMessage.setFunc] using hfunc
      obtain ⟨n, hn⟩ := hcall
      exact .invoked r hr hf rfl hrequest fun _ _ =>
        Or.inl ⟨rfl, n, _, List.mem_append_right _ (mem_invocations hn)⟩
    | answered q hr hf hkind => simp [requestMessage, ClusteredMessage.setFunc] at hkind
    | forwarded frame hr hf _ hlocal => simp [ClusteredMessage.setFunc] at hlocal
    | served frame g hcall hr hf hreq => simp [requestMessage, ClusteredMessage.setFunc] at hreq
  | none =>
    rw [hlocal] at hw
    cases next with
    | error e =>
      rw [hw]
      exact ⟨hgrown, .nothing rfl rfl⟩
    | ok server =>
      have hnone : b.publishers.find (replyAddress uuid) = none := by
        by_contra hne
        obtain ⟨e, he, hkey⟩ := hb.keys _ hne
        exact hfresh (List.mem_map.2 ⟨e, he, (replyAddress_injective hkey).symm⟩)
      have hregistered : BusInv (issued ++ [(uuid, i, r)]) i
          { b with publishers :=
            b.publishers.emplace (replyAddress uuid) (.target (.response r)) } := by
        rw [Table.emplace_of_none hnone]
        refine ⟨hb.consumers, hb.consumersLocal, fun k hk => ?_, fun k q hk => ?_⟩
        · rw [Table.find_assign] at hk
          split_ifs at hk with hkey
          · exact ⟨_, hissued, hkey⟩
          · exact hgrown.keys k hk
        · rw [Table.find_assign] at hk
          split_ifs at hk with hkey
          · obtain rfl : r = q := by simpa using hk
            exact ⟨uuid, hissued, hkey⟩
          · exact hgrown.functions k q hk
      have hspec := processOnTcpMessage_spec ⟨handlers, wire.encode⟩
        (requestMessage (replyAddress uuid) a server.port server.host v) htame
        hregistered.consumers (by simp [requestMessage])
      rw [← hw] at hspec
      obtain ⟨hkeeps, hdid⟩ := hspec
      refine ⟨hregistered.keeps hkeeps (by simp [requestMessage]), ?_⟩
      cases hdid with
      | nothing hr hf => exact .nothing hr hf
      | answeredLocal q hr hf _ hlocal => simp [requestMessage] at hlocal
      | answered q hr hf _ hfunc hcall =>
        rw [Table.emplace_of_none hnone] at hfunc
        obtain rfl : r = q := by simpa [requestMessage] using hfunc
        obtain ⟨n, hn⟩ := hcall rfl
        exact .invoked r hr hf rfl hrequest fun _ _ =>
          Or.inl ⟨rfl, n, _, List.mem_append_right _ (mem_invocations hn)⟩
      | forwarded frame hr hf _ _ hencode =>
        exact .sent frame _ hr hf (.request i r uuid _ frame hissued hencode rfl hmark)
      | served frame g hcall hr hf hreq => simp [requestMessage] at hreq

end Runs

/-! ### Whole runs -/

namespace Cluster

variable {ι F R : Type} {wire : Wire F R} {s t : Cluster ι F}

/-- How many closures, frames and calls there are of the request `r`. -/
def tokens (s : Cluster ι F) (r : ℕ) : ℕ :=
  s.closures.countP (fun c => c.origin.root = r) + s.packets.countP (fun p => p.origin.root = r)
    + s.log.countP fun e => e.func = .response r

/-- What holds in every state of the cluster. -/
structure Inv (wire : Wire F R) (s : Cluster ι F) : Prop where
  buses : ∀ i, BusInv s.issued i (s.bus i)
  unique : ∀ u i r j q, (u, i, r) ∈ s.issued → (u, j, q) ∈ s.issued → i = j ∧ r = q
  requested : ∀ u i r, (u, i, r) ∈ s.issued → (i, r) ∈ s.requests
  numbers : (s.requests.map Prod.snd).Nodup
  packets : ∀ p ∈ s.packets, Carries wire s.issued s.log p.origin p.frame
  closures : ∀ c ∈ s.closures, Queued wire s.issued s.log s.requests c
  rightful : ∀ e ∈ s.log, ∀ r, e.func = .response r →
    (e.node, r) ∈ s.requests ∧ Rightful wire s.log e.node e.origin r e.message
  tokens : ∀ r, s.tokens r ≤ if r ∈ s.requests.map Prod.snd then 1 else 0

theorem inv_start (options : ι → EventBusOptions) : Inv wire (start options : Cluster ι F) where
  buses i := ⟨fun k r => by simp [start], fun k r => by simp [start],
    fun k hk => absurd rfl hk, fun k r hk => by simp [start] at hk⟩
  unique := by simp [start]
  requested := by simp [start]
  numbers := by simp [start]
  packets := by simp [start]
  closures := by simp [start]
  rightful := by simp [start]
  tokens r := by simp [start, tokens]

theorem countP_invocations (node : ι) (o : Origin ι) (es : List (Effect F)) (r : ℕ) :
    (invocations node o es).countP (fun e => e.func = .response r) = (responses es).count r := by
  induction es with
  | nil => rfl
  | cons e es ih =>
    cases e with
    | invoke f m =>
      have hcons : invocations node o (.invoke f m :: es)
          = ⟨node, o, f, m⟩ :: invocations node o es := rfl
      rw [hcons, List.countP_cons, ih]
      cases f with
      | handler n => simp
      | response q => simp [List.count_cons]
    | processStringMessage frame addr => exact ih
    | addSub address port host => exact ih

/-- A call of `request` begins with one closure. -/
theorem Inv.request (h : Inv wire s) (i : ι) {a : Bytes} {v : Any} {r : ℕ}
    (hr : r ∉ s.requests.map Prod.snd) (hmark : ¬ replyMark <:+: a) :
    Inv wire { s with
      closures := s.closures ++ [⟨i, .request a v (.target (.response r)), .request i r⟩],
      requests := s.requests ++ [(i, r)] } := by
  have hsub : s.requests ⊆ s.requests ++ [(i, r)] := List.subset_append_left _ _
  refine ⟨h.buses, h.unique, fun u j q hu => hsub (h.requested u j q hu), ?_, h.packets,
    fun c hc => ?_, fun e he q hq => ⟨hsub (h.rightful e he q hq).1, (h.rightful e he q hq).2⟩,
    fun q => ?_⟩
  · rw [List.map_append, List.nodup_append]
    refine ⟨h.numbers, by simp, ?_⟩
    rintro q hq _ hr' rfl
    obtain rfl : q = r := by simpa using hr'
    exact hr hq
  · rcases List.mem_append.1 hc with hc | hc
    · cases h.closures c hc with
      | request j q b w hreq hb => exact .request j q b w (hsub hreq) hb
      | onMessage j f o hcarries => exact .onMessage j f o hcarries
    · obtain rfl := List.mem_singleton.1 hc
      exact .request i r a v (List.mem_append_right _ (List.mem_singleton_self _)) hmark
  · have hq := h.tokens q
    by_cases hqr : q = r
    · subst hqr
      rw [if_neg hr] at hq
      simp only [Cluster.tokens] at hq ⊢
      simp [Origin.root]
      omega
    · have hroot : (Origin.request i r).root ≠ q := fun hroot => hqr hroot.symm
      have hmem : (q ∈ (s.requests ++ [(i, r)]).map Prod.snd) = (q ∈ s.requests.map Prod.snd) := by
        simp [hqr]
      simp only [Cluster.tokens, hmem] at hq ⊢
      simpa [hroot] using hq

/-- A frame arrives. -/
theorem Inv.deliver (h : Inv wire s) {p : Packet ι F} {packets : List (Packet ι F)} {k : ℕ}
    (hpick : pick s.packets k = some (p, packets)) (i : ι) :
    Inv wire { s with packets, closures := s.closures ++ [⟨i, .onMessage p.frame, p.origin⟩] } := by
  have hperm := perm_of_pick hpick
  refine ⟨h.buses, h.unique, h.requested, h.numbers,
    fun q hq => h.packets q (hperm.mem_iff.2 (List.mem_cons_of_mem _ hq)), fun c hc => ?_,
    h.rightful, fun r => ?_⟩
  · rcases List.mem_append.1 hc with hc | hc
    · exact h.closures c hc
    · obtain rfl := List.mem_singleton.1 hc
      exact .onMessage i p.frame p.origin (h.packets p (hperm.mem_iff.2 List.mem_cons_self))
  · have hr := h.tokens r
    simp only [Cluster.tokens, hperm.countP_eq, List.countP_cons] at hr
    simp only [Cluster.tokens, List.countP_append, List.countP_singleton]
    omega

/-- What a run issues is new, and for one request. -/
theorem Inv.unique_issues (h : Inv wire s) {c : Closure ι F}
    (hqueued : Queued wire s.issued s.log s.requests c) {uuid : Bytes}
    (hfresh : uuid ∉ s.issued.map Prod.fst) (u : Bytes) (i : ι) (r : ℕ) (j : ι) (q : ℕ)
    (hi : (u, i, r) ∈ s.issued ++ c.issues uuid) (hj : (u, j, q) ∈ s.issued ++ c.issues uuid) :
    i = j ∧ r = q := by
  have hold (i : ι) (r : ℕ) (hu : (uuid, i, r) ∈ s.issued) : False :=
    hfresh (List.mem_map.2 ⟨_, hu, rfl⟩)
  rcases List.mem_append.1 hi with hi' | hi' <;> rcases List.mem_append.1 hj with hj' | hj'
  · exact h.unique u i r j q hi' hj'
  · obtain ⟨rfl, -⟩ := hqueued.issues hj'
    exact (hold i r hi').elim
  · obtain ⟨rfl, -⟩ := hqueued.issues hi'
    exact (hold j q hj').elim
  · obtain ⟨-, rfl, rfl, -⟩ := hqueued.issues hi'
    obtain ⟨-, rfl, rfl, -⟩ := hqueued.issues hj'
    exact ⟨rfl, rfl⟩

/-- **A run moves what it has**: the frame it hands on, or the response function it calls,
is of the request of its closure. -/
theorem tokens_of_outcome {issued : List (Bytes × ι × ℕ)} {log : List (Invocation ι)}
    {requests : List (ι × ℕ)} {c : Closure ι F} {es : List (Effect F)}
    (h : Outcome wire issued log requests c es) (r : ℕ) :
    ((handed es).map fun sent => (⟨sent.1, sent.2, .frame c.node c.origin⟩ : Packet ι F)).countP
        (fun p => p.origin.root = r)
      + (invocations c.node c.origin es).countP (fun e => e.func = .response r)
      ≤ if c.origin.root = r then 1 else 0 := by
  rw [countP_invocations]
  cases h with
  | nothing hr hf =>
    rw [hr, hf]
    exact Nat.zero_le _
  | invoked q hr hf hroot =>
    subst hroot
    rw [hr, hf, List.map_nil, List.countP_nil, List.count_singleton, zero_add]
    simp
  | sent frame addr hr hf =>
    rw [hr, hf, List.map_singleton, List.countP_singleton, List.count_nil, add_zero]
    by_cases hroot : c.origin.root = r <;> simp [Origin.root, hroot]

variable [DecidableEq ι]

/-- A registration. -/
theorem Inv.register (h : Inv wire s) (i : ι) {b : EventBus} (hb : BusInv s.issued i b) :
    Inv wire { s with bus := Function.update s.bus i b } := by
  refine ⟨fun j => ?_, h.unique, h.requested, h.numbers, h.packets, h.closures, h.rightful,
    h.tokens⟩
  by_cases hj : j = i
  · subst hj
    simpa using hb
  · simpa [hj] using h.buses j

/-- **A closure runs**, and what it does takes its place. -/
theorem Inv.run (h : Inv wire s) {c : Closure ι F} {closures : List (Closure ι F)} {k : ℕ}
    (hpick : pick s.closures k = some (c, closures)) {handlers : Handlers} (htame : Tame handlers)
    {uuid : Bytes} (hfresh : uuid ∉ s.issued.map Prod.fst) (next : Except Fault ServerID)
    (rest : R) :
    Inv wire (s.afterRun wire c closures handlers uuid next rest) := by
  have hperm := perm_of_pick hpick
  have hsub : s.issued ⊆ s.issued ++ c.issues uuid := List.subset_append_left _ _
  have hqueued := h.closures c (hperm.mem_iff.2 List.mem_cons_self)
  have hspec :
      let w := (exec (c.task.run ⟨handlers, wire.encode⟩ (fun f => wire.decode f rest) uuid next)
        ⟨s.bus c.node, []⟩).2
      BusInv (s.issued ++ c.issues uuid) c.node w.bus ∧
        Outcome wire (s.issued ++ c.issues uuid) s.log s.requests c w.effects := by
    cases hqueued with
    | request i r a v hrequest hmark =>
      exact handleRequest_spec htame hrequest hmark (h.buses i) hfresh next
    | onMessage i f o hcarries =>
      have hnone : s.issued ++ Closure.issues ⟨i, .onMessage f, o⟩ uuid = s.issued :=
        List.append_nil _
      rw [hnone]
      exact onMessage_spec htame hcarries (h.buses i) h.unique h.requested rest
  rw [afterRun]
  generalize (exec (c.task.run ⟨handlers, wire.encode⟩ (fun f => wire.decode f rest) uuid next)
    ⟨s.bus c.node, []⟩).2 = w at hspec
  obtain ⟨hbus, houtcome⟩ := hspec
  have hlog : s.log ⊆ s.log ++ invocations c.node c.origin w.effects := List.subset_append_left _ _
  refine ⟨fun j => ?_, h.unique_issues hqueued hfresh, fun u i r hu => ?_, h.numbers,
    fun p hp => ?_, fun d hd => ?_, fun e he r hr => ?_, fun r => ?_⟩
  · dsimp only
    by_cases hj : j = c.node
    · subst hj
      simpa using hbus
    · simpa [hj] using (h.buses j).mono hsub
  · rcases List.mem_append.1 hu with hu | hu
    · exact h.requested u i r hu
    · exact (hqueued.issues hu).2.2.2
  · rcases List.mem_append.1 hp with hp | hp
    · exact (h.packets p hp).mono hsub hlog
    · obtain ⟨sent, hsent, rfl⟩ := List.mem_map.1 hp
      cases houtcome with
      | nothing hr hf => rw [hf] at hsent; exact absurd hsent List.not_mem_nil
      | invoked r hr hf => rw [hf] at hsent; exact absurd hsent List.not_mem_nil
      | sent frame addr hr hf hcarries =>
        rw [hf] at hsent
        obtain rfl := List.mem_singleton.1 hsent
        exact hcarries
  · exact (h.closures d (hperm.mem_iff.2 (List.mem_cons_of_mem _ hd))).mono hsub hlog
  · rcases List.mem_append.1 he with he | he
    · exact ⟨(h.rightful e he r hr).1, (h.rightful e he r hr).2.mono hlog⟩
    · obtain ⟨hnode, horigin, hinvoke⟩ := of_mem_invocations he
      rw [hr] at hinvoke
      have hmem : r ∈ responses w.effects := List.mem_filterMap.2 ⟨_, hinvoke, rfl⟩
      cases houtcome with
      | nothing hr' hf => rw [hr'] at hmem; exact absurd hmem List.not_mem_nil
      | sent frame addr hr' hf => rw [hr'] at hmem; exact absurd hmem List.not_mem_nil
      | invoked q hr' hf hroot hrequest hright =>
        rw [hr'] at hmem
        obtain rfl := List.mem_singleton.1 hmem
        rw [hnode, horigin]
        exact ⟨hrequest, hright _ hinvoke⟩
  · have hr := h.tokens r
    have hmoved := tokens_of_outcome houtcome r
    simp only [Cluster.tokens, hperm.countP_eq, List.countP_cons, decide_eq_true_eq] at hr
    simp only [Cluster.tokens, List.countP_append]
    omega

/-- **One step.** -/
theorem Inv.step (h : Inv wire s) {label : ClusterStep ι R} (hstep : s.step wire label = some t) :
    Inv wire t := by
  cases label with
  | consumer i address n =>
    obtain rfl := Option.some.inj hstep
    have hb := h.buses i
    exact h.register i ⟨hb.consumers.emplace address n, hb.consumersLocal, hb.keys, hb.functions⟩
  | localConsumer i address n =>
    obtain rfl := Option.some.inj hstep
    have hb := h.buses i
    exact h.register i ⟨hb.consumers, hb.consumersLocal.emplace address n, hb.keys, hb.functions⟩
  | request i address value r =>
    rw [Cluster.step] at hstep
    split_ifs at hstep with hguard
    obtain rfl := Option.some.inj hstep
    rw [not_or] at hguard
    exact h.request i hguard.1 hguard.2
  | deliver k i =>
    rw [Cluster.step] at hstep
    split at hstep
    · rename_i p packets hpick
      split_ifs at hstep
      obtain rfl := Option.some.inj hstep
      exact h.deliver hpick i
    · cases hstep
  | run k handlers uuid next rest =>
    rw [Cluster.step] at hstep
    split at hstep
    · rename_i c closures hpick
      split_ifs at hstep with hguard
      obtain rfl := Option.some.inj hstep
      exact h.run hpick handlers.2 hguard next rest
    · cases hstep

/-- **Every response function is called at most once, and for its own request.**  In
every run of a cluster, the response function of a request is called at most once;
if at all, by the one node that made the request, while it runs the request itself and has
called a consumer for it, or with what it decodes of the answer of a node that has called a
consumer with the very frame that was sent for it. -/
theorem responses_correlated {options : ι → EventBusOptions} {labels : List (ClusterStep ι R)}
    (hrun : Machine.run (Cluster.step wire) (start options) labels = some s) :
    (∀ r, s.log.countP (fun e => e.func = .response r) ≤ 1) ∧
      ∀ e ∈ s.log, ∀ r, e.func = .response r →
        (∀ i, (i, r) ∈ s.requests ↔ i = e.node) ∧
          Rightful wire s.log e.node e.origin r e.message := by
  have h : Inv wire s := run_invariant (fun _ _ _ h hstep => h.step hstep) hrun (inv_start options)
  refine ⟨fun r => ?_, fun e he r hr => ?_⟩
  · have := h.tokens r
    rw [Cluster.tokens] at this
    split_ifs at this <;> omega
  · obtain ⟨hrequest, hright⟩ := h.rightful e he r hr
    refine ⟨fun i => ⟨fun hi => ?_, fun hi => hi ▸ hrequest⟩, hright⟩
    have := List.inj_on_of_nodup_map h.numbers hi hrequest rfl
    exact congrArg Prod.fst this

/-- A node `a` and a node `b`. -/
def twoNodes (i : Bool) : EventBusOptions := if i then ⟨bytes "b", 2⟩ else ⟨bytes "a", 1⟩

/-- User code that leaves every message alone. -/
def idle : Subtype Tame where
  val _ m := .ok m
  property := ⟨fun _ _ _ h => by cases h; rfl, fun _ _ _ h => by cases h; exact Or.inl rfl⟩

/-- A request of `a` to a consumer on `b`, and the answer to it. -/
def roundTrip (rest : R) : List (ClusterStep Bool R) :=
  [.consumer true (bytes "orders") 0, .request false (bytes "orders") .empty 7,
    .run 0 idle [1] (.ok ⟨2, bytes "b"⟩) rest, .deliver 0 true,
    .run 0 idle [2] (.error .outOfRange) rest, .deliver 0 false,
    .run 0 idle [3] (.error .outOfRange) rest]

/-- Who was called, and by which node. -/
def calls (s : Cluster ι F) : List (ι × FuncId) := s.log.map fun e => (e.node, e.func)

/-- Then a request of `a` to a consumer of its own. -/
def ownTrip (rest : R) : List (ClusterStep Bool R) :=
  roundTrip rest ++ [.consumer false (bytes "billing") 1, .request false (bytes "billing") .empty 8,
    .run 0 idle [4] (.ok ⟨1, bytes "a"⟩) rest]

/-- Both requests, on the fields and on the bytes of the frames: who is called, and that each of
the response functions is called by right. -/
theorem responses_correlated_roundTrip :
    (∃ s, Machine.run (Cluster.step fieldWire) (start twoNodes)
        (ownTrip (requestMessage [] [] 0 [] .empty)) = some s ∧
      s.calls = [(true, .handler 0), (false, .response 7), (false, .handler 1),
        (false, .response 8)] ∧
      (∀ r, s.log.countP (fun e => e.func = .response r) ≤ 1) ∧
      ∀ e ∈ s.log, ∀ r, e.func = .response r →
        Rightful fieldWire s.log e.node e.origin r e.message) ∧
    (∃ s, Machine.run (Cluster.step byteWire) (start twoNodes) (ownTrip fun _ => 0) = some s ∧
      s.calls = [(true, .handler 0), (false, .response 7), (false, .handler 1),
        (false, .response 8)] ∧
      (∀ r, s.log.countP (fun e => e.func = .response r) ≤ 1) ∧
      ∀ e ∈ s.log, ∀ r, e.func = .response r →
        Rightful byteWire s.log e.node e.origin r e.message) := by
  constructor
  · have hrun : Machine.run (Cluster.step fieldWire) (start twoNodes)
        (ownTrip (requestMessage [] [] 0 [] .empty)) = some _ := rfl
    obtain ⟨honce, hown⟩ := responses_correlated hrun
    exact ⟨_, hrun, rfl, honce, fun e he r hr => (hown e he r hr).2⟩
  · have hcalls : (Machine.run (Cluster.step byteWire) (start twoNodes)
        (ownTrip fun _ => 0)).map calls = some [(true, .handler 0), (false, .response 7),
          (false, .handler 1), (false, .response 8)] := by
      decide +kernel
    obtain ⟨s, hrun, hs⟩ := Option.map_eq_some_iff.1 hcalls
    obtain ⟨honce, hown⟩ := responses_correlated hrun
    exact ⟨s, hrun, hs, honce, fun e he r hr => (hown e he r hr).2⟩

end Cluster

end VertxCpp
