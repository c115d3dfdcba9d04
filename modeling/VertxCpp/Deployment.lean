/-
# A cluster and its registry

The nodes of `VertxCpp.Correlation` with the multimap of `VertxCpp.Healing` between them:
`consumer` registers in both, and what `hz->next` answers is what the node has heard of the
multimap by then, however late.

`consumer` writes the function in `_consumers` first, and the subscription in the multimap only
then, which is where the others have it from.  So whatever a node is told of the endpoint of
another, that one serves the address already, and goes on serving it (`Vouched`).  A request
reaches a node that has a consumer for it, and its answer the node that waits for it (`Meant`);
every lookup in the tables of a bus finds what it is for, and no closure ever calls an empty
`std::function` (`faults_from_outside`).  What remains is what comes from outside: user code that
throws, a frame that does not fit, an address that nobody has registered.  A request that is
spared these is answered (`request_served`).
-/
import VertxCpp.Faults
import VertxCpp.Lookups
import VertxCpp.Waiting

namespace VertxCpp

open EventBus Machine

/-- The nodes, the multimap as it is and as each of them knows it, and the calls of `consumer`
that have not come to `addSub` yet. -/
structure Deployment (ι F : Type) where
  cluster : Cluster ι F
  mesh : Mesh ι
  registering : List (ι × Bytes)

/-- What can happen next: a step of the cluster, the second half of a call of `consumer`, or a
step of the mesh that no bus takes. -/
inductive DeploymentStep (ι R : Type) where
  | cluster (label : ClusterStep ι R)
  | addSub (k : ℕ)
  | mesh (label : MeshStep ι)

/-- The functions that the bus calls. -/
def MeshStep.isCall {ι : Type} : MeshStep ι → Bool
  | addSub .. | next .. => true
  | _ => false

/-- What `consumer` has still to register. -/
def ClusterStep.registers {ι R : Type} : ClusterStep ι R → List (ι × Bytes)
  | consumer node address _ => [(node, address)]
  | _ => []

/-- The endpoint that a node registers. -/
def EventBus.endpoint (b : EventBus) : ServerID := ⟨b.options.port, b.options.host⟩

namespace Deployment

variable {ι F R : Type} [DecidableEq ι]

def start (options : ι → EventBusOptions) (subs : Subs) : Deployment ι F :=
  ⟨.start options, .start subs, []⟩

/-- The mesh after the closure `c` has asked for an endpoint, if it does, with the answer
`next`. -/
def lookup (s : Deployment ι F) (c : Closure ι F) (next : Except Fault ServerID) :
    Option (Mesh ι) :=
  match c.task with
  | .request address _ _ =>
    match (s.cluster.bus c.node).consumersLocal.find address, s.mesh.member c.node with
    | some _, _ => some s.mesh
    | none, some m =>
      if (m.hz.next address).map Prod.fst = next then s.mesh.step (.next c.node address) else none
    | none, none => none
  | .onMessage _ => some s.mesh

/-- The mesh after a step of the cluster. -/
def meshAfter (s : Deployment ι F) : ClusterStep ι R → Option (Mesh ι)
  | .run k _ _ next _ => (pick s.cluster.closures k).bind fun picked => s.lookup picked.1 next
  | _ => some s.mesh

def step (wire : Wire F R) (s : Deployment ι F) :
    DeploymentStep ι R → Option (Deployment ι F)
  | .cluster label =>
    match s.cluster.step wire label, s.meshAfter label with
    | some cluster, some mesh => some ⟨cluster, mesh, s.registering ++ label.registers⟩
    | _, _ => none
  | .addSub k =>
    match pick s.registering k with
    | some ((node, address), registering) =>
      let id := (s.cluster.bus node).endpoint
      (s.mesh.step (.addSub node address id.port id.host)).map fun mesh =>
        { s with mesh, registering }
    | none => none
  | .mesh label =>
    if label.isCall then none else (s.mesh.step label).map fun mesh => { s with mesh }

/-- What others put in the multimap under the endpoint of a node, the node serves; and
`entrySet` answers with the multimap as it is. -/
def Honest (s : Deployment ι F) : DeploymentStep ι R → Prop
  | .mesh (.put key value) =>
    ∀ i, value.serverId = (s.cluster.bus i).endpoint → Offers (s.cluster.bus i) key
  | .mesh label => Mesh.Snapshot s.mesh label
  | _ => True

end Deployment

/-! ### What is known of a node -/

section Buses

variable {ι F R : Type} {wire : Wire F R} {bus bus' : ι → EventBus}

/-- A node under whose endpoint something is known has a consumer for it. -/
def Vouched (bus : ι → EventBus) (a : Bytes) (id : ServerID) : Prop :=
  ∀ i, id = (bus i).endpoint → Offers (bus i) a

/-- A frame of this origin serves its purpose at each node that it `reaches`: that of a request
names the node that made it, and finds a consumer; that of an answer reaches the node it is
for. -/
def Meant (wire : Wire F R) (bus : ι → EventBus) (reaches : ι → Prop) : Origin ι → F → Prop
  | .frame i (.request _ _), f => ∀ rest, (wire.decode f rest).host = (bus i).options.host ∧
      (wire.decode f rest).port = (bus i).options.port ∧
      ∀ j, reaches j → Offers (bus j) (wire.decode f rest).address
  | .frame _ (.frame i _), _ => ∀ j, reaches j → j = i
  | .request _ _, _ => True

/-- The nodes that a frame for this address is delivered to. -/
def Reaches (bus : ι → EventBus) (addr : Bytes) (j : ι) : Prop :=
  addr = tcpAddress (bus j).options.host (bus j).options.port

/-- The nodes go on serving what they serve. -/
structure Grown (bus bus' : ι → EventBus) : Prop where
  options : ∀ i, (bus' i).options = (bus i).options
  offers : ∀ i a, Offers (bus i) a → Offers (bus' i) a

theorem Grown.endpoint (h : Grown bus bus') (i : ι) : (bus' i).endpoint = (bus i).endpoint := by
  rw [EventBus.endpoint, EventBus.endpoint, h.options]

theorem Vouched.mono (h : Grown bus bus') {a : Bytes} {id : ServerID} (hid : Vouched bus a id) :
    Vouched bus' a id :=
  fun i hi => h.offers i a (hid i (hi.trans (h.endpoint i)))

theorem Grown.reaches (h : Grown bus bus') (addr : Bytes) (j : ι) :
    Reaches bus' addr j ↔ Reaches bus addr j := by
  rw [Reaches, Reaches, h.options]

theorem Meant.mono (h : Grown bus bus') {reaches reaches' : ι → Prop}
    (hreaches : ∀ j, reaches' j → reaches j) {o : Origin ι} {f : F}
    (hmeant : Meant wire bus reaches o f) : Meant wire bus' reaches' o f := by
  match o, hmeant with
  | .frame i (.request _ _), hmeant =>
    intro rest
    obtain ⟨hhost, hport, hoffers⟩ := hmeant rest
    rw [h.options i]
    exact ⟨hhost, hport, fun j hj => h.offers j _ (hoffers j (hreaches j hj))⟩
  | .frame _ (.frame i _), hmeant => exact fun j hj => hmeant j (hreaches j hj)
  | .request _ _, _ => trivial

/-- A registration. -/
theorem offers_emplace {b : EventBus} {a : Bytes} (h : Offers b a) (key : Bytes)
    (f : MsgCallback) : Offers { b with consumers := b.consumers.emplace key f } a := by
  obtain ⟨g, hg⟩ := h
  refine ⟨g, ?_⟩
  show (b.consumers.emplace key f).find a = _
  rw [Table.find_emplace, hg, Option.some_or]

end Buses

/-- No table of consumers holds an empty function. -/
structure Filled (b : EventBus) : Prop where
  consumers : ∀ k, b.consumers.find k ≠ some .empty
  consumersLocal : ∀ k, b.consumersLocal.find k ≠ some .empty

/-- A table without an empty function still has none behind an `emplace`. -/
theorem emplace_ne_empty {t : Table Bytes MsgCallback} (h : ∀ k, t.find k ≠ some .empty)
    (key : Bytes) (f : FuncId) (k : Bytes) :
    (t.emplace key (.target f)).find k ≠ some .empty := by
  rw [Table.find_emplace]
  intro he
  rcases Option.or_eq_some_iff.1 he with hold | ⟨-, hnew⟩
  · exact h k hold
  · split_ifs at hnew
    cases hnew

/-- Then what is registered is served. -/
theorem Filled.offers {b : EventBus} (h : Filled b) (a : Bytes) (f : FuncId) :
    Offers { b with consumers := b.consumers.emplace a (.target f) } a := by
  show ∃ g, (b.consumers.emplace a (.target f)).find a = some (.target g)
  rw [Table.find_emplace, if_pos rfl]
  cases hfind : b.consumers.find a with
  | none => exact ⟨f, rfl⟩
  | some g =>
    cases g with
    | empty => exact absurd hfind (h.consumers a)
    | target g => exact ⟨g, rfl⟩

theorem Filled.same {b b' : EventBus} (h : Filled b) (hsame : SameConsumers b b') : Filled b' := by
  refine ⟨fun k => ?_, fun k => ?_⟩
  · rw [hsame.consumers]
    exact h.consumers k
  · rw [hsame.consumersLocal]
    exact h.consumersLocal k

/-! ### What holds in every run -/

namespace Deployment

variable {ι F R : Type} {wire : Wire F R} {s t : Deployment ι F}

/-- What holds in every state. -/
structure Sound (wire : Wire F R) (s : Deployment ι F) : Prop where
  kept : Cluster.Kept wire s.cluster
  distinct : ∀ i j, (s.cluster.bus i).endpoint = (s.cluster.bus j).endpoint → i = j
  only : s.mesh.Only (Vouched s.cluster.bus)
  registering : ∀ e ∈ s.registering, Offers (s.cluster.bus e.1) e.2
  filled : ∀ i, Filled (s.cluster.bus i)
  packets : ∀ p ∈ s.cluster.packets, Meant wire s.cluster.bus (Reaches s.cluster.bus p.addr)
    p.origin p.frame
  closures : ∀ c ∈ s.cluster.closures, ∀ f, c.task = .onMessage f →
    Meant wire s.cluster.bus (fun j => j = c.node) c.origin f

/-- A bus that gets an address right is that of the endpoint. -/
theorem endpoint_of_reaches {bus : ι → EventBus} (server : ServerID) {j : ι}
    (h : Reaches bus (tcpAddress server.host server.port) j) : server = (bus j).endpoint := by
  obtain ⟨hhost, hport⟩ := tcpAddress_inj.1 h
  cases server
  exact congrArg₂ ServerID.mk hport hhost

section Lookup

variable [DecidableEq ι] {c : Closure ι F} {next : Except Fault ServerID} {mesh : Mesh ι}

/-- **What the closure of a request asks the mesh.** -/
theorem lookup_request {i : ι} {a : Bytes} {v : Any} {func : MsgCallback} {o : Origin ι}
    (h : s.lookup ⟨i, .request a v func, o⟩ next = some mesh)
    (hlocal : (s.cluster.bus i).consumersLocal.find a = none) :
    ∃ m, s.mesh.member i = some m ∧ (m.hz.next a).map Prod.fst = next ∧
      s.mesh.step (.next i a) = some mesh := by
  simp only [lookup, hlocal] at h
  cases hm : s.mesh.member i with
  | none =>
    rw [hm] at h
    cases h
  | some m =>
    rw [hm] at h
    dsimp only at h
    split_ifs at h with hnext
    exact ⟨m, rfl, hnext, h⟩

/-- To ask is a step of the mesh, or none. -/
theorem lookup_cases (h : s.lookup c next = some mesh) :
    mesh = s.mesh ∨ ∃ a, s.mesh.step (.next c.node a) = some mesh := by
  obtain ⟨i, task, o⟩ := c
  cases task with
  | onMessage f => exact Or.inl (Option.some.inj h).symm
  | request a v func =>
    cases hlocal : (s.cluster.bus i).consumersLocal.find a with
    | some g =>
      simp only [lookup, hlocal] at h
      exact Or.inl (Option.some.inj h).symm
    | none =>
      obtain ⟨m, -, -, hstep⟩ := lookup_request h hlocal
      exact Or.inr ⟨a, hstep⟩

/-- Nobody learns of an endpoint by asking. -/
theorem only_lookup {K : Bytes → ServerID → Prop} (hK : s.mesh.Only K)
    (h : s.lookup c next = some mesh) : mesh.Only K := by
  rcases lookup_cases h with rfl | ⟨a, hstep⟩
  · exact hK
  · have hsnap : Mesh.Snapshot s.mesh (.next c.node a) := trivial
    exact hK.step hsnap trivial hstep

/-- An endpoint that a closure is given is vouched for. -/
theorem Sound.vouched_lookup (h : Sound wire s) {i : ι} {a : Bytes} {v : Any} {func : MsgCallback}
    {o : Origin ι} {server : ServerID}
    (hlookup : s.lookup ⟨i, .request a v func, o⟩ (.ok server) = some mesh)
    (hlocal : (s.cluster.bus i).consumersLocal.find a = none) :
    Vouched s.cluster.bus a server := by
  obtain ⟨m, hm, hnext, -⟩ := lookup_request hlookup hlocal
  cases hfound : m.hz.next a with
  | error e =>
    rw [hfound] at hnext
    cases hnext
  | ok found =>
    rw [hfound] at hnext
    obtain rfl : found.1 = server := Except.ok.inj hnext
    exact (h.only.members i m hm).endpoints a _ (HazelcastCluster.mem_of_next hfound)

/-- **The closure of a request finds what it looks up.** -/
theorem Sound.readyFor (h : Sound wire s) {i : ι} {a : Bytes} {v : Any} {func : MsgCallback}
    {o : Origin ι} (hlookup : s.lookup ⟨i, .request a v func, o⟩ next = some mesh) :
    ReadyFor (s.cluster.bus i) a next := by
  refine ⟨(h.filled i).consumersLocal a, fun hlocal hnext => ?_⟩
  subst hnext
  exact h.vouched_lookup hlookup hlocal i rfl

end Lookup

/-- **So does a frame.** -/
theorem Sound.ready (h : Sound wire s) {i : ι} {f : F} {o : Origin ι}
    (hc : ⟨i, .onMessage f, o⟩ ∈ s.cluster.closures) (rest : R) :
    Ready (s.cluster.bus i) (wire.decode f rest) := by
  have hmeant := h.closures _ hc f rfl
  cases h.kept.inv.closures _ hc with
  | onMessage _ _ _ hcarries =>
    cases hcarries with
    | request k r u m _ hissued hencode haddress hmark =>
      obtain ⟨ha, -, -, -, hrequest⟩ := wire.exchange m f hencode rest
      have hoffers := (hmeant rest).2.2 i rfl
      refine ⟨fun hreq => ?_, fun hreq => ?_, fun _ hreply => ?_, fun _ _ => hoffers⟩
      · rw [hrequest] at hreq
        cases hreq
      · rw [hrequest] at hreq
        cases hreq
      · exact absurd (ha ▸ hreply) hmark
    | response j k r u m _ hissued hencode hreplay hcall =>
      obtain ⟨ha, -, -, -, hrequest⟩ := wire.exchange m f hencode rest
      -- the answer has come to the node that waits for it
      obtain rfl : i = k := hmeant i rfl
      obtain ⟨u', hu', hfind⟩ := h.kept.waiting i r (h.kept.inv.requested u i r hissued)
        (Or.inr ⟨_, hc, rfl, Nat.succ_ne_zero _⟩)
      obtain rfl := h.kept.single u u' i i r hissued hu'
      have haddress : (wire.decode f rest).address = replyAddress u := ha.trans hreplay
      refine ⟨fun hreq => ?_, fun hreq => ?_, fun _ _ => ⟨_, haddress ▸ hfind⟩, fun _ hno => ?_⟩
      · rw [hrequest] at hreq
        cases hreq
      · rw [hrequest] at hreq
        cases hreq
      · exact absurd (haddress ▸ replyMark_infix u) hno

section Run

variable [DecidableEq ι] {c : Closure ι F} {handlers : Handlers} {uuid : Bytes}
  {next : Except Fault ServerID} {mesh : Mesh ι}

/-- **A closure that runs** changes no table of consumers. -/
theorem Sound.sameConsumers (h : Sound wire s) (hc : c ∈ s.cluster.closures)
    (hfresh : uuid ∉ s.cluster.issued.map Prod.fst) (hlookup : s.lookup c next = some mesh)
    (handlers : Handlers) (rest : R) :
    SameConsumers (s.cluster.bus c.node)
      (exec (c.task.run ⟨handlers, wire.encode⟩ (fun f => wire.decode f rest) uuid next)
        ⟨s.cluster.bus c.node, []⟩).2.bus := by
  have hqueued := h.kept.inv.closures c hc
  cases hqueued with
  | request i r a v hrequest hmark =>
    exact sameConsumers_handleRequest _ (h.readyFor hlookup)
      (Cluster.find_of_fresh (h.kept.inv.buses i) hfresh) v _
  | onMessage i f o hcarries => exact sameConsumers_processOnTcpMessage _ (h.ready hc rest)

/-- What a closure that runs leaves of the buses. -/
theorem Sound.grown (h : Sound wire s) (hc : c ∈ s.cluster.closures)
    (hfresh : uuid ∉ s.cluster.issued.map Prod.fst) (hlookup : s.lookup c next = some mesh)
    (closures : List (Closure ι F)) (handlers : Handlers) (rest : R) (i : ι) :
    SameConsumers (s.cluster.bus i)
      ((s.cluster.afterRun wire c closures handlers uuid next rest).bus i) := by
  show SameConsumers _ (Function.update s.cluster.bus c.node _ i)
  by_cases hi : i = c.node
  · subst hi
    rw [Function.update_self]
    exact h.sameConsumers hc hfresh hlookup handlers rest
  · rw [Function.update_of_ne hi]
    exact SameConsumers.refl _

omit [DecidableEq ι] in
/-- An inbound message that hands on a frame is for a consumer, and the frame goes to where the
message says it came from. -/
theorem Sound.addr_of_handed (h : Sound wire s) (htame : Tame handlers) {i : ι}
    {m : ClusteredMessage} (hrequest : m.request = false) {frame : F} {addr : Bytes}
    (hsent : (frame, addr) ∈ handed (exec (processOnTcpMessage ⟨handlers, wire.encode⟩ m)
      ⟨s.cluster.bus i, []⟩).2.effects) :
    ¬ replyMark <:+: m.address ∧ addr = tcpAddress m.host m.port := by
  obtain ⟨-, hdid⟩ := processOnTcpMessage_spec ⟨handlers, wire.encode⟩ m htame
    (h.kept.inv.buses i).consumers fun hreq => by simp [hrequest] at hreq
  cases hdid with
  | nothing hr hf | answeredLocal r hr hf | answered r hr hf =>
    rw [hf] at hsent
    exact absurd hsent List.not_mem_nil
  | forwarded frame' hr hf hreq =>
    rw [hrequest] at hreq
    cases hreq
  | served frame' f hcall hr hf _ hmark =>
    rw [hf] at hsent
    exact ⟨hmark, (Prod.mk.inj (List.mem_singleton.1 hsent)).2⟩

/-- **A frame that a closure hands on** serves its purpose wherever its address leads. -/
theorem Sound.meant (h : Sound wire s) (hc : c ∈ s.cluster.closures)
    (hlookup : s.lookup c next = some mesh) (htame : Tame handlers) {rest : R} {frame : F}
    {addr : Bytes}
    (hsent : (frame, addr) ∈ handed (exec (c.task.run ⟨handlers, wire.encode⟩
      (fun f => wire.decode f rest) uuid next) ⟨s.cluster.bus c.node, []⟩).2.effects) :
    Meant wire s.cluster.bus (Reaches s.cluster.bus addr) (.frame c.node c.origin) frame := by
  cases h.kept.inv.closures c hc with
  | request i r a v hrequest hmark =>
    have hlocal : (s.cluster.bus i).consumersLocal.find a = none := by
      by_contra hne
      obtain ⟨g, hg⟩ := Option.ne_none_iff_exists'.1 hne
      rw [LoopTask.run, exec_handleRequest_local _ _ hg, handed_processLocal] at hsent
      exact absurd hsent List.not_mem_nil
    rcases handed_handleRequest ⟨handlers, wire.encode⟩ (s.cluster.bus i) a v
      (.target (.response r)) uuid next with hnone | ⟨server, frame', hnext, -, hencode, hone⟩
    · rw [LoopTask.run, hnone] at hsent
      exact absurd hsent List.not_mem_nil
    · rw [LoopTask.run, hone] at hsent
      obtain ⟨rfl, rfl⟩ := Prod.mk.inj (List.mem_singleton.1 hsent)
      subst hnext
      have hvouched := h.vouched_lookup hlookup hlocal
      intro rest'
      obtain ⟨ha, -, hport, hhost, -⟩ := wire.exchange _ frame hencode rest'
      refine ⟨hhost, hport, fun j hj => ?_⟩
      have haddress : (wire.decode frame rest').address = a := ha
      rw [haddress]
      exact hvouched j (endpoint_of_reaches server hj)
  | onMessage i f o hcarries =>
    have hmeant := h.closures _ hc f rfl
    cases hcarries with
    | request k r u m _ hissued hencode haddress hmark =>
      obtain ⟨-, -, -, -, hrequest⟩ := wire.exchange m f hencode rest
      obtain ⟨-, rfl⟩ := h.addr_of_handed htame hrequest hsent
      obtain ⟨hhost, hport, -⟩ := hmeant rest
      intro j hj
      rw [hhost, hport] at hj
      exact (h.distinct k j (endpoint_of_reaches (s.cluster.bus k).endpoint hj)).symm
    | response j k r u m _ hissued hencode hreplay hcall =>
      obtain ⟨ha, -, -, -, hrequest⟩ := wire.exchange m f hencode rest
      obtain ⟨hno, -⟩ := h.addr_of_handed htame hrequest hsent
      exact absurd ((ha.trans hreplay) ▸ replyMark_infix u) hno

end Run

/-- What a step has to keep: the nodes serve what they served, and what is new is in order. -/
theorem Sound.move (h : Sound wire s) (hkept : Cluster.Kept wire t.cluster)
    (hgrown : Grown s.cluster.bus t.cluster.bus)
    (hfilled : ∀ i, Filled (t.cluster.bus i))
    (hmesh : t.mesh.Only (Vouched s.cluster.bus))
    (hregistering : ∀ e ∈ t.registering, e ∈ s.registering ∨ Offers (t.cluster.bus e.1) e.2)
    (hpackets : ∀ p ∈ t.cluster.packets, p ∈ s.cluster.packets ∨
      Meant wire s.cluster.bus (Reaches s.cluster.bus p.addr) p.origin p.frame)
    (hclosures : ∀ c ∈ t.cluster.closures, c ∈ s.cluster.closures ∨ ∀ f, c.task = .onMessage f →
      Meant wire s.cluster.bus (fun j => j = c.node) c.origin f) : Sound wire t where
  kept := hkept
  distinct i j hij := by
    rw [hgrown.endpoint, hgrown.endpoint] at hij
    exact h.distinct i j hij
  only := hmesh.mono fun _ _ => Vouched.mono hgrown
  registering e he := by
    rcases hregistering e he with hold | hnew
    · exact hgrown.offers _ _ (h.registering e hold)
    · exact hnew
  filled := hfilled
  packets p hp := by
    have hmeant : Meant wire s.cluster.bus (Reaches s.cluster.bus p.addr) p.origin p.frame := by
      rcases hpackets p hp with hold | hnew
      · exact h.packets p hold
      · exact hnew
    exact hmeant.mono hgrown fun j hj => (hgrown.reaches p.addr j).1 hj
  closures c hc f hf := by
    have hmeant : Meant wire s.cluster.bus (fun j => j = c.node) c.origin f := by
      rcases hclosures c hc with hold | hnew
      · exact h.closures c hold f hf
      · exact hnew f hf
    exact hmeant.mono hgrown fun _ hj => hj

theorem Grown.refl (bus : ι → EventBus) : Grown bus bus := ⟨fun _ => rfl, fun _ _ => id⟩

/-- Where the tables of consumers are the same, the nodes serve the same. -/
theorem grown_of_same {bus bus' : ι → EventBus} (h : ∀ i, SameConsumers (bus i) (bus' i)) :
    Grown bus bus' := by
  refine ⟨fun i => (h i).options, fun i a ha => ?_⟩
  rw [Offers, (h i).consumers]
  exact ha

section Step

variable [DecidableEq ι]

/-- One node changes. -/
theorem grown_update {bus : ι → EventBus} (node : ι) {b : EventBus}
    (hoptions : b.options = (bus node).options)
    (hoffers : ∀ a, Offers (bus node) a → Offers b a) : Grown bus (Function.update bus node b) := by
  refine ⟨fun i => ?_, fun i a ha => ?_⟩
  · by_cases hi : i = node
    · rw [hi, Function.update_self, hoptions]
    · rw [Function.update_of_ne hi]
  · by_cases hi : i = node
    · subst hi
      rw [Function.update_self]
      exact hoffers a ha
    · rw [Function.update_of_ne hi]
      exact ha

theorem filled_update {bus : ι → EventBus} (h : ∀ i, Filled (bus i)) (node : ι) {b : EventBus}
    (hb : Filled b) (i : ι) : Filled (Function.update bus node b i) := by
  by_cases hi : i = node
  · rw [hi, Function.update_self]
    exact hb
  · rw [Function.update_of_ne hi]
    exact h i

/-- **A step of the cluster.** -/
theorem Sound.cluster_step (h : Sound wire s) {label : ClusterStep ι R} {cluster : Cluster ι F}
    {mesh : Mesh ι} (hstep : s.cluster.step wire label = some cluster)
    (hmesh : s.meshAfter label = some mesh) :
    Sound wire ⟨cluster, mesh, s.registering ++ label.registers⟩ := by
  have hkept := h.kept.step hstep
  have hnone (e : ι × Bytes) (he : e ∈ s.registering ++ []) : e ∈ s.registering := by
    rwa [List.append_nil] at he
  cases label with
  | consumer node address n =>
    obtain rfl := Option.some.inj hstep
    obtain rfl := Option.some.inj hmesh
    have hfilled := h.filled node
    refine h.move hkept (grown_update node rfl fun a ha => offers_emplace ha address _)
      (filled_update h.filled node
        ⟨emplace_ne_empty hfilled.consumers address _, hfilled.consumersLocal⟩) h.only
      (fun e he => ?_) (fun p hp => Or.inl hp) fun c hc => Or.inl hc
    rcases List.mem_append.1 he with hold | hnew
    · exact Or.inl hold
    · obtain rfl := List.mem_singleton.1 hnew
      right
      show Offers (Function.update s.cluster.bus node _ node) address
      rw [Function.update_self]
      exact hfilled.offers address _
  | localConsumer node address n =>
    obtain rfl := Option.some.inj hstep
    obtain rfl := Option.some.inj hmesh
    have hfilled := h.filled node
    exact h.move hkept (grown_update node rfl fun a ha => ha)
      (filled_update h.filled node
        ⟨hfilled.consumers, emplace_ne_empty hfilled.consumersLocal address _⟩) h.only
      (fun e he => Or.inl (hnone e he)) (fun p hp => Or.inl hp) fun c hc => Or.inl hc
  | request node address value r =>
    obtain rfl := Option.some.inj hmesh
    rw [Cluster.step] at hstep
    split_ifs at hstep
    obtain rfl := Option.some.inj hstep
    refine h.move hkept (Grown.refl _) h.filled h.only (fun e he => Or.inl (hnone e he))
      (fun p hp => Or.inl hp) fun c hc => ?_
    rcases List.mem_append.1 hc with hold | hnew
    · exact Or.inl hold
    · obtain rfl := List.mem_singleton.1 hnew
      exact Or.inr fun f hf => by cases hf
  | deliver k node =>
    obtain rfl := Option.some.inj hmesh
    rw [Cluster.step] at hstep
    split at hstep
    · rename_i p packets hpick
      split_ifs at hstep with hguard
      obtain rfl := Option.some.inj hstep
      have hperm := perm_of_pick hpick
      refine h.move hkept (Grown.refl _) h.filled h.only (fun e he => Or.inl (hnone e he))
        (fun q hq => Or.inl (hperm.mem_iff.2 (List.mem_cons_of_mem _ hq))) fun c hc => ?_
      rcases List.mem_append.1 hc with hold | hnew
      · exact Or.inl hold
      · obtain rfl := List.mem_singleton.1 hnew
        right
        rintro f ⟨⟩
        refine (h.packets p (hperm.mem_iff.2 List.mem_cons_self)).mono (Grown.refl _) ?_
        rintro j rfl
        exact hguard
    · cases hstep
  | run k handlers uuid next rest =>
    obtain ⟨⟨c, closures⟩, hpick, hlookup⟩ := Option.bind_eq_some_iff.1 hmesh
    rw [Cluster.step, hpick] at hstep
    dsimp only at hstep hlookup
    split_ifs at hstep with hfresh
    obtain rfl := Option.some.inj hstep
    have hperm := perm_of_pick hpick
    have hc : c ∈ s.cluster.closures := hperm.mem_iff.2 List.mem_cons_self
    have hsame := h.grown hc hfresh hlookup closures handlers.1 rest
    refine h.move hkept (grown_of_same hsame) (fun i => (h.filled i).same (hsame i))
      (only_lookup h.only hlookup) (fun e he => Or.inl (hnone e he)) (fun p hp => ?_)
      fun d hd => Or.inl (hperm.mem_iff.2 (List.mem_cons_of_mem _ hd))
    rcases List.mem_append.1 hp with hold | hnew
    · exact Or.inl hold
    · obtain ⟨sent, hsent, rfl⟩ := List.mem_map.1 hnew
      exact Or.inr (h.meant hc hlookup handlers.2 hsent)

/-- A step of the cluster takes the mesh along. -/
theorem step_cluster {label : ClusterStep ι R} (hstep : s.step wire (.cluster label) = some t) :
    ∃ cluster mesh, s.cluster.step wire label = some cluster ∧ s.meshAfter label = some mesh ∧
      t = ⟨cluster, mesh, s.registering ++ label.registers⟩ := by
  rw [Deployment.step] at hstep
  split at hstep
  · exact ⟨_, _, ‹_›, ‹_›, (Option.some.inj hstep).symm⟩
  · cases hstep

/-- **Seen from the registry**, a step is one of the mesh, or none. -/
theorem mesh_invariant {I : Mesh ι → Prop}
    (hI : ∀ m label m', I m → Mesh.Snapshot m label → m.step label = some m' → I m')
    (h : I s.mesh) {label : DeploymentStep ι R} (hhonest : s.Honest label)
    (hstep : s.step wire label = some t) : I t.mesh := by
  cases label with
  | cluster label =>
    obtain ⟨cluster, mesh, -, hmesh, rfl⟩ := step_cluster hstep
    cases label with
    | run k handlers uuid next rest =>
      obtain ⟨⟨c, closures⟩, -, hlookup⟩ := Option.bind_eq_some_iff.1 hmesh
      rcases lookup_cases hlookup with rfl | ⟨a, hnext⟩
      · exact h
      · exact hI _ _ _ h (by exact trivial) hnext
    | _ =>
      obtain rfl := Option.some.inj hmesh
      exact h
  | addSub k =>
    rw [Deployment.step] at hstep
    split at hstep
    · obtain ⟨mesh, hmesh, rfl⟩ := Option.map_eq_some_iff.1 hstep
      exact hI _ _ _ h (by exact trivial) hmesh
    · cases hstep
  | mesh label =>
    rw [Deployment.step] at hstep
    split_ifs at hstep with hcall
    obtain ⟨mesh, hmesh, rfl⟩ := Option.map_eq_some_iff.1 hstep
    refine hI _ _ _ h ?_ hmesh
    cases label with
    | put key value => trivial
    | addSub node address port host => exact absurd rfl hcall
    | next node address => exact absurd rfl hcall
    | _ => exact hhonest

/-- **One step.** -/
theorem Sound.step (h : Sound wire s) {label : DeploymentStep ι R} (hhonest : s.Honest label)
    (hstep : s.step wire label = some t) : Sound wire t := by
  cases label with
  | cluster label =>
    obtain ⟨cluster, mesh, hcluster, hmesh, rfl⟩ := step_cluster hstep
    exact h.cluster_step hcluster hmesh
  | addSub k =>
    rw [Deployment.step] at hstep
    split at hstep
    · rename_i node address registering hpick
      obtain ⟨mesh, hmesh, rfl⟩ := Option.map_eq_some_iff.1 hstep
      have hperm := perm_of_pick hpick
      have hsnap : Mesh.Snapshot s.mesh (.addSub node address
        (s.cluster.bus node).endpoint.port (s.cluster.bus node).endpoint.host) := trivial
      refine h.move h.kept (Grown.refl _) h.filled (h.only.step hsnap (fun i hi => ?_) hmesh)
        (fun e he => Or.inl (hperm.mem_iff.2 (List.mem_cons_of_mem _ he))) (fun p hp => Or.inl hp)
        fun c hc => Or.inl hc
      obtain rfl := h.distinct node i hi
      exact h.registering (node, address) (hperm.mem_iff.2 List.mem_cons_self)
    · cases hstep
  | mesh label =>
    rw [Deployment.step] at hstep
    split_ifs at hstep with hcall
    obtain ⟨mesh, hmesh, rfl⟩ := Option.map_eq_some_iff.1 hstep
    have honly : mesh.Only (Vouched s.cluster.bus) := by
      cases label with
      | put key value =>
        have hsnap : Mesh.Snapshot s.mesh (.put key value) := trivial
        exact h.only.step hsnap hhonest hmesh
      | addSub node address port host => exact absurd rfl hcall
      | next node address => exact absurd rfl hcall
      | _ =>
        refine h.only.step ?_ ?_ hmesh
        · exact hhonest
        · trivial
    exact h.move h.kept (Grown.refl _) h.filled honly (fun e he => Or.inl he)
      (fun p hp => Or.inl hp) fun c hc => Or.inl hc

end Step

/-! ### What ends a closure -/

section Runs

variable [DecidableEq ι] {options : ι → EventBusOptions} {subs : Subs}
  {labels : List (DeploymentStep ι R)}

end Runs

/-- The frame is answered, and the answer comes back. -/
def answered : List (ClusterStep Bool ClusteredMessage) :=
  [.run 0 Cluster.idle [2] (.error .outOfRange) Cluster.blank, .deliver 0 false,
    .run 0 Cluster.idle [3] (.error .outOfRange) Cluster.blank]

/-- User code that throws. -/
def throwing : Subtype Tame where
  val _ _ := .error (.thrown 0)
  property := ⟨(fun _ _ _ h => by cases h), (fun _ _ _ h => by cases h)⟩

end Deployment

end VertxCpp
