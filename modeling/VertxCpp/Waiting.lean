/-
# What waits in `_publishers`

In the cluster of `VertxCpp.Correlation` a request that goes to another node leaves its
response function in `_publishers`, under the reply address issued for it, and nothing but the
answer takes it out.  A run for a message touches the table at the address of the message only
(`Settles`), and no two requests have one reply address; so while a frame of a request is on
its way, its function is where the answer will look for it (`Kept`).

The other way round it takes that the request does not end in a fault: then the function is
there only as long (`waiting_iff`), and at rest the tables are as empty of functions as they
were at first.  A request whose frame ends in a fault leaves its function behind, and nothing
that can happen later takes it out (`left_behind`).
-/
import VertxCpp.Completion
import VertxCpp.Failure
import VertxCpp.Vertx

namespace VertxCpp

open EventBus Machine

namespace EventBus

variable {F : Type}

/-- What a run for the message `m` does to `_publishers`: only the key of the message changes;
nothing does where a frame is handed on; and where a response function is called and all goes
well the key is gone.  For an inbound message it is called only under the address of a reply. -/
structure Settles (m : ClusteredMessage) (b : EventBus) (run : Except Fault Unit × World F) :
    Prop where
  elsewhere : ∀ k, k ≠ m.address → run.2.bus.publishers.find k = b.publishers.find k
  handed : handed run.2.effects ≠ [] → run.2.bus.publishers = b.publishers
  erased : run.1 = .ok () → responses run.2.effects ≠ [] →
    run.2.bus.publishers.find m.address = none
  called : responses run.2.effects ≠ [] → m.request = true ∨ replyMark <:+: m.address

section Branches

variable {env : Env F} {m : ClusteredMessage} {b : EventBus}

/-- The function of a reply. -/
theorem settles_callPublisher {b' : EventBus} {es : List (Effect F)}
    (hb : ∀ k, k ≠ m.address → b'.publishers.find k = b.publishers.find k) (hes : handed es = [])
    (hkind : m.request = true ∨ replyMark <:+: m.address) (f : MsgCallback)
    (x : ClusteredMessage) :
    Settles m b (exec (callPublisher env f x m.address) ⟨b', es⟩) := by
  rw [callPublisher, exec_bind]
  cases f with
  | empty => exact ⟨hb, fun h => absurd hes h, (fun h => by cases h), fun _ => hkind⟩
  | target g =>
    have hnone : handed (es ++ [.invoke g x]) = [] := by simp [handed_append, hes]
    rw [exec_call_target]
    cases env.handlers g x with
    | error e => exact ⟨hb, fun h => absurd hnone h, (fun h => by cases h), fun _ => hkind⟩
    | ok x' =>
      refine ⟨fun k hk => ?_, fun h => absurd hnone h, fun _ _ => Table.find_erase_self _ _,
        fun _ => hkind⟩
      exact (Table.find_erase_of_ne _ hk).trans (hb k hk)

/-- A request that `next` gave to this node. -/
theorem settles_processSameNode (htame : Tame env.handlers) (hrequest : m.request = true) :
    Settles m b (exec (processSameNode env m) ⟨b, []⟩) := by
  simp only [processSameNode, exec_bind, exec_consumersAt]
  cases (b.consumers.subscript m.replay .empty).1 with
  | empty =>
    exact ⟨fun _ _ => rfl, fun h => absurd rfl h, (fun h => by cases h), fun _ => Or.inl hrequest⟩
  | target f =>
    simp only [exec_call_target]
    cases hcall : env.handlers f m with
    | error e =>
      exact ⟨fun _ _ => rfl, fun h => absurd rfl h, (fun h => by cases h), fun _ => Or.inl hrequest⟩
    | ok m' =>
      simp only [exec_get]
      rw [htame.address _ _ _ hcall]
      cases hfind : b.publishers.find m.address with
      | none =>
        exact ⟨fun _ _ => rfl, fun h => absurd rfl h, fun _ _ => hfind, fun _ => Or.inl hrequest⟩
      | some g =>
        have hnone : handed ([] ++ [.invoke f m] : List (Effect F)) = [] := rfl
        have hsame (k : Bytes) (_ : k ≠ m.address) : ({ b with
            consumers := (b.consumers.subscript m.replay .empty).2 } : EventBus).publishers.find k
              = b.publishers.find k := rfl
        exact settles_callPublisher hsame hnone (Or.inl hrequest) g _

/-- A message to the address of a reply. -/
theorem settles_processReply (hmark : replyMark <:+: m.address) :
    Settles m b (exec (processReply env m) ⟨b, []⟩) := by
  simp only [processReply, exec_bind, exec_publishersAt]
  refine settles_callPublisher (fun k hk => ?_) rfl (Or.inr hmark) _ m
  show (b.publishers.subscript m.address .empty).2.find k = b.publishers.find k
  cases hfind : b.publishers.find m.address with
  | none => rw [Table.subscript_of_none hfind, Table.find_assign_of_ne _ _ hk]
  | some f => rw [Table.subscript_of_some hfind]

/-- **One run of `processOnTcpMessage`**, not for a local consumer. -/
theorem settles_processOnTcpMessage (env : Env F) (htame : Tame env.handlers)
    (hconsumers : HandlersOnly b.consumers) (hlocal : m.request = true → m.isLocal = false) :
    Settles m b (exec (processOnTcpMessage env m) ⟨b, []⟩) := by
  rw [exec_processOnTcpMessage]
  split_ifs with hrequest hloc hnode hmark
  · rw [hlocal hrequest] at hloc
    cases hloc
  · exact settles_processSameNode htame hrequest
  · rw [exec_processOtherNode]
    cases env.encode (outgoing b.options m) with
    | error e =>
      exact ⟨fun _ _ => rfl, fun h => absurd rfl h, (fun h => by cases h), fun h => absurd rfl h⟩
    | ok frame =>
      exact ⟨fun _ _ => rfl, fun _ => rfl, fun _ h => absurd rfl h, fun h => absurd rfl h⟩
  · exact settles_processReply hmark
  · -- the consumer is no response function
    obtain ⟨-, hdid⟩ := @processConsumer_spec F env m b (by simpa using hrequest) hmark hconsumers
    have hbus : (exec (processConsumer env m (tcpAddress m.host m.port)) ⟨b, []⟩).2.bus.publishers
        = b.publishers :=
      respects_processConsumer (R := fun w w' : World F => w'.bus.publishers = w.bus.publishers)
        env m (fun _ _ _ => rfl) (fun _ _ => rfl) (fun _ _ _ => rfl) _ ⟨b, []⟩
    have hnone : responses (exec (processConsumer env m (tcpAddress m.host m.port))
        ⟨b, []⟩).2.effects = [] := by
      cases hdid with
      | nothing hr => exact hr
      | answeredLocal r hr hf hreq => simp [hreq] at hrequest
      | answered r hr hf hkind =>
        rcases hkind with ⟨hreq, -⟩ | ⟨-, hm⟩
        · simp [hreq] at hrequest
        · exact absurd hm hmark
      | forwarded frame hr => exact hr
      | served frame f hcall hr => exact hr
    exact ⟨fun k _ => by rw [hbus], fun _ => hbus, fun _ h => absurd hnone h,
      fun h => absurd hnone h⟩

/-- What the closure of a request does to `_publishers`: only its key changes; its function is
there where a frame is handed on, and not where a response function was called and all has gone
well. -/
structure Opens (key : Bytes) (r : ℕ) (b : EventBus) (run : Except Fault Unit × World F) :
    Prop where
  elsewhere : ∀ k, k ≠ key → run.2.bus.publishers.find k = b.publishers.find k
  handed : handed run.2.effects ≠ [] →
    run.2.bus.publishers.find key = some (.target (.response r))
  erased : run.1 = .ok () → responses run.2.effects ≠ [] → run.2.bus.publishers.find key = none

/-- **The closure of a request** whose uuid is fresh. -/
theorem opens_handleRequest (env : Env F) (htame : Tame env.handlers)
    (hconsumers : HandlersOnly b.consumers) {uuid : Bytes}
    (hfresh : b.publishers.find (replyAddress uuid) = none) (a : Bytes) (v : Any) (r : ℕ)
    (next : Except Fault ServerID) :
    Opens (replyAddress uuid) r b
      (exec (handleRequest env a v (.target (.response r)) uuid next) ⟨b, []⟩) := by
  cases hlocal : b.consumersLocal.find a with
  | some f =>
    rw [exec_handleRequest_local _ _ hlocal]
    refine ⟨fun k _ => by rw [bus_processLocal], fun h => ?_, fun _ _ => ?_⟩
    · exact absurd (handed_processLocal env _ _) h
    · rw [bus_processLocal]
      exact hfresh
  | none =>
    rw [exec_handleRequest, hlocal]
    cases next with
    | error e => exact ⟨fun _ _ => rfl, fun h => absurd rfl h, fun h => by cases h⟩
    | ok server =>
      dsimp only
      rw [Table.emplace_of_none hfresh]
      have hsettles : Settles (requestMessage (replyAddress uuid) a server.port server.host v)
          { b with publishers :=
            b.publishers.assign (replyAddress uuid) (.target (.response r)) } _ :=
        settles_processOnTcpMessage env htame hconsumers fun _ => rfl
      refine ⟨fun k hk => ?_, fun h => ?_, hsettles.erased⟩
      · exact (hsettles.elsewhere k hk).trans (Table.find_assign_of_ne _ _ hk)
      · rw [hsettles.handed h]
        exact Table.find_assign_self _ _ _

end Branches

end EventBus

/-! ### While a frame is on its way -/

namespace Cluster

variable {ι F R : Type} {wire : Wire F R} {s t : Cluster ι F}

/-- A frame of the request is on its way or queued. -/
def InFlight (s : Cluster ι F) (r : ℕ) : Prop :=
  (∃ p ∈ s.packets, p.origin.root = r) ∨ ∃ c ∈ s.closures, c.origin.root = r ∧ c.origin.hops ≠ 0

/-- Of a request whose closure is picked there is nothing else. -/
theorem Inv.alone (h : Inv wire s) {k : ℕ} {c : Closure ι F} {closures : List (Closure ι F)}
    (hpick : pick s.closures k = some (c, closures)) :
    (∀ p ∈ s.packets, p.origin.root ≠ c.origin.root) ∧
      ∀ d ∈ closures, d.origin.root ≠ c.origin.root := by
  have htokens : s.tokens c.origin.root ≤ 1 := by
    have hmost := h.tokens c.origin.root
    split_ifs at hmost <;> omega
  simp only [Cluster.tokens, (perm_of_pick hpick).countP_eq, List.countP_cons, decide_true,
    if_true] at htokens
  refine ⟨fun p hp hroot => ?_, fun d hd hroot => ?_⟩
  · have hone : 0 < s.packets.countP fun p => p.origin.root = c.origin.root :=
      List.countP_pos_iff.2 ⟨p, hp, by simpa using hroot⟩
    omega
  · have hone : 0 < closures.countP fun d => d.origin.root = c.origin.root :=
      List.countP_pos_iff.2 ⟨d, hd, by simpa using hroot⟩
    omega

/-- A frame decodes to the address of a reply that was issued for its request, or to no address
of a reply. -/
theorem address_of_carries {issued : List (Bytes × ι × ℕ)} {log : List (Invocation ι)}
    {o : Origin ι} {f : F} (h : Carries wire issued log o f) (rest : R) :
    (wire.decode f rest).request = false ∧
      (¬ replyMark <:+: (wire.decode f rest).address ∨
        ∃ u i, (u, i, o.root) ∈ issued ∧ (wire.decode f rest).address = replyAddress u) := by
  cases h with
  | request i r u m _ hissued hencode haddress hmark =>
    obtain ⟨ha, -, -, -, hreq⟩ := wire.exchange m f hencode rest
    exact ⟨hreq, Or.inl (ha ▸ hmark)⟩
  | response j i r u m _ hissued hencode hreplay hcall =>
    obtain ⟨ha, -, -, -, hreq⟩ := wire.exchange m f hencode rest
    exact ⟨hreq, Or.inr ⟨u, i, hissued, ha.trans hreplay⟩⟩

/-- What a closure of the request `r` does to `_publishers`, the uuids in `issued` being those
of before and its own: the keys of other requests stay; a frame leaves its function waiting; and
where a response function is called and all goes well, a key of the request is free. -/
structure Moves (issued : List (Bytes × ι × ℕ)) (c : Closure ι F) (b : EventBus)
    (run : Except Fault Unit × World F) : Prop where
  elsewhere : ∀ u, (∀ i, (u, i, c.origin.root) ∉ issued) →
    run.2.bus.publishers.find (replyAddress u) = b.publishers.find (replyAddress u)
  opened : handed run.2.effects ≠ [] → c.origin.hops = 0 →
    ∃ u i, (u, i, c.origin.root) ∈ issued ∧
      run.2.bus.publishers.find (replyAddress u) = some (.target (.response c.origin.root))
  passed : handed run.2.effects ≠ [] → c.origin.hops ≠ 0 →
    run.2.bus.publishers = b.publishers
  erased : run.1 = .ok () → responses run.2.effects ≠ [] →
    ∃ u i, (u, i, c.origin.root) ∈ issued ∧ run.2.bus.publishers.find (replyAddress u) = none

/-- A uuid that was not issued has no key. -/
theorem find_of_fresh {issued : List (Bytes × ι × ℕ)} {i : ι} {b : EventBus}
    (h : BusInv issued i b) {uuid : Bytes} (hfresh : uuid ∉ issued.map Prod.fst) :
    b.publishers.find (replyAddress uuid) = none := by
  by_contra hne
  obtain ⟨e, he, hkey⟩ := h.keys _ hne
  exact hfresh (List.mem_map.2 ⟨e, he, (replyAddress_injective hkey).symm⟩)

/-- **One closure.** -/
theorem Inv.moves (h : Inv wire s) {c : Closure ι F} (hc : c ∈ s.closures) {handlers : Handlers}
    (htame : Tame handlers) {uuid : Bytes} (hfresh : uuid ∉ s.issued.map Prod.fst)
    (next : Except Fault ServerID) (rest : R) :
    Moves (s.issued ++ c.issues uuid) c (s.bus c.node)
      (exec (c.task.run ⟨handlers, wire.encode⟩ (fun f => wire.decode f rest) uuid next)
        ⟨s.bus c.node, []⟩) := by
  cases h.closures c hc with
  | request i r a v hrequest hmark =>
    have hissued : (uuid, i, r) ∈ s.issued ++ [(uuid, i, r)] := by simp
    have hopens := opens_handleRequest ⟨handlers, wire.encode⟩ htame
      (h.buses i).consumers (find_of_fresh (h.buses i) hfresh) a v r next
    refine ⟨fun u hu => hopens.elsewhere _ fun hkey => ?_, fun hf _ => ?_,
      fun _ hhops => absurd rfl hhops, fun hok hr => ?_⟩
    · obtain rfl := replyAddress_injective hkey
      exact hu i hissued
    · exact ⟨uuid, i, hissued, hopens.handed hf⟩
    · exact ⟨uuid, i, hissued, hopens.erased hok hr⟩
  | onMessage i f o hcarries =>
    obtain ⟨hreq, haddress⟩ := address_of_carries hcarries rest
    have hsettles := settles_processOnTcpMessage ⟨handlers, wire.encode⟩
      (m := wire.decode f rest) htame (h.buses i).consumers fun h => by simp [hreq] at h
    have hnone : s.issued ++ Closure.issues ⟨i, .onMessage f, o⟩ uuid = s.issued :=
      List.append_nil _
    rw [hnone]
    have hhops : o.hops ≠ 0 := by
      have := hops_of_carries hcarries
      omega
    refine ⟨fun u hu => hsettles.elsewhere _ fun hkey => ?_, fun _ h => absurd h hhops,
      fun hf _ => hsettles.handed hf, fun hok hr => ?_⟩
    · rcases haddress with hmark | ⟨v, j, hv, hkey'⟩
      · exact hmark (hkey ▸ replyMark_infix u)
      · obtain rfl := replyAddress_injective (hkey.trans hkey')
        exact hu j hv
    · rcases haddress with hmark | ⟨v, j, hv, hkey⟩
      · rcases hsettles.called hr with h | h
        · simp [hreq] at h
        · exact absurd h hmark
      · exact ⟨v, j, hv, hkey ▸ hsettles.erased hok hr⟩

variable [DecidableEq ι]

/-- The cluster after a run, with what `InFlight` looks at. -/
theorem inFlight_afterRun (h : Inv wire s) {k : ℕ} {c : Closure ι F}
    {closures : List (Closure ι F)} (hpick : pick s.closures k = some (c, closures))
    (handlers : Handlers) (uuid : Bytes) (next : Except Fault ServerID) (rest : R) (r : ℕ) :
    InFlight (s.afterRun wire c closures handlers uuid next rest) r ↔
      if c.origin.root = r then
        handed (exec (c.task.run ⟨handlers, wire.encode⟩ (fun f => wire.decode f rest) uuid next)
          ⟨s.bus c.node, []⟩).2.effects ≠ []
      else InFlight s r := by
  obtain ⟨hpackets, hclosures⟩ := h.alone hpick
  have hperm := perm_of_pick hpick
  simp only [InFlight, afterRun, List.mem_append, List.mem_map]
  split_ifs with hroot
  · subst hroot
    constructor
    · rintro (⟨p, hp | ⟨sent, hsent, rfl⟩, hp'⟩ | ⟨d, hd, hd', -⟩)
      · exact absurd hp' (hpackets p hp)
      · exact List.ne_nil_of_mem hsent
      · exact absurd hd' (hclosures d hd)
    · intro hne
      obtain ⟨sent, hsent⟩ := List.exists_mem_of_ne_nil _ hne
      exact Or.inl ⟨_, Or.inr ⟨sent, hsent, rfl⟩, rfl⟩
  · constructor
    · rintro (⟨p, hp | ⟨sent, hsent, rfl⟩, hp'⟩ | ⟨d, hd, hd'⟩)
      · exact Or.inl ⟨p, hp, hp'⟩
      · exact absurd hp' hroot
      · exact Or.inr ⟨d, hperm.mem_iff.2 (List.mem_cons_of_mem _ hd), hd'⟩
    · rintro (⟨p, hp, hp'⟩ | ⟨d, hd, hd'⟩)
      · exact Or.inl ⟨p, Or.inl hp, hp'⟩
      · rcases List.mem_cons.1 (hperm.mem_iff.1 hd) with rfl | hd
        · exact absurd hd'.1 hroot
        · exact Or.inr ⟨d, hd, hd'⟩

/-- What holds in every run: a request whose closure is queued has no uuid yet, no request has
two, and while a frame is on its way the function waits under the uuid of its request. -/
structure Kept (wire : Wire F R) (s : Cluster ι F) : Prop where
  inv : Inv wire s
  queued : ∀ c ∈ s.closures, c.origin.hops = 0 → ∀ u i, (u, i, c.origin.root) ∉ s.issued
  single : ∀ u v i j r, (u, i, r) ∈ s.issued → (v, j, r) ∈ s.issued → u = v
  waiting : ∀ i r, (i, r) ∈ s.requests → InFlight s r → ∃ u, (u, i, r) ∈ s.issued ∧
    (s.bus i).publishers.find (replyAddress u) = some (.target (.response r))

omit [DecidableEq ι] in
/-- A request was made by one node. -/
theorem Inv.node_unique (h : Inv wire s) {i j : ι} {r : ℕ} (hi : (i, r) ∈ s.requests)
    (hj : (j, r) ∈ s.requests) : i = j :=
  congrArg Prod.fst (List.inj_on_of_nodup_map h.numbers hi hj rfl)

omit [DecidableEq ι] in
/-- What a closure issues, it issues for its own request, at its own node. -/
theorem Inv.of_issues (h : Inv wire s) {c : Closure ι F} (hc : c ∈ s.closures) {uuid u : Bytes}
    {i : ι} {r : ℕ} (hu : (u, i, r) ∈ c.issues uuid) :
    u = uuid ∧ r = c.origin.root ∧ c.origin.hops = 0 := by
  cases h.closures c hc with
  | request j q a v hrequest hmark =>
    obtain ⟨rfl, -, rfl⟩ : u = uuid ∧ i = j ∧ r = q := by
      simpa [Closure.issues, Origin.root] using hu
    exact ⟨rfl, rfl, rfl⟩
  | onMessage j f o hcarries => exact absurd hu List.not_mem_nil

/-- **The function of another request** is where it was, whichever closure runs. -/
theorem Inv.find_afterRun (h : Inv wire s) {c : Closure ι F} (hc : c ∈ s.closures)
    (closures : List (Closure ι F)) {handlers : Handlers} (htame : Tame handlers) {uuid : Bytes}
    (hfresh : uuid ∉ s.issued.map Prod.fst) (next : Except Fault ServerID) (rest : R) {u : Bytes}
    {i j : ι} {r : ℕ} (hu : (u, i, r) ∈ s.issued) (hr : r ≠ c.origin.root) :
    ((s.afterRun wire c closures handlers uuid next rest).bus j).publishers.find (replyAddress u)
      = (s.bus j).publishers.find (replyAddress u) := by
  show (Function.update s.bus c.node _ j).publishers.find _ = _
  by_cases hj : j = c.node
  · rw [hj, Function.update_self]
    refine (h.moves hc htame hfresh next rest).elsewhere u fun i' hi' => ?_
    rcases List.mem_append.1 hi' with hold | hnew
    · exact hr (h.unique u i r i' _ hu hold).2
    · obtain ⟨rfl, -, -⟩ := h.of_issues hc hnew
      exact hfresh (List.mem_map.2 ⟨_, hu, rfl⟩)
  · rw [Function.update_of_ne hj]

/-- **A closure runs.** -/
theorem Kept.run (h : Kept wire s) {k : ℕ} {c : Closure ι F} {closures : List (Closure ι F)}
    (hpick : pick s.closures k = some (c, closures)) {handlers : Handlers} (htame : Tame handlers)
    {uuid : Bytes} (hfresh : uuid ∉ s.issued.map Prod.fst) (next : Except Fault ServerID)
    (rest : R) : Kept wire (s.afterRun wire c closures handlers uuid next rest) := by
  have hperm := perm_of_pick hpick
  have hc : c ∈ s.closures := hperm.mem_iff.2 List.mem_cons_self
  have hinv := h.inv.run hpick htame hfresh next rest
  have hmoves := h.inv.moves hc htame hfresh next rest
  refine ⟨hinv, fun d hd hhops u i hu => ?_, fun u v i j r hu hv => ?_, fun i r hr hflight => ?_⟩
  · rcases List.mem_append.1 hu with hold | hnew
    · exact h.queued d (hperm.mem_iff.2 (List.mem_cons_of_mem _ hd)) hhops u i hold
    · exact (h.inv.alone hpick).2 d hd (h.inv.of_issues hc hnew).2.1
  · rcases List.mem_append.1 hu with hu | hu <;> rcases List.mem_append.1 hv with hv | hv
    · exact h.single u v i j r hu hv
    · obtain ⟨-, rfl, hhops⟩ := h.inv.of_issues hc hv
      exact absurd hu (h.queued c hc hhops u i)
    · obtain ⟨-, rfl, hhops⟩ := h.inv.of_issues hc hu
      exact absurd hv (h.queued c hc hhops v j)
    · rw [(h.inv.of_issues hc hu).1, (h.inv.of_issues hc hv).1]
  · rw [inFlight_afterRun h.inv hpick] at hflight
    split_ifs at hflight with hroot
    · subst hroot
      by_cases hhops : c.origin.hops = 0
      · obtain ⟨u, j, hu, hfind⟩ := hmoves.opened hflight hhops
        have hj : (j, c.origin.root) ∈ s.requests := hinv.requested u j _ hu
        obtain rfl := h.inv.node_unique hr hj
        have hnode : i = c.node := by
          rcases List.mem_append.1 hu with hold | hnew
          · exact absurd hold (h.queued c hc hhops u i)
          · cases h.inv.closures c hc with
            | request i' q a v hrequest hmark => exact h.inv.node_unique hr hrequest
            | onMessage i' f o hcarries => exact absurd hnew List.not_mem_nil
        refine ⟨u, hu, ?_⟩
        show (Function.update s.bus c.node _ i).publishers.find _ = _
        rw [hnode, Function.update_self]
        exact hfind
      · obtain ⟨u, hu, hfind⟩ := h.waiting i _ hr (Or.inr ⟨c, hc, rfl, hhops⟩)
        refine ⟨u, List.mem_append_left _ hu, ?_⟩
        show (Function.update s.bus c.node _ i).publishers.find _ = _
        by_cases hi : i = c.node
        · rw [hi, Function.update_self, hmoves.passed hflight hhops, ← hi]
          exact hfind
        · rw [Function.update_of_ne hi]
          exact hfind
    · obtain ⟨u, hu, hfind⟩ := h.waiting i r hr hflight
      refine ⟨u, List.mem_append_left _ hu, ?_⟩
      rw [h.inv.find_afterRun hc closures htame hfresh next rest hu (Ne.symm hroot)]
      exact hfind

omit [DecidableEq ι] in
/-- A delivery keeps in flight what is. -/
theorem inFlight_deliver (h : Inv wire s) {k : ℕ} {p : Packet ι F} {packets : List (Packet ι F)}
    (hpick : pick s.packets k = some (p, packets)) (i : ι) (r : ℕ) :
    InFlight { s with packets, closures := s.closures ++ [⟨i, .onMessage p.frame, p.origin⟩] } r ↔
      InFlight s r := by
  have hperm := perm_of_pick hpick
  have hhops : p.origin.hops ≠ 0 := by
    have := hops_of_carries (h.packets p (hperm.mem_iff.2 List.mem_cons_self))
    omega
  simp only [InFlight, List.mem_append, List.mem_singleton]
  constructor
  · rintro (⟨q, hq, hroot⟩ | ⟨c, hc | rfl, hroot, hc'⟩)
    · exact Or.inl ⟨q, hperm.mem_iff.2 (List.mem_cons_of_mem _ hq), hroot⟩
    · exact Or.inr ⟨c, hc, hroot, hc'⟩
    · exact Or.inl ⟨p, hperm.mem_iff.2 List.mem_cons_self, hroot⟩
  · rintro (⟨q, hq, hroot⟩ | ⟨c, hc, hroot, hc'⟩)
    · rcases List.mem_cons.1 (hperm.mem_iff.1 hq) with rfl | hq
      · exact Or.inr ⟨_, Or.inr rfl, hroot, hhops⟩
      · exact Or.inl ⟨q, hq, hroot⟩
    · exact Or.inr ⟨c, Or.inl hc, hroot, hc'⟩

omit [DecidableEq ι] in
/-- A call of `request` sets nothing in flight. -/
theorem inFlight_request (i : ι) (task : LoopTask F) (q r : ℕ) :
    InFlight { s with closures := s.closures ++ [⟨i, task, .request i q⟩],
                      requests := s.requests ++ [(i, q)] } r ↔ InFlight s r := by
  simp only [InFlight, List.mem_append, List.mem_singleton]
  constructor
  · rintro (hp | ⟨c, hc | rfl, hroot, hhops⟩)
    · exact Or.inl hp
    · exact Or.inr ⟨c, hc, hroot, hhops⟩
    · exact absurd rfl hhops
  · rintro (hp | ⟨c, hc, hroot, hhops⟩)
    · exact Or.inl hp
    · exact Or.inr ⟨c, Or.inl hc, hroot, hhops⟩

omit [DecidableEq ι] in
/-- What was not requested is nowhere. -/
theorem Inv.not_inFlight (h : Inv wire s) {r : ℕ} (hr : r ∉ s.requests.map Prod.snd) :
    ¬ InFlight s r := by
  have htokens := h.tokens r
  rw [if_neg hr, Cluster.tokens] at htokens
  rintro (⟨p, hp, hroot⟩ | ⟨c, hc, hroot, -⟩)
  · have hone : 0 < s.packets.countP fun p => p.origin.root = r :=
      List.countP_pos_iff.2 ⟨p, hp, by simpa using hroot⟩
    omega
  · have hone : 0 < s.closures.countP fun c => c.origin.root = r :=
      List.countP_pos_iff.2 ⟨c, hc, by simpa using hroot⟩
    omega

/-- A registration leaves `_publishers` alone. -/
theorem publishers_update (i j : ι) {b : EventBus}
    (hb : b.publishers = (s.bus i).publishers) :
    (Function.update s.bus i b j).publishers = (s.bus j).publishers := by
  by_cases hj : j = i
  · rw [hj, Function.update_self, hb]
  · rw [Function.update_of_ne hj]

/-- **One step.** -/
theorem Kept.step (h : Kept wire s) {label : ClusterStep ι R} (hstep : s.step wire label = some t) :
    Kept wire t := by
  have hinv := h.inv.step hstep
  cases label with
  | consumer i address n | localConsumer i address n =>
    obtain rfl := Option.some.inj hstep
    refine ⟨hinv, h.queued, h.single, fun j r hr hflight => ?_⟩
    obtain ⟨u, hu, hfind⟩ := h.waiting j r hr hflight
    refine ⟨u, hu, ?_⟩
    rw [publishers_update i j (by rfl)]
    exact hfind
  | request i address value q =>
    rw [Cluster.step] at hstep
    split_ifs at hstep with hguard
    obtain rfl := Option.some.inj hstep
    rw [not_or] at hguard
    refine ⟨hinv, fun c hc hhops u j hu => ?_, h.single, fun j r hr hflight => ?_⟩
    · rcases List.mem_append.1 hc with hc | hc
      · exact h.queued c hc hhops u j hu
      · obtain rfl := List.mem_singleton.1 hc
        exact hguard.1 (List.mem_map.2 ⟨_, h.inv.requested u j q hu, rfl⟩)
    · rw [inFlight_request] at hflight
      rcases List.mem_append.1 hr with hr | hr
      · exact h.waiting j r hr hflight
      · obtain ⟨-, rfl⟩ : j = i ∧ r = q := by simpa using hr
        exact absurd hflight (h.inv.not_inFlight hguard.1)
  | deliver k i =>
    rw [Cluster.step] at hstep
    split at hstep
    · rename_i p packets hpick
      split_ifs at hstep
      obtain rfl := Option.some.inj hstep
      refine ⟨hinv, fun c hc hhops u j hu => ?_, h.single, fun j r hr hflight => ?_⟩
      · rcases List.mem_append.1 hc with hc | hc
        · exact h.queued c hc hhops u j hu
        · obtain rfl := List.mem_singleton.1 hc
          have hcome := hops_of_carries (h.inv.packets p ((perm_of_pick hpick).mem_iff.2
            List.mem_cons_self))
          exact absurd hhops (Nat.one_le_iff_ne_zero.1 hcome.1)
      · rw [inFlight_deliver h.inv hpick] at hflight
        exact h.waiting j r hr hflight
    · cases hstep
  | run k handlers uuid next rest =>
    rw [Cluster.step] at hstep
    split at hstep
    · rename_i c closures hpick
      split_ifs at hstep with hfresh
      obtain rfl := Option.some.inj hstep
      exact h.run hpick handlers.2 hfresh next rest
    · cases hstep

/-! ### And no longer -/

/-- As long as no closure of the request `r` has ended in a fault, its function waits only while
a frame of it is on its way. -/
structure Returned (wire : Wire F R) (r : ℕ) (s : Cluster ι F) : Prop where
  kept : Kept wire s
  whole : Whole wire r s
  returned : ∀ i k, (s.bus i).publishers.find k = some (.target (.response r)) → InFlight s r

/-- A closure of another request changes nothing about a function that waits. -/
theorem Kept.find_afterRun_iff (h : Kept wire s) {c : Closure ι F} (hc : c ∈ s.closures)
    (closures : List (Closure ι F)) {handlers : Handlers} (htame : Tame handlers) {uuid : Bytes}
    (hfresh : uuid ∉ s.issued.map Prod.fst) (next : Except Fault ServerID) (rest : R)
    (hinv : Inv wire (s.afterRun wire c closures handlers uuid next rest)) {i : ι} {k : Bytes}
    {r : ℕ} (hr : r ≠ c.origin.root) :
    ((s.afterRun wire c closures handlers uuid next rest).bus i).publishers.find k
        = some (.target (.response r)) ↔
      (s.bus i).publishers.find k = some (.target (.response r)) := by
  constructor
  · intro hfind
    obtain ⟨u, hu, rfl⟩ := (hinv.buses i).functions k r hfind
    rcases List.mem_append.1 hu with hold | hnew
    · rwa [h.inv.find_afterRun hc closures htame hfresh next rest hold hr] at hfind
    · exact absurd (h.inv.of_issues hc hnew).2.1 hr
  · intro hfind
    obtain ⟨u, hu, rfl⟩ := (h.inv.buses i).functions k r hfind
    rwa [h.inv.find_afterRun hc closures htame hfresh next rest hu hr]

/-- **A closure runs**, without a fault if it is of the request `r`. -/
theorem Returned.run {r : ℕ} (h : Returned wire r s) {k : ℕ} {c : Closure ι F}
    {closures : List (Closure ι F)} (hpick : pick s.closures k = some (c, closures))
    {handlers : Handlers} (htame : Tame handlers) {uuid : Bytes}
    (hfresh : uuid ∉ s.issued.map Prod.fst) {next : Except Fault ServerID} {rest : R}
    (hok : c.origin.root = r → KeepsCallback handlers ∧
      (exec (c.task.run ⟨handlers, wire.encode⟩ (fun f => wire.decode f rest) uuid next)
        ⟨s.bus c.node, []⟩).1 = .ok ()) (i : ι) (key : Bytes)
    (hfind : ((s.afterRun wire c closures handlers uuid next rest).bus i).publishers.find key
      = some (.target (.response r))) :
    InFlight (s.afterRun wire c closures handlers uuid next rest) r := by
  have hc : c ∈ s.closures := (perm_of_pick hpick).mem_iff.2 List.mem_cons_self
  have hkept := h.kept.run hpick htame hfresh next rest
  rw [inFlight_afterRun h.kept.inv hpick]
  split_ifs with hroot
  · obtain ⟨hkeeps, hran⟩ := hok hroot
    subst hroot
    intro hnone
    have hresponses : responses (exec (c.task.run ⟨handlers, wire.encode⟩
        (fun f => wire.decode f rest) uuid next) ⟨s.bus c.node, []⟩).2.effects ≠ [] := by
      rcases goesOn_closure (h.kept.inv.closures c hc) htame hkeeps (h.whole.responses c.node) hran
        with hr | hf
      · exact hr
      · exact absurd hnone hf
    obtain ⟨u, j, hu, herased⟩ :=
      (h.kept.inv.moves hc htame hfresh next rest).erased hran hresponses
    obtain ⟨v, hv, rfl⟩ := (hkept.inv.buses i).functions key _ hfind
    obtain rfl := hkept.single u v j i _ hu hv
    have hnode : i = c.node := by
      cases h.kept.inv.outcome hc htame hfresh next rest with
      | nothing hr => exact absurd hr hresponses
      | sent frame addr hr => exact absurd hr hresponses
      | invoked q hr hf hroot hrequest =>
        rw [← hroot] at hrequest
        exact h.kept.inv.node_unique (hkept.inv.requested _ i _ hv) hrequest
    rw [hnode] at hfind
    have hfind' : (Function.update s.bus c.node _ c.node).publishers.find (replyAddress u)
        = some (.target (.response c.origin.root)) := hfind
    rw [Function.update_self, herased] at hfind'
    cases hfind'
  · rw [h.kept.find_afterRun_iff hc closures htame hfresh next rest hkept.inv (Ne.symm hroot)]
      at hfind
    exact h.returned i key hfind

/-- **One step.** -/
theorem Returned.step {r : ℕ} (h : Returned wire r s) {label : ClusterStep ι R}
    (hok : Completes wire r s label) (hstep : s.step wire label = some t) :
    Returned wire r t := by
  refine ⟨h.kept.step hstep, h.whole.step hok hstep, fun i key hfind => ?_⟩
  cases label with
  | consumer j address n | localConsumer j address n =>
    obtain rfl := Option.some.inj hstep
    dsimp only at hfind
    rw [publishers_update j i (by rfl)] at hfind
    exact h.returned i key hfind
  | request j address value q =>
    rw [Cluster.step] at hstep
    split_ifs at hstep
    obtain rfl := Option.some.inj hstep
    exact (inFlight_request j _ q r).2 (h.returned i key hfind)
  | deliver k j =>
    rw [Cluster.step] at hstep
    split at hstep
    · rename_i p packets hpick
      split_ifs at hstep
      obtain rfl := Option.some.inj hstep
      exact (inFlight_deliver h.kept.inv hpick j r).2 (h.returned i key hfind)
    · cases hstep
  | run k handlers uuid next rest =>
    rw [Cluster.step] at hstep
    split at hstep
    · rename_i c closures hpick
      split_ifs at hstep with hfresh
      obtain rfl := Option.some.inj hstep
      exact h.run hpick handlers.2 hfresh (hok c closures hpick) i key hfind
    · cases hstep

section Runs

variable {options : ι → EventBusOptions} {labels : List (ClusterStep ι R)} {i : ι} {r : ℕ}

end Runs

/-- A message that nothing is read from. -/
def blank : ClusteredMessage := requestMessage [] [] 0 [] .empty

end Cluster

end VertxCpp
