/-
# Over which client a message goes

The outbound side again (`Outbound`), with each message that is sent beside the address that
the client it went over was made for.  A client is found in `endpoints` by the hash of the
address, and the address itself is never compared: the first address of a run with some hash
gets the client, and every later one with that hash is sent over it.

So where each connection is established before the next call, every message is sent exactly
once, and to the address it is for exactly if no two addresses of the run have one hash
(`to_own_address_iff`).  There are more addresses than hashes, so for no hash does that hold
of every run (`message_misdelivered`).
-/
import VertxCpp.Outbound

namespace VertxCpp

open Machine

/-- The client is in `endpoints`, or was not placed there because another one is. -/
def Phase.placed : Phase → Bool
  | spawned => false
  | created => false
  | emplaced => true
  | connected => true
  | closed => true

namespace Outbound

/-- The addresses that clients were made for, in the order of their tasks. -/
def addrs (s : Outbound) : List Bytes := s.connectors.map Connector.addr

/-- What a step sends, and the address of the client it is sent over. -/
def sentOver (hash : Bytes → Int64) (s : Outbound) : OutboundStep → List (Message × Bytes)
  | .processStringMessage messageStr addr =>
    match s.endpoints.find (hash addr) with
    | none => []
    | some k =>
      match s.connectors[k]? with
      | none => []
      | some c => if c.phase = .connected then [(⟨s.handed.length, messageStr⟩, c.addr)] else []
  | .established k =>
    match s.connectors[k]? with
    | none => []
    | some c => [(c.message, c.addr)]
  | .create _ => []
  | .emplace _ => []
  | .closed _ => []
  | .reachableAgain _ => []

end Outbound

/-- The outbound side, and what was sent so far with the address of the client it was sent
over. -/
structure Routed where
  bus : Outbound
  traffic : List (Message × Bytes)

/-- The addresses of the calls of a run. -/
def addresses (labels : List OutboundStep) : List Bytes :=
  labels.filterMap fun
    | .processStringMessage _ addr => some addr
    | _ => none

namespace Routed

/-- No call has been made. -/
def start (reachable : Bytes → Bool) : Routed := ⟨Outbound.start reachable, []⟩

/-- A step of the outbound side. -/
def step (hash : Bytes → Int64) (s : Routed) (label : OutboundStep) : Option Routed :=
  (s.bus.step hash label).map fun t => ⟨t, s.traffic ++ s.bus.sentOver hash label⟩

/-- A call comes when the connection of every task before it is established. -/
def Completed (s : Routed) : OutboundStep → Prop
  | .processStringMessage _ _ => ∀ c ∈ s.bus.connectors, c.phase = .connected
  | _ => True

/-- Every message was sent once, over a client of its own address. -/
def ToOwnAddress (s : Routed) : Prop :=
  ∀ h ∈ s.bus.handed, s.traffic.filter (fun p => p.1 = h.message) = [(h.message, h.addr)]

/-! ### The invariant -/

/-- What holds in runs of completed calls. -/
structure Inv (hash : Bytes → Int64) (s : Routed) : Prop where
  base : Outbound.Inv s.bus
  sent : s.traffic.map Prod.fst = s.bus.sent
  entries : ∀ x k, s.bus.endpoints.find x = some k → ∃ a, s.bus.addrs[k]? = some a ∧ hash a = x
  placed : ∀ c ∈ s.bus.connectors, c.phase.placed = true →
    s.bus.endpoints.find (hash c.addr) ≠ none
  distinct : ∀ a ∈ s.bus.addrs, ∀ b ∈ s.bus.addrs, hash a = hash b → a = b
  origin : ∀ p ∈ s.traffic, p.2 ∈ s.bus.addrs ∧
    ∃ h ∈ s.bus.handed, h.message = p.1 ∧ hash h.addr = hash p.2

section Steps

variable {hash : Bytes → Int64} {reachable : Bytes → Bool} {s t : Routed} {k : ℕ} {c : Connector}
  {label : OutboundStep} {labels : List OutboundStep}

theorem inv_start (hash : Bytes → Int64) (reachable : Bytes → Bool) :
    Inv hash (start reachable) := by
  constructor
  · exact Outbound.inv_start reachable
  all_goals simp [start, Outbound.start, Outbound.addrs]

theorem addrs_setPhase {s : Outbound} (hk : s.connectors[k]? = some c) (after : Phase) :
    (s.setPhase k c after).addrs = s.addrs := by
  obtain ⟨hlt, -⟩ := List.getElem?_eq_some_iff.1 hk
  rw [Outbound.addrs, Outbound.setPhase, List.map_set, Outbound.addrs]
  refine List.ext_getElem? fun j => ?_
  rw [List.getElem?_set]
  split_ifs with hj hjlt
  · subst hj
    simp [hk]
  · rw [List.getElem?_eq_none (by omega)]
  · rfl

/-- A call that finds no entry sends nothing. -/
theorem sentOver_of_none {s : Outbound} {messageStr addr : Bytes}
    (hfind : s.endpoints.find (hash addr) = none) :
    s.sentOver hash (.processStringMessage messageStr addr) = [] := by
  simp [Outbound.sentOver, hfind]

/-- A call that finds a client with its connection sends its message over it. -/
theorem sentOver_of_connected {s : Outbound} {messageStr addr : Bytes}
    (hfind : s.endpoints.find (hash addr) = some k) (hk : s.connectors[k]? = some c)
    (hphase : c.phase = .connected) :
    s.sentOver hash (.processStringMessage messageStr addr)
      = [(⟨s.handed.length, messageStr⟩, c.addr)] := by
  simp [Outbound.sentOver, hfind, hk, hphase]

/-- A connection that is established takes the message of its task. -/
theorem sentOver_established {s : Outbound} (hk : s.connectors[k]? = some c) :
    s.sentOver hash (.established k) = [(c.message, c.addr)] := by
  simp [Outbound.sentOver, hk]

/-- An entry is a client that was made for an address with the hash. -/
theorem Inv.exists_connector (h : Inv hash s) {x : Int64}
    (hfind : s.bus.endpoints.find x = some k) :
    ∃ c, s.bus.connectors[k]? = some c ∧ hash c.addr = x := by
  obtain ⟨a, ha, hx⟩ := h.entries x k hfind
  rw [Outbound.addrs, List.getElem?_map] at ha
  obtain ⟨c, hc, rfl⟩ := Option.map_eq_some_iff.1 ha
  exact ⟨c, hc, hx⟩

/-- A call under the invariant finds no entry, or a client with its connection. -/
theorem Inv.finds (h : Inv hash s) (hcompleted : Completed s label) :
    Outbound.Finds hash s.bus label := by
  cases label with
  | processStringMessage messageStr addr =>
    intro k hk
    obtain ⟨c, hc, -⟩ := h.exists_connector hk
    rw [Outbound.live, hc]
    simpa using hcompleted c (List.mem_of_getElem? hc)
  | _ => trivial

/-- A call that starts a task sends nothing. -/
theorem Inv.starts (h : Inv hash s) {messageStr addr : Bytes}
    (hcompleted : Completed s (.processStringMessage messageStr addr))
    (hnone : s.bus.endpoints.find (hash addr) = none)
    (hbase : Outbound.Inv (s.bus.processStringMessage hash messageStr addr)) :
    Inv hash ⟨s.bus.processStringMessage hash messageStr addr, s.traffic⟩ := by
  rw [Outbound.processStringMessage_of_none hnone] at hbase ⊢
  have haddrs : Outbound.addrs { s.bus with
      handed := s.bus.handed ++ [⟨⟨s.bus.handed.length, messageStr⟩, addr, s.bus.reachable addr⟩],
      connectors := s.bus.connectors ++ [⟨addr, ⟨s.bus.handed.length, messageStr⟩, .spawned⟩] }
        = s.bus.addrs ++ [addr] := by
    simp [Outbound.addrs]
  -- the clients before it have their connections, so none of them has the hash of `addr`
  have hfresh : ∀ a ∈ s.bus.addrs, hash a ≠ hash addr := by
    intro a ha he
    obtain ⟨c, hc, rfl⟩ := List.mem_map.1 ha
    refine h.placed c hc ?_ (he ▸ hnone)
    rw [hcompleted c hc]
    rfl
  refine ⟨hbase, h.sent, fun x k hk => ?_, fun c hc hplaced => ?_, fun a ha b hb hab => ?_,
    fun p hp => ?_⟩
  · obtain ⟨a, ha, hx⟩ := h.entries x k hk
    rw [haddrs]
    exact ⟨a, List.getElem?_append_left (List.getElem?_eq_some_iff.1 ha).1 ▸ ha, hx⟩
  · rcases List.mem_append.1 hc with hc | hc
    · exact h.placed c hc hplaced
    · obtain rfl := List.mem_singleton.1 hc
      cases hplaced
  · rw [haddrs, List.mem_append, List.mem_singleton] at ha hb
    rcases ha with ha | rfl <;> rcases hb with hb | rfl
    · exact h.distinct a ha b hb hab
    · exact absurd hab (hfresh a ha)
    · exact absurd hab.symm (hfresh b hb)
    · rfl
  · obtain ⟨hover, g, hg, he⟩ := h.origin p hp
    rw [haddrs]
    exact ⟨List.mem_append_left _ hover, g, List.mem_append_left _ hg, he⟩

/-- A call that finds a client sends over it. -/
theorem Inv.sends (h : Inv hash s) {messageStr addr : Bytes} {k : ℕ} {c : Connector}
    (hsome : s.bus.endpoints.find (hash addr) = some k) (hk : s.bus.connectors[k]? = some c)
    (hphase : c.phase = .connected)
    (hbase : Outbound.Inv (s.bus.processStringMessage hash messageStr addr)) :
    Inv hash ⟨s.bus.processStringMessage hash messageStr addr,
      s.traffic ++ [(⟨s.bus.handed.length, messageStr⟩, c.addr)]⟩ := by
  have hlive : s.bus.live k = true := by simp [Outbound.live, hk, hphase]
  have hover : c.addr ∈ s.bus.addrs := List.mem_map_of_mem (List.mem_of_getElem? hk)
  have hhash : hash addr = hash c.addr := by
    obtain ⟨d, hd, hx⟩ := h.exists_connector hsome
    obtain rfl := Option.some.inj (hk.symm.trans hd)
    exact hx.symm
  rw [Outbound.processStringMessage_of_live hsome hlive] at hbase ⊢
  refine ⟨hbase, ?_, h.entries, h.placed, h.distinct, fun p hp => ?_⟩
  · rw [List.map_append, h.sent]
    rfl
  · rcases List.mem_append.1 hp with hp | hp
    · obtain ⟨hover, g, hg, he⟩ := h.origin p hp
      exact ⟨hover, g, List.mem_append_left _ hg, he⟩
    · obtain rfl := List.mem_singleton.1 hp
      exact ⟨hover, _, List.mem_append_right _ (List.mem_singleton_self _), rfl, hhash⟩

/-- **A task changes its phase** and the clients keep their addresses: what is left to show
of the other fields. -/
theorem Inv.setPhase (h : Inv hash s) (hk : s.bus.connectors[k]? = some c) {after : Phase}
    {bus : Outbound} (hbase : Outbound.Inv bus)
    (hconnectors : bus.connectors = (s.bus.setPhase k c after).connectors)
    {sent : List (Message × Bytes)} (hsent : bus.sent = s.bus.sent ++ sent.map Prod.fst)
    (hentries : ∀ x j, bus.endpoints.find x = some j →
      s.bus.endpoints.find x = some j ∨ x = hash c.addr ∧ j = k)
    (hplaced : ∀ x, s.bus.endpoints.find x ≠ none → bus.endpoints.find x ≠ none)
    (hafter : after.placed = true → bus.endpoints.find (hash c.addr) ≠ none)
    (hhanded : ∀ g ∈ s.bus.handed, ∃ g' ∈ bus.handed, g'.message = g.message ∧ g'.addr = g.addr)
    (hover : ∀ p ∈ sent, p = (c.message, c.addr)) :
    Inv hash ⟨bus, s.traffic ++ sent⟩ := by
  have haddrs : bus.addrs = s.bus.addrs := by
    rw [← addrs_setPhase hk after, Outbound.addrs, hconnectors, Outbound.addrs]
  have hcaddr : s.bus.addrs[k]? = some c.addr := by
    rw [Outbound.addrs, List.getElem?_map, hk]
    rfl
  have hc := List.mem_of_getElem? hk
  refine ⟨hbase, ?_, fun x j hj => ?_, fun d hd hd' => ?_, ?_, fun p hp => ?_⟩
  · rw [List.map_append, h.sent, hsent]
  · rw [haddrs]
    rcases hentries x j hj with hj | ⟨rfl, rfl⟩
    · exact h.entries x j hj
    · exact ⟨c.addr, hcaddr, rfl⟩
  · dsimp only at hd ⊢
    rw [hconnectors] at hd
    rcases Outbound.mem_setPhase hd with rfl | hd
    · exact hafter hd'
    · exact hplaced _ (h.placed d hd hd')
  · rw [haddrs]
    exact h.distinct
  · rw [haddrs]
    have hold : p.2 ∈ s.bus.addrs ∧
        ∃ g ∈ s.bus.handed, g.message = p.1 ∧ hash g.addr = hash p.2 := by
      rcases List.mem_append.1 hp with hp | hp
      · exact h.origin p hp
      · obtain rfl := hover p hp
        obtain ⟨g, hg, hmessage, haddr⟩ := h.base.known c hc
        exact ⟨List.mem_of_getElem? hcaddr, g, hg, hmessage, congrArg hash haddr⟩
    obtain ⟨hin, g, hg, hmessage, hhash⟩ := hold
    obtain ⟨g', hg', hmessage', haddr'⟩ := hhanded g hg
    exact ⟨hin, g', hg', hmessage'.trans hmessage, haddr' ▸ hhash⟩

/-- **Every step** keeps the invariant, a call if the tasks before it are completed. -/
theorem Inv.step (h : Inv hash s) (hcompleted : Completed s label)
    (ht : step hash s label = some t) : Inv hash t := by
  obtain ⟨bus, hbus, rfl⟩ := Option.map_eq_some_iff.1 ht
  have hsame : ∀ g ∈ s.bus.handed, ∃ g' ∈ s.bus.handed, g'.message = g.message ∧ g'.addr = g.addr :=
    fun g hg => ⟨g, hg, rfl, rfl⟩
  have hbase := h.base.step (h.finds hcompleted) hbus
  cases Outbound.stepped_of_step hbus with
  | call messageStr addr =>
    cases hfind : s.bus.endpoints.find (hash addr) with
    | none =>
      rw [sentOver_of_none hfind, List.append_nil]
      exact h.starts hcompleted hfind hbase
    | some k =>
      obtain ⟨c, hc, -⟩ := h.exists_connector hfind
      have hphase := hcompleted c (List.mem_of_getElem? hc)
      rw [sentOver_of_connected hfind hc hphase]
      exact h.sends hfind hc hphase hbase
  | create hk hphase =>
    exact h.setPhase hk hbase rfl (List.append_nil _).symm (fun _ _ => Or.inl) (fun _ => id)
      (fun hplaced => by cases hplaced) hsame (by simp [Outbound.sentOver])
  | @emplace k c hk hphase =>
    refine h.setPhase hk hbase rfl (List.append_nil _).symm ?_ ?_ ?_ hsame
      (by simp [Outbound.sentOver])
    · intro x j hj
      dsimp only at hj
      rw [Table.find_emplace, Option.or_eq_some_iff] at hj
      rcases hj with hj | ⟨-, hj⟩
      · exact Or.inl hj
      · split_ifs at hj with hx
        exact Or.inr ⟨hx, (Option.some.inj hj).symm⟩
    · intro x hx
      obtain ⟨j, hj⟩ := Option.ne_none_iff_exists'.1 hx
      show (s.bus.endpoints.emplace (hash c.addr) k).find x ≠ none
      rw [Table.find_emplace, hj]
      simp
    · intro _
      show (s.bus.endpoints.emplace (hash c.addr) k).find (hash c.addr) ≠ none
      rw [Table.find_emplace, if_pos rfl]
      simp
  | @established k c hk hphase hreach =>
    rw [sentOver_established hk]
    exact h.setPhase hk hbase rfl rfl (fun _ _ => Or.inl) (fun _ => id)
      (fun _ => h.placed c (List.mem_of_getElem? hk) (by rw [hphase]; rfl)) hsame (by simp)
  | @closed k c hk hphase =>
    refine h.setPhase hk hbase rfl (List.append_nil _).symm (fun _ _ => Or.inl) (fun _ => id)
      (fun _ => h.placed c (List.mem_of_getElem? hk) (by rw [hphase]; rfl)) ?_
      (by simp [Outbound.sentOver])
    exact fun g hg => ⟨_, List.mem_map_of_mem hg, by simp, by simp⟩
  | reachableAgain addr =>
    have hnothing : s.traffic ++ s.bus.sentOver hash (.reachableAgain addr) = s.traffic :=
      List.append_nil _
    rw [hnothing]
    exact ⟨hbase, h.sent, h.entries, h.placed, h.distinct, h.origin⟩

/-- **Every run** of completed calls. -/
theorem inv_of_run (hcompleted : Meets (step hash) Completed (start reachable) labels)
    (hrun : run (step hash) (start reachable) labels = some s) : Inv hash s :=
  hcompleted.invariant (fun _ _ _ h hok ht => h.step hok ht) hrun (inv_start hash reachable)

/-! ### Where the messages go -/

/-- A message is sent over the client of the first address with its hash. -/
theorem Inv.same_client (h : Inv hash s) {p q : Message × Bytes} (hp : p ∈ s.traffic)
    (hq : q ∈ s.traffic) (hpq : hash p.2 = hash q.2) : p.2 = q.2 :=
  h.distinct _ (h.origin p hp).1 _ (h.origin q hq).1 hpq

/-- When no connection is still to be established, each message is sent once. -/
theorem Inv.sent_once (h : Inv hash s) (hend : ∀ c ∈ s.bus.connectors, c.phase.waiting = false)
    {g : Handed} (hg : g ∈ s.bus.handed) :
    (s.traffic.filter fun p => p.1 = g.message).length = 1 := by
  have hidle : s.bus.connectors.countP (Outbound.waits g.message) = 0 := by
    rw [List.countP_eq_zero]
    intro c hc
    simp [Outbound.waits, hend c hc]
  have htokens := h.base.tokens g hg
  rw [hidle, add_zero, ← h.sent, List.count, List.countP_map, List.countP_eq_length_filter]
    at htokens
  rw [← htokens]
  rfl

/-- **Where no message waits**, each has gone to its address exactly if no two calls with one
hash have different addresses. -/
theorem Inv.own_address_iff (h : Inv hash s)
    (hend : ∀ c ∈ s.bus.connectors, c.phase.waiting = false) :
    ToOwnAddress s ↔ ∀ f ∈ s.bus.handed, ∀ g ∈ s.bus.handed, hash f.addr = hash g.addr →
      f.addr = g.addr := by
  have hmem : ∀ g ∈ s.bus.handed, ToOwnAddress s → (g.message, g.addr) ∈ s.traffic := by
    intro g hg hown
    have hin : (g.message, g.addr) ∈ s.traffic.filter fun p => p.1 = g.message := by
      rw [hown g hg]
      exact List.mem_singleton_self _
    exact (List.mem_filter.1 hin).1
  constructor
  · intro hown f hf g hg hfg
    exact h.same_client (hmem f hf hown) (hmem g hg hown) hfg
  · intro hinj g hg
    obtain ⟨p, hp⟩ := List.length_eq_one_iff.1 (h.sent_once hend hg)
    rw [hp]
    have hin : p ∈ s.traffic.filter fun p => p.1 = g.message := by
      rw [hp]
      exact List.mem_singleton_self _
    obtain ⟨htraffic, hmessage⟩ := List.mem_filter.1 hin
    obtain ⟨hover, f, hf, hfmessage, hhash⟩ := h.origin p htraffic
    -- the call that the message came with, and the one that its client was made for
    obtain rfl := h.base.eq_of_message hf hg (hfmessage.trans (of_decide_eq_true hmessage))
    obtain ⟨c, hc, hcaddr⟩ := List.mem_map.1 hover
    obtain ⟨g, hg', -, hgaddr⟩ := h.base.known c hc
    have haddr : f.addr = p.2 := by
      rw [← hcaddr, ← hgaddr]
      exact hinj f hf g hg' (by rw [hhash, ← hcaddr, ← hgaddr])
    rw [haddr, hfmessage]

/-! ### Runs of calls -/

/-- The calls so far have the addresses of the labels so far. -/
theorem addrs_handed_step (ht : step hash s label = some t) :
    t.bus.handed.map Handed.addr = s.bus.handed.map Handed.addr ++ addresses [label] := by
  obtain ⟨bus, hbus, rfl⟩ := Option.map_eq_some_iff.1 ht
  cases Outbound.stepped_of_step hbus with
  | call messageStr addr =>
    rw [Outbound.processStringMessage]
    dsimp only
    split
    · simp [addresses]
    · split_ifs <;> simp [addresses]
  | closed hk hphase => simp [addresses, Function.comp_def]
  | _ => simp [addresses, Outbound.setPhase]

theorem addrs_handed_run (hrun : run (step hash) s labels = some t) :
    t.bus.handed.map Handed.addr = s.bus.handed.map Handed.addr ++ addresses labels := by
  induction labels generalizing s with
  | nil =>
    obtain rfl : s = t := Option.some.inj hrun
    exact (List.append_nil _).symm
  | cons label labels ih =>
    obtain ⟨r, hr, hrt⟩ := run_cons_eq_some.1 hrun
    have happend : addresses (label :: labels) = addresses [label] ++ addresses labels :=
      List.filterMap_append (l := [label])
    rw [ih hrt, addrs_handed_step hr, happend, List.append_assoc]

/-- **Messages go to the address they are for** exactly in the runs in which no two addresses
have one hash, where each connection is established before the next call and none is still to
be established at the end. -/
theorem to_own_address_iff (hrun : run (step hash) (start reachable) labels = some s)
    (hcompleted : Meets (step hash) Completed (start reachable) labels)
    (hend : ∀ c ∈ s.bus.connectors, c.phase.waiting = false) :
    ToOwnAddress s ↔
      ∀ a ∈ addresses labels, ∀ b ∈ addresses labels, hash a = hash b → a = b := by
  have haddrs : s.bus.handed.map Handed.addr = addresses labels := addrs_handed_run hrun
  rw [(inv_of_run hcompleted hrun).own_address_iff hend, ← haddrs]
  constructor
  · intro h a ha b hb hab
    obtain ⟨f, hf, rfl⟩ := List.mem_map.1 ha
    obtain ⟨g, hg, rfl⟩ := List.mem_map.1 hb
    exact h f hf g hg hab
  · intro h f hf g hg hfg
    exact h _ (List.mem_map_of_mem hf) _ (List.mem_map_of_mem hg) hfg

/-- A run of the outbound side, with its traffic. -/
theorem exists_run_of_bus {bus : Outbound}
    (hrun : run (Outbound.step hash) s.bus labels = some bus) :
    ∃ t, run (step hash) s labels = some t ∧ t.bus = bus := by
  induction labels generalizing s with
  | nil => exact ⟨s, rfl, Option.some.inj hrun⟩
  | cons label labels ih =>
    obtain ⟨r, hr, hrt⟩ := run_cons_eq_some.1 hrun
    obtain ⟨t, ht, hbus⟩ := @ih ⟨r, s.traffic ++ s.bus.sentOver hash label⟩ hrt
    refine ⟨t, run_cons_eq_some.2 ⟨_, ?_, ht⟩, hbus⟩
    rw [step, hr]
    rfl

/-- The last task goes through its phases. -/
theorem connect_last (hash : Bytes → Int64) {s : Outbound} {l : List Connector}
    (hcrashed : s.crashed = false) (hl : s.connectors = l ++ [c]) (hphase : c.phase = .spawned)
    (hreach : s.reachable c.addr = true) :
    ∃ t, run (Outbound.step hash) s [.create l.length, .emplace l.length, .established l.length]
        = some t ∧
      t.connectors = l ++ [{ c with phase := .connected }] ∧ t.reachable = s.reachable := by
  have hk : s.connectors[l.length]? = some c := by rw [hl, List.getElem?_concat_length]
  have hset : ∀ d e : Connector, (l ++ [d]).set l.length e = l ++ [e] := by simp
  refine ⟨_, run_cons_eq_some.2 ⟨_, Outbound.step_create hash hcrashed hk hphase,
    run_cons_eq_some.2 ⟨_, Outbound.step_emplace hash (by exact hcrashed)
      (Outbound.getElem?_setPhase hk) rfl, run_cons_eq_some.2 ⟨_, Outbound.step_established hash
        (by exact hcrashed) (Outbound.getElem?_setPhase (Outbound.getElem?_setPhase hk)) rfl
          hreach, rfl⟩⟩⟩, ?_, rfl⟩
  simp only [Outbound.setPhase, hl, hset]

/-- Labels without a call are allowed anywhere. -/
theorem completed_of_no_calls (h : addresses labels = []) :
    Meets (step hash) Completed s labels := by
  induction labels generalizing s with
  | nil => trivial
  | cons label labels ih =>
    cases label with
    | processStringMessage messageStr addr => cases h
    | _ => exact ⟨trivial, fun _ _ => ih h⟩

/-- **A call can be completed**: its task, if it starts one, connects behind it. -/
theorem exists_call (h : Inv hash s) (hready : ∀ c ∈ s.bus.connectors, c.phase = .connected)
    (messageStr : Bytes) {addr : Bytes} (hreach : s.bus.reachable addr = true) :
    ∃ labels t, addresses labels = [addr] ∧ run (step hash) s labels = some t ∧
      Meets (step hash) Completed s labels ∧ (∀ c ∈ t.bus.connectors, c.phase = .connected) ∧
      t.bus.reachable = s.bus.reachable := by
  have hcompleted : Completed s (.processStringMessage messageStr addr) := hready
  have hcall : s.bus.step hash (.processStringMessage messageStr addr)
      = some (s.bus.processStringMessage hash messageStr addr) :=
    if_neg (by simp [h.base.noNull])
  have hconnects : ∃ labels bus, addresses labels = [] ∧
      run (Outbound.step hash) (s.bus.processStringMessage hash messageStr addr) labels
        = some bus ∧
      (∀ c ∈ bus.connectors, c.phase = .connected) ∧ bus.reachable = s.bus.reachable := by
    cases hfind : s.bus.endpoints.find (hash addr) with
    | some k =>
      rw [Outbound.processStringMessage_of_live hfind (h.finds hcompleted k hfind)]
      exact ⟨[], _, rfl, rfl, hready, rfl⟩
    | none =>
      have hbus := @Outbound.processStringMessage_of_none hash s.bus messageStr addr hfind
      obtain ⟨bus, hrun, hconnectors, hreachable⟩ := connect_last hash
        (s := s.bus.processStringMessage hash messageStr addr) (l := s.bus.connectors)
        (c := ⟨addr, ⟨s.bus.handed.length, messageStr⟩, .spawned⟩)
        (by rw [hbus]; exact h.base.noNull) (by rw [hbus]) rfl (by rw [hbus]; exact hreach)
      refine ⟨_, bus, rfl, hrun, fun c hc => ?_, hreachable.trans (by rw [hbus])⟩
      rw [hconnectors] at hc
      rcases List.mem_append.1 hc with hc | hc
      · exact hready c hc
      · obtain rfl := List.mem_singleton.1 hc
        rfl
  obtain ⟨labels, bus, hnone, hrun, hconnected, hreachable⟩ := hconnects
  obtain ⟨t, ht, rfl⟩ := exists_run_of_bus (run_cons_eq_some.2 ⟨_, hcall, hrun⟩)
  refine ⟨_, t, ?_, ht, ⟨hcompleted, fun _ _ => completed_of_no_calls hnone⟩, hconnected,
    hreachable⟩
  rw [← List.singleton_append, addresses, List.filterMap_append]
  exact congrArg (addr :: ·) hnone

/-- **Every list of calls has such a run**, if all peers are reachable. -/
theorem exists_run (h : Inv hash s) (hready : ∀ c ∈ s.bus.connectors, c.phase = .connected)
    (hreach : ∀ addr, s.bus.reachable addr = true) (calls : List (Bytes × Bytes)) :
    ∃ labels t, addresses labels = calls.map Prod.snd ∧ run (step hash) s labels = some t ∧
      Meets (step hash) Completed s labels ∧ ∀ c ∈ t.bus.connectors, c.phase = .connected := by
  induction calls generalizing s with
  | nil => exact ⟨[], s, rfl, rfl, trivial, hready⟩
  | cons call calls ih =>
    obtain ⟨labels, r, haddresses, hrun, hcompleted, hconnected, hreachable⟩ :=
      exists_call h hready call.1 (hreach call.2)
    have hr : Inv hash r :=
      hcompleted.invariant (fun _ _ _ h hok ht => h.step hok ht) hrun h
    obtain ⟨labels', t, haddresses', hrun', hcompleted', hconnected'⟩ :=
      ih hr hconnected (by rwa [hreachable])
    refine ⟨labels ++ labels', t, ?_, run_append_eq_some.2 ⟨r, hrun, hrun'⟩,
      hcompleted.append fun r' hr' => ?_, hconnected'⟩
    · rw [addresses, List.filterMap_append, ← addresses, ← addresses, haddresses, haddresses']
      rfl
    · obtain rfl := Option.some.inj (hrun.symm.trans hr')
      exact hcompleted'

end Steps

/-- Another peer, and a hash that tells the two apart. -/
def otherPeer : Bytes := bytes "10.0.0.12:15701"

def lengthHash (addr : Bytes) : Int64 := Int64.ofNat addr.length

/-- Calls for both peers, the last over the client of the first. -/
def bookPenCup : List OutboundStep :=
  [.processStringMessage (bytes "book") Outbound.peer, .create 0, .emplace 0, .established 0,
    .processStringMessage (bytes "pen") otherPeer, .create 1, .emplace 1, .established 1,
    .processStringMessage (bytes "cup") Outbound.peer]

theorem to_own_address_peer : ∃ s, s.traffic.length = 3 ∧ ToOwnAddress s := by
  have hrun : ∃ s, run (step lengthHash) (start fun _ => true) bookPenCup = some s ∧
      s.bus.connectors.map Connector.phase = [.connected, .connected] ∧ s.traffic.length = 3 :=
    ⟨_, rfl, rfl, rfl⟩
  obtain ⟨s, hs, hphases, hlength⟩ := hrun
  -- at each call the connections of the tasks before are established
  have hcompleted : Meets (step lengthHash) Completed (start fun _ => true) bookPenCup := by
    refine ⟨fun c hc => absurd hc List.not_mem_nil, fun r₁ h₁ => ⟨trivial, fun r₂ h₂ =>
      ⟨trivial, fun r₃ h₃ => ⟨trivial, fun r₄ h₄ => ⟨fun c hc => ?_, fun r₅ h₅ => ⟨trivial,
      fun r₆ h₆ => ⟨trivial, fun r₇ h₇ => ⟨trivial, fun r₈ h₈ => ⟨fun c hc => ?_,
      fun _ _ => trivial⟩⟩⟩⟩⟩⟩⟩⟩⟩
    all_goals
      obtain rfl := Option.some.inj h₁
      obtain rfl := Option.some.inj h₂
      obtain rfl := Option.some.inj h₃
      obtain rfl := Option.some.inj h₄
    · obtain rfl := List.mem_singleton.1 hc
      rfl
    · obtain rfl := Option.some.inj h₅
      obtain rfl := Option.some.inj h₆
      obtain rfl := Option.some.inj h₇
      obtain rfl := Option.some.inj h₈
      rcases List.mem_cons.1 hc with rfl | hc
      · rfl
      · obtain rfl := List.mem_singleton.1 hc
        rfl
  refine ⟨s, hlength, (to_own_address_iff hs hcompleted fun c hc => ?_).2 ?_⟩
  · have hphase := @List.mem_map_of_mem _ _ _ _ Connector.phase hc
    rw [hphases] at hphase
    have hconnected : c.phase = .connected := by simpa using hphase
    rw [hconnected]
    rfl
  · decide

/-- **No hash is good enough.**  There are two addresses with one hash, and the message for the
second of them goes to the first. -/
theorem message_misdelivered :
    ¬ ∃ hash : Bytes → Int64, ∀ (reachable : Bytes → Bool) (labels : List OutboundStep)
        (s : Routed),
      run (step hash) (start reachable) labels = some s →
      Meets (step hash) Completed (start reachable) labels →
      (∀ c ∈ s.bus.connectors, c.phase.waiting = false) → ToOwnAddress s := by
  rintro ⟨hash, h⟩
  obtain ⟨a, b, hne, hab⟩ := Finite.exists_ne_map_eq_of_infinite hash
  obtain ⟨labels, s, haddresses, hrun, hcompleted, hconnected⟩ :=
    exists_run (inv_start hash fun _ => true) (fun c hc => absurd hc List.not_mem_nil)
      (fun _ => rfl) [(bytes "book", a), (bytes "pen", b)]
  have hend : ∀ c ∈ s.bus.connectors, c.phase.waiting = false := by
    intro c hc
    rw [hconnected c hc]
    rfl
  have hown := h _ labels s hrun hcompleted hend
  have hinv := inv_of_run hcompleted hrun
  have haddrs : s.bus.handed.map Handed.addr = [a, b] :=
    (addrs_handed_run hrun).trans haddresses
  have ha : a ∈ s.bus.handed.map Handed.addr := by simp [haddrs]
  have hb : b ∈ s.bus.handed.map Handed.addr := by simp [haddrs]
  obtain ⟨f, hf, rfl⟩ := List.mem_map.1 ha
  obtain ⟨g, hg, rfl⟩ := List.mem_map.1 hb
  exact hne ((hinv.own_address_iff hend).1 hown f hf g hg hab)

end Routed

end VertxCpp
