/-
# Frames on their way out

`processStringMessage` of `src/vertx/event_bus_hazeclast.hpp`, between the event
loops that call it and the connector tasks it starts.  A call that finds no entry
in `endpoints` starts a task with the message in it; the task makes a client,
places it in `endpoints` and runs an event loop, in which the connection is
established later and the message sent.  A call that finds an entry sends over the
connection of its client, which is null before it is established and after it is
closed; no entry is ever taken out.

A message is in one of two places: sent, or held by a task whose connection is not
established yet (`Inv.tokens`).  So every message is sent exactly once, unless a
call comes while the entry it finds has no connection, and then the call
dereferences null: the two go together exactly (`delivers_iff`).  Which calls these are is
a matter of the order of events: those between the placing of the first client for a hash
and its connection, and those behind its closing (`meets_finds_iff`).
-/
import VertxCpp.Library.Machine
import VertxCpp.Library.Table
import VertxCpp.Message

namespace VertxCpp

open Machine

/-- How far a connector task and its client are. -/
inductive Phase where
  | spawned
  | created
  | emplaced
  | connected
  | closed
  deriving DecidableEq, Repr

/-- The connection is still to be established, and the message with it to be sent. -/
def Phase.waiting : Phase → Bool
  | spawned => true
  | created => true
  | emplaced => true
  | connected => false
  | closed => false

/-- A call's `message_str`, with the number of the call. -/
structure Message where
  id : ℕ
  messageStr : Bytes
  deriving DecidableEq, Repr

/-- A task started by `processStringMessage`, with what it has captured. -/
structure Connector where
  addr : Bytes
  message : Message
  phase : Phase
  deriving DecidableEq, Repr

/-- A call: its message, its address, and whether the peer was reachable at the call and
closed no connection until the task it may have started had connected. -/
structure Handed where
  message : Message
  addr : Bytes
  undisturbed : Bool
  deriving DecidableEq, Repr

/-- The outbound side of a bus.  `endpoints` maps hashes to clients, which are numbered
like the tasks that made them. -/
structure Outbound where
  endpoints : Table Int64 ℕ
  connectors : List Connector
  reachable : Bytes → Bool
  sent : List Message
  crashed : Bool
  handed : List Handed

/-- What can happen next: a call, one of the steps of the `k`-th connector task, the peer
closing its connection and being reachable again. -/
inductive OutboundStep where
  | processStringMessage (messageStr addr : Bytes)
  | create (k : ℕ)
  | emplace (k : ℕ)
  | established (k : ℕ)
  | closed (k : ℕ)
  | reachableAgain (addr : Bytes)

namespace Outbound

/-- No call has been made, and peers are reachable or not. -/
def start (reachable : Bytes → Bool) : Outbound where
  endpoints := .empty
  connectors := []
  reachable := reachable
  sent := []
  crashed := false
  handed := []

/-- `conn()` of the client `k` is not null. -/
def live (s : Outbound) (k : ℕ) : Bool :=
  s.connectors[k]?.any fun c => c.phase = .connected

/-- `processStringMessage(message_str, addr)`; `hash` is `std::hash<std::string>`. -/
def processStringMessage (hash : Bytes → Int64) (s : Outbound) (messageStr addr : Bytes) :
    Outbound :=
  let message : Message := ⟨s.handed.length, messageStr⟩
  let call : Handed := ⟨message, addr, s.reachable addr⟩
  let s := { s with handed := s.handed ++ [call] }
  match s.endpoints.find (hash addr) with
  | none =>
    let connector : Connector := ⟨addr, message, .spawned⟩
    { s with connectors := s.connectors ++ [connector] }
  | some k =>
    -- `it->second->conn()->Send(message_str)`
    if s.live k then { s with sent := s.sent ++ [message] } else { s with crashed := true }

/-- The `k`-th task, which is `c`, is in the phase `after`. -/
def setPhase (s : Outbound) (k : ℕ) (c : Connector) (after : Phase) : Outbound :=
  { s with connectors := s.connectors.set k { c with phase := after } }

/-- The `k`-th task goes from one phase to another. -/
def advance (s : Outbound) (k : ℕ) (before after : Phase) : Option (Connector × Outbound) :=
  match s.connectors[k]? with
  | some c => if c.phase = before then some (c, s.setPhase k c after) else none
  | none => none

/-- The message `m` waits in a task for its connection. -/
def waits (m : Message) (c : Connector) : Bool := c.phase.waiting && decide (c.message = m)

/-- What the closing of a connection to `addr` is for a call. -/
def disturb (s : Outbound) (addr : Bytes) (h : Handed) : Handed :=
  if h.addr = addr ∧ s.connectors.any (waits h.message) then { h with undisturbed := false } else h

/-- Nothing happens after a dereference of null.  A connection is established once, when
the peer is reachable, and the callback sends the message of the task; a client that has
been closed stays so. -/
def step (hash : Bytes → Int64) (s : Outbound) (label : OutboundStep) : Option Outbound :=
  if s.crashed then none
  else
    match label with
    | .processStringMessage messageStr addr => some (s.processStringMessage hash messageStr addr)
    | .create k => (s.advance k .spawned .created).map Prod.snd
    | .emplace k =>
      (s.advance k .created .emplaced).map fun (c, s) =>
        { s with endpoints := s.endpoints.emplace (hash c.addr) k }
    | .established k =>
      (s.advance k .emplaced .connected).bind fun (c, s) =>
        if s.reachable c.addr then some { s with sent := s.sent ++ [c.message] } else none
    | .closed k =>
      (s.advance k .connected .closed).map fun (c, s) =>
        { s with reachable := Function.update s.reachable c.addr false,
                 handed := s.handed.map (s.disturb c.addr) }
    | .reachableAgain addr => some { s with reachable := Function.update s.reachable addr true }

/-- A call finds no entry, or one whose client has its connection. -/
def Finds (hash : Bytes → Int64) (s : Outbound) : OutboundStep → Prop
  | .processStringMessage _ addr => ∀ k, s.endpoints.find (hash addr) = some k → s.live k = true
  | _ => True

/-- The clients placed in `endpoints`, oldest first. -/
def placements (labels : List OutboundStep) : List ℕ :=
  labels.filterMap fun
    | .emplace k => some k
    | _ => none

/-- The address of the `k`-th task. -/
def addrOf (s : Outbound) (k : ℕ) : Option Bytes := s.connectors[k]?.map Connector.addr

/-- The first client placed for an address of the hash `h`. -/
def firstClient (hash : Bytes → Int64) (s : Outbound) (labels : List OutboundStep) (h : Int64) :
    Option ℕ :=
  (placements labels).find? fun k => (s.addrOf k).any fun addr => hash addr = h

/-- No call comes between the placing of the first client for its hash and the connection of this
client, and none behind the closing of this connection. -/
def InOrder (hash : Bytes → Int64) (reachable : Bytes → Bool) (labels : List OutboundStep) : Prop :=
  ∀ before messageStr addr after,
    labels = before ++ .processStringMessage messageStr addr :: after →
    ∀ s, run (step hash) (start reachable) before = some s →
      ∀ k, firstClient hash s before (hash addr) = some k →
        .established k ∈ before ∧ .closed k ∉ before

/-- The steps of the `k`-th task up to its connection. -/
def Own (k : ℕ) (label : OutboundStep) : Prop := label ∈ [.create k, .emplace k, .established k]

/-- What the outbound side is for.  No null is dereferenced; every message handed in has
been sent exactly once, or waits for the connection of a task; and one handed in while the
peer was reachable, with no connection closed until its task has connected, has been sent
exactly once or is so by further steps of that task alone. -/
structure Delivers (hash : Bytes → Int64) (s : Outbound) : Prop where
  noNull : s.crashed = false
  once : ∀ h ∈ s.handed, s.sent.count h.message = 1 ∨
    s.sent.count h.message = 0 ∧ ∃ c ∈ s.connectors, waits h.message c = true
  arrives : ∀ h ∈ s.handed, h.undisturbed = true → ∃ k labels t,
    (∀ label ∈ labels, Own k label) ∧ run (step hash) s labels = some t ∧
      t.sent.count h.message = 1

/-! ### The invariant -/

/-- What holds as long as no null has been dereferenced. -/
structure Inv (s : Outbound) : Prop where
  noNull : s.crashed = false
  ids : s.handed.map (fun h => h.message.id) = List.range s.handed.length
  known : ∀ c ∈ s.connectors, ∃ h ∈ s.handed, h.message = c.message ∧ h.addr = c.addr
  knownSent : ∀ m ∈ s.sent, ∃ h ∈ s.handed, h.message = m
  tokens : ∀ h ∈ s.handed, s.sent.count h.message + s.connectors.countP (waits h.message) = 1
  reach : ∀ h ∈ s.handed, h.undisturbed = true → ∀ c ∈ s.connectors,
    waits h.message c = true → s.reachable c.addr = true

theorem inv_start (reachable : Bytes → Bool) : Inv (start reachable) := by
  constructor <;> simp [start]

section Steps

variable {hash : Bytes → Int64} {s t : Outbound} {k : ℕ} {c : Connector} {before after : Phase}

@[simp] theorem setPhase_sent : (s.setPhase k c after).sent = s.sent := rfl

@[simp] theorem setPhase_reachable : (s.setPhase k c after).reachable = s.reachable := rfl

theorem advance_eq_some (h : s.advance k before after = some (c, t)) :
    s.connectors[k]? = some c ∧ c.phase = before ∧ t = s.setPhase k c after := by
  rw [advance] at h
  split at h
  · rename_i d hd
    split_ifs at h with hphase
    obtain ⟨rfl, rfl⟩ : d = c ∧ _ = t := by simpa using h
    exact ⟨hd, hphase, rfl⟩
  · cases h

/-- Messages have the numbers of their calls, so two calls never share one. -/
theorem Inv.eq_of_message (h : Inv s) {a b : Handed} (ha : a ∈ s.handed) (hb : b ∈ s.handed)
    (hab : a.message = b.message) : a = b := by
  have hnodup : (s.handed.map fun h => h.message.id).Nodup := h.ids ▸ List.nodup_range
  exact List.inj_on_of_nodup_map hnodup ha hb (congrArg Message.id hab)

/-- The number of a new call is no other call's. -/
theorem Inv.message_fresh (h : Inv s) (messageStr : Bytes) {a : Handed} (ha : a ∈ s.handed) :
    a.message ≠ ⟨s.handed.length, messageStr⟩ := by
  intro he
  have hmem : a.message.id ∈ s.handed.map fun h => h.message.id := List.mem_map_of_mem ha
  rw [h.ids, List.mem_range, he] at hmem
  exact lt_irrefl _ hmem

theorem Inv.not_sent (h : Inv s) (messageStr : Bytes) :
    s.sent.count ⟨s.handed.length, messageStr⟩ = 0 := by
  rw [List.count_eq_zero]
  intro hmem
  obtain ⟨a, ha, he⟩ := h.knownSent _ hmem
  exact h.message_fresh messageStr ha he

theorem Inv.not_waits (h : Inv s) (messageStr : Bytes) (hc : c ∈ s.connectors) :
    waits ⟨s.handed.length, messageStr⟩ c = false := by
  obtain ⟨a, ha, he, -⟩ := h.known c hc
  have hne : c.message ≠ ⟨s.handed.length, messageStr⟩ := he ▸ h.message_fresh messageStr ha
  simp [waits, hne]

theorem Inv.countP_not_waits (h : Inv s) (messageStr : Bytes) :
    s.connectors.countP (waits ⟨s.handed.length, messageStr⟩) = 0 := by
  rw [List.countP_eq_zero]
  intro c hc
  simp [h.not_waits messageStr hc]

theorem Inv.ids_append (h : Inv s) {a : Handed} (ha : a.message.id = s.handed.length) :
    (s.handed ++ [a]).map (fun h => h.message.id) = List.range (s.handed ++ [a]).length := by
  rw [List.map_append, h.ids, List.map_singleton, ha, List.length_append, List.length_singleton,
    List.range_succ]

/-- A call starts a task, in which its message waits. -/
theorem Inv.starts (h : Inv s) (messageStr addr : Bytes) :
    Inv { s with
      handed := s.handed ++ [⟨⟨s.handed.length, messageStr⟩, addr, s.reachable addr⟩],
      connectors := s.connectors ++ [⟨addr, ⟨s.handed.length, messageStr⟩, .spawned⟩] } := by
  refine ⟨h.noNull, h.ids_append rfl, fun c hc => ?_, fun m hm => ?_, fun a ha => ?_,
    fun a ha hu c hc hw => ?_⟩
  · rcases List.mem_append.1 hc with hc | hc
    · obtain ⟨a, ha, he⟩ := h.known c hc
      exact ⟨a, List.mem_append_left _ ha, he⟩
    · obtain rfl := List.mem_singleton.1 hc
      exact ⟨_, List.mem_append_right _ (List.mem_singleton_self _), rfl, rfl⟩
  · obtain ⟨a, ha, he⟩ := h.knownSent m hm
    exact ⟨a, List.mem_append_left _ ha, he⟩
  · rw [List.countP_append, List.countP_singleton]
    rcases List.mem_append.1 ha with ha | ha
    · have hold := h.tokens a ha
      have hne := (h.message_fresh messageStr ha).symm
      simpa [waits, hne] using hold
    · obtain rfl := List.mem_singleton.1 ha
      rw [h.not_sent, h.countP_not_waits]
      simp [waits, Phase.waiting]
  · rcases List.mem_append.1 ha with ha | ha <;> rcases List.mem_append.1 hc with hc | hc
    · exact h.reach a ha hu c hc hw
    · obtain rfl := List.mem_singleton.1 hc
      rw [waits, Bool.and_eq_true, decide_eq_true_eq] at hw
      exact absurd hw.2.symm (h.message_fresh messageStr ha)
    · obtain rfl := List.mem_singleton.1 ha
      rw [h.not_waits messageStr hc] at hw
      cases hw
    · obtain rfl := List.mem_singleton.1 ha
      obtain rfl := List.mem_singleton.1 hc
      exact hu

/-- A call sends its message at once. -/
theorem Inv.sends (h : Inv s) (messageStr addr : Bytes) :
    Inv { s with
      handed := s.handed ++ [⟨⟨s.handed.length, messageStr⟩, addr, s.reachable addr⟩],
      sent := s.sent ++ [⟨s.handed.length, messageStr⟩] } := by
  refine ⟨h.noNull, h.ids_append rfl, fun c hc => ?_, fun m hm => ?_, fun a ha => ?_,
    fun a ha hu c hc hw => ?_⟩
  · obtain ⟨a, ha, he⟩ := h.known c hc
    exact ⟨a, List.mem_append_left _ ha, he⟩
  · rcases List.mem_append.1 hm with hm | hm
    · obtain ⟨a, ha, he⟩ := h.knownSent m hm
      exact ⟨a, List.mem_append_left _ ha, he⟩
    · obtain rfl := List.mem_singleton.1 hm
      exact ⟨_, List.mem_append_right _ (List.mem_singleton_self _), rfl⟩
  · rw [List.count_append, List.count_singleton]
    rcases List.mem_append.1 ha with ha | ha
    · have hold := h.tokens a ha
      have hne := (h.message_fresh messageStr ha).symm
      simpa [hne] using hold
    · obtain rfl := List.mem_singleton.1 ha
      rw [h.not_sent, h.countP_not_waits]
      simp
  · rcases List.mem_append.1 ha with ha | ha
    · exact h.reach a ha hu c hc hw
    · obtain rfl := List.mem_singleton.1 ha
      rw [h.not_waits messageStr hc] at hw
      cases hw

/-- A call that finds no entry. -/
theorem processStringMessage_of_none {messageStr addr : Bytes}
    (hfind : s.endpoints.find (hash addr) = none) :
    s.processStringMessage hash messageStr addr = { s with
      handed := s.handed ++ [⟨⟨s.handed.length, messageStr⟩, addr, s.reachable addr⟩],
      connectors := s.connectors ++ [⟨addr, ⟨s.handed.length, messageStr⟩, .spawned⟩] } := by
  simp [processStringMessage, hfind]

/-- A call that finds a client with its connection. -/
theorem processStringMessage_of_live {messageStr addr : Bytes}
    (hfind : s.endpoints.find (hash addr) = some k) (hlive : s.live k = true) :
    s.processStringMessage hash messageStr addr = { s with
      handed := s.handed ++ [⟨⟨s.handed.length, messageStr⟩, addr, s.reachable addr⟩],
      sent := s.sent ++ [⟨s.handed.length, messageStr⟩] } := by
  rw [processStringMessage]
  simp only [hfind]
  exact if_pos hlive

/-- **A call** that does not dereference null sends its message or starts a task for it. -/
theorem Inv.call (h : Inv s) {messageStr addr : Bytes}
    (hfinds : Finds hash s (.processStringMessage messageStr addr)) :
    Inv (s.processStringMessage hash messageStr addr) := by
  cases hfind : s.endpoints.find (hash addr) with
  | none =>
    rw [processStringMessage_of_none hfind]
    exact h.starts messageStr addr
  | some k =>
    rw [processStringMessage_of_live hfind (hfinds k hfind)]
    exact h.sends messageStr addr

/-- One task's phase in the count of the tasks a message waits in. -/
theorem countP_setPhase (hk : s.connectors[k]? = some c) (after : Phase) (m : Message) :
    (s.setPhase k c after).connectors.countP (waits m) + (if waits m c then 1 else 0)
      = s.connectors.countP (waits m) + (if waits m { c with phase := after } then 1 else 0) := by
  obtain ⟨hlt, hget⟩ := List.getElem?_eq_some_iff.1 hk
  have hle : (if waits m c then 1 else 0) ≤ s.connectors.countP (waits m) := by
    split_ifs with hw
    · exact List.countP_pos_iff.2 ⟨c, List.mem_of_getElem? hk, hw⟩
    · exact Nat.zero_le _
  rw [setPhase, List.countP_set hlt, hget]
  omega

/-- What is in the list of tasks after one has changed its phase. -/
theorem mem_setPhase {d : Connector}
    (hd : d ∈ (s.setPhase k c after).connectors) :
    d = { c with phase := after } ∨ d ∈ s.connectors :=
  (List.mem_or_eq_of_mem_set hd).symm

/-- **A task before its connection** takes a step: it keeps its message. -/
theorem Inv.pending (h : Inv s) (hk : s.connectors[k]? = some c) (hwaiting : c.phase.waiting = true)
    (hafter : after.waiting = true) (endpoints : Table Int64 ℕ) :
    Inv { s.setPhase k c after with endpoints := endpoints } := by
  have hsame : ∀ m, waits m { c with phase := after } = waits m c := by
    simp [waits, hwaiting, hafter]
  have hc := List.mem_of_getElem? hk
  refine ⟨h.noNull, h.ids, fun d hd => ?_, h.knownSent, fun a ha => ?_, fun a ha hu d hd hw => ?_⟩
  · rcases mem_setPhase hd with rfl | hd
    · exact h.known c hc
    · exact h.known d hd
  · have hcount := countP_setPhase hk after a.message
    rw [hsame] at hcount
    have hold := h.tokens a ha
    simp only [setPhase_sent]
    omega
  · rcases mem_setPhase hd with rfl | hd
    · exact h.reach a ha hu c hc (hsame _ ▸ hw)
    · exact h.reach a ha hu d hd hw

/-- **A connection is established**: the message of the task is sent, and waits no longer. -/
theorem Inv.established (h : Inv s) (hk : s.connectors[k]? = some c)
    (hwaiting : c.phase.waiting = true) :
    Inv { s.setPhase k c .connected with sent := s.sent ++ [c.message] } := by
  have hafter : ∀ m, waits m { c with phase := .connected } = false := by
    simp [waits, Phase.waiting]
  have hc := List.mem_of_getElem? hk
  refine ⟨h.noNull, h.ids, fun d hd => ?_, fun m hm => ?_, fun a ha => ?_,
    fun a ha hu d hd hw => ?_⟩
  · rcases mem_setPhase hd with rfl | hd
    · exact h.known c hc
    · exact h.known d hd
  · rcases List.mem_append.1 hm with hm | hm
    · exact h.knownSent m hm
    · obtain rfl := List.mem_singleton.1 hm
      obtain ⟨a, ha, he, -⟩ := h.known c hc
      exact ⟨a, ha, he⟩
  · have hcount := countP_setPhase hk .connected a.message
    have hold := h.tokens a ha
    rw [hafter] at hcount
    rw [List.count_append, List.count_singleton]
    by_cases he : c.message = a.message
    · simp [waits, hwaiting, he] at hcount ⊢
      omega
    · simp [waits, he] at hcount ⊢
      omega
  · rcases mem_setPhase hd with rfl | hd
    · rw [hafter] at hw
      cases hw
    · exact h.reach a ha hu d hd hw

@[simp] theorem disturb_message (addr : Bytes) (a : Handed) :
    (s.disturb addr a).message = a.message := by
  rw [disturb]
  split_ifs <;> rfl

@[simp] theorem disturb_addr (addr : Bytes) (a : Handed) :
    (s.disturb addr a).addr = a.addr := by
  rw [disturb]
  split_ifs <;> rfl

/-- What is undisturbed by a closing was so before, and waits for another peer if it waits. -/
theorem of_disturb {addr : Bytes} {a : Handed} (h : (s.disturb addr a).undisturbed = true) :
    a.undisturbed = true ∧ (a.addr = addr → ∀ c ∈ s.connectors, waits a.message c = false) := by
  rw [disturb] at h
  split_ifs at h with hcond
  refine ⟨h, fun haddr c hc => ?_⟩
  by_contra hw
  exact hcond ⟨haddr, List.any_eq_true.2 ⟨c, hc, by simpa using hw⟩⟩

/-- **A connection is closed**: nothing waits in its task, and the waiting calls to its peer
are disturbed. -/
theorem Inv.closed (h : Inv s) (hk : s.connectors[k]? = some c)
    (hwaiting : c.phase.waiting = false) :
    Inv { s.setPhase k c .closed with
      reachable := Function.update s.reachable c.addr false,
      handed := s.handed.map ((s.setPhase k c .closed).disturb c.addr) } := by
  have hidle : ∀ m, waits m c = false := by simp [waits, hwaiting]
  have hsame : ∀ m, waits m { c with phase := .closed } = waits m c := by
    intro m
    rw [hidle]
    rfl
  have hc := List.mem_of_getElem? hk
  refine ⟨h.noNull, ?_, fun d hd => ?_, fun m hm => ?_, fun a ha => ?_, fun a ha hu d hd hw => ?_⟩
  · simpa [Function.comp_def] using h.ids
  · have hd' : ∃ a ∈ s.handed, a.message = d.message ∧ a.addr = d.addr := by
      rcases mem_setPhase hd with rfl | hd
      · exact h.known c hc
      · exact h.known d hd
    obtain ⟨a, ha, he⟩ := hd'
    exact ⟨_, List.mem_map_of_mem ha, by simpa using he⟩
  · obtain ⟨a, ha, he⟩ := h.knownSent m hm
    exact ⟨_, List.mem_map_of_mem ha, by simpa using he⟩
  · obtain ⟨b, hb, rfl⟩ := List.mem_map.1 ha
    have hcount := countP_setPhase hk .closed b.message
    rw [hsame] at hcount
    have hold := h.tokens b hb
    simp only [disturb_message, setPhase_sent]
    omega
  · obtain ⟨b, hb, rfl⟩ := List.mem_map.1 ha
    obtain ⟨hub, hother⟩ := of_disturb hu
    rw [disturb_message] at hw
    have hds : d ∈ s.connectors := by
      rcases mem_setPhase hd with rfl | hd
      · rw [hsame, hidle] at hw
        cases hw
      · exact hd
    have hne : d.addr ≠ c.addr := by
      intro he
      -- the task of the message has its call's address
      obtain ⟨b', hb', hmessage, haddr⟩ := h.known d hds
      have hdm : d.message = b.message := by
        rw [waits, Bool.and_eq_true, decide_eq_true_eq] at hw
        exact hw.2
      obtain rfl := h.eq_of_message hb' hb (hmessage.trans hdm)
      rw [hother (haddr.trans he) d hd] at hw
      cases hw
    simp only [Function.update_of_ne hne]
    exact h.reach b hb hub d hds hw

/-- A peer is reachable again. -/
theorem Inv.reachableAgain (h : Inv s) (addr : Bytes) :
    Inv { s with reachable := Function.update s.reachable addr true } := by
  refine ⟨h.noNull, h.ids, h.known, h.knownSent, h.tokens, fun a ha hu c hc hw => ?_⟩
  dsimp only
  rw [Function.update_apply]
  split_ifs
  · rfl
  · exact h.reach a ha hu c hc hw

/-- What a step needs of the state, and the state it leads to. -/
inductive Stepped (hash : Bytes → Int64) (s : Outbound) : OutboundStep → Outbound → Prop where
  | call (messageStr addr : Bytes) :
      Stepped hash s (.processStringMessage messageStr addr)
        (s.processStringMessage hash messageStr addr)
  | create {k : ℕ} {c : Connector} (hk : s.connectors[k]? = some c) (hphase : c.phase = .spawned) :
      Stepped hash s (.create k) (s.setPhase k c .created)
  | emplace {k : ℕ} {c : Connector} (hk : s.connectors[k]? = some c) (hphase : c.phase = .created) :
      Stepped hash s (.emplace k)
        { s.setPhase k c .emplaced with endpoints := s.endpoints.emplace (hash c.addr) k }
  | established {k : ℕ} {c : Connector} (hk : s.connectors[k]? = some c)
      (hphase : c.phase = .emplaced) (hreach : s.reachable c.addr = true) :
      Stepped hash s (.established k)
        { s.setPhase k c .connected with sent := s.sent ++ [c.message] }
  | closed {k : ℕ} {c : Connector} (hk : s.connectors[k]? = some c)
      (hphase : c.phase = .connected) :
      Stepped hash s (.closed k)
        { s.setPhase k c .closed with
          reachable := Function.update s.reachable c.addr false
          handed := s.handed.map ((s.setPhase k c .closed).disturb c.addr) }
  | reachableAgain (addr : Bytes) :
      Stepped hash s (.reachableAgain addr)
        { s with reachable := Function.update s.reachable addr true }

/-- **One step**, taken apart once for all that follows. -/
theorem stepped_of_step {label : OutboundStep} (ht : step hash s label = some t) :
    Stepped hash s label t := by
  unfold Outbound.step at ht
  split_ifs at ht
  cases label with
  | processStringMessage messageStr addr =>
    obtain rfl := Option.some.inj ht
    exact .call messageStr addr
  | create k =>
    obtain ⟨⟨c, r⟩, ha, rfl⟩ := Option.map_eq_some_iff.1 ht
    obtain ⟨hk, hphase, rfl⟩ := advance_eq_some ha
    exact .create hk hphase
  | emplace k =>
    obtain ⟨⟨c, r⟩, ha, rfl⟩ := Option.map_eq_some_iff.1 ht
    obtain ⟨hk, hphase, rfl⟩ := advance_eq_some ha
    exact .emplace hk hphase
  | established k =>
    obtain ⟨⟨c, r⟩, ha, hr⟩ := Option.bind_eq_some_iff.1 ht
    obtain ⟨hk, hphase, rfl⟩ := advance_eq_some ha
    dsimp only at hr
    split_ifs at hr with hreach
    obtain rfl := Option.some.inj hr
    exact .established hk hphase hreach
  | closed k =>
    obtain ⟨⟨c, r⟩, ha, rfl⟩ := Option.map_eq_some_iff.1 ht
    obtain ⟨hk, hphase, rfl⟩ := advance_eq_some ha
    exact .closed hk hphase
  | reachableAgain addr =>
    obtain rfl := Option.some.inj ht
    exact .reachableAgain addr

/-- **Every step** keeps the invariant, a call if it finds no entry without a connection. -/
theorem Inv.step (h : Inv s) {label : OutboundStep} (hfinds : Finds hash s label)
    (ht : step hash s label = some t) : Inv t := by
  cases stepped_of_step ht with
  | call messageStr addr => exact h.call hfinds
  | create hk hphase => exact h.pending hk (by rw [hphase]; rfl) rfl s.endpoints
  | emplace hk hphase => exact h.pending hk (by rw [hphase]; rfl) rfl _
  | established hk hphase hreach => exact h.established hk (by rw [hphase]; rfl)
  | closed hk hphase => exact h.closed hk (by rw [hphase]; rfl)
  | reachableAgain addr => exact h.reachableAgain addr

/-! ### Every message arrives -/

theorem advance_of_phase (hk : s.connectors[k]? = some c) (hphase : c.phase = before) :
    s.advance k before after = some (c, s.setPhase k c after) := by
  rw [advance, hk]
  exact if_pos hphase

theorem getElem?_setPhase (hk : s.connectors[k]? = some c) :
    (s.setPhase k c after).connectors[k]? = some { c with phase := after } := by
  obtain ⟨hlt, -⟩ := List.getElem?_eq_some_iff.1 hk
  exact List.getElem?_set_self hlt

/-- The steps of a task from phase to phase. -/
theorem step_create (hash : Bytes → Int64) (hcrashed : s.crashed = false)
    (hk : s.connectors[k]? = some c) (hphase : c.phase = .spawned) :
    step hash s (.create k) = some (s.setPhase k c .created) := by
  simp [step, hcrashed, advance_of_phase hk hphase]

theorem step_emplace (hash : Bytes → Int64) (hcrashed : s.crashed = false)
    (hk : s.connectors[k]? = some c) (hphase : c.phase = .created) :
    step hash s (.emplace k)
      = some { s.setPhase k c .emplaced with
          endpoints := s.endpoints.emplace (hash c.addr) k } := by
  simp [step, hcrashed, advance_of_phase hk hphase]
  rfl

theorem step_established (hash : Bytes → Int64) (hcrashed : s.crashed = false)
    (hk : s.connectors[k]? = some c) (hphase : c.phase = .emplaced)
    (hreach : s.reachable c.addr = true) :
    step hash s (.established k)
      = some { s.setPhase k c .connected with sent := s.sent ++ [c.message] } := by
  simp [step, hcrashed, advance_of_phase hk hphase, hreach]

/-- The steps of the `k`-th task send the message `m`, and nothing else. -/
def Connects (hash : Bytes → Int64) (s : Outbound) (k : ℕ) (m : Message) : Prop :=
  ∃ labels t, (∀ label ∈ labels, Own k label) ∧ run (step hash) s labels = some t ∧
    t.sent = s.sent ++ [m]

theorem Connects.cons {m : Message} (h : Connects hash t k m) (label : OutboundStep)
    (hlabel : Own k label) (ht : step hash s label = some t) (hsent : t.sent = s.sent) :
    Connects hash s k m := by
  obtain ⟨labels, r, hown, hrun, hr⟩ := h
  refine ⟨label :: labels, r, ?_, run_cons_eq_some.2 ⟨t, ht, hrun⟩, hsent ▸ hr⟩
  simpa using ⟨hlabel, hown⟩

/-- **A waiting task** of a reachable peer gets to its connection, from each of its phases. -/
theorem connects_of_waiting (hash : Bytes → Int64) (hcrashed : s.crashed = false)
    (hk : s.connectors[k]? = some c) (hreach : s.reachable c.addr = true)
    (hwaiting : c.phase.waiting = true) : Connects hash s k c.message := by
  have hemplaced : ∀ s : Outbound, s.crashed = false → s.reachable c.addr = true →
      s.connectors[k]? = some { c with phase := .emplaced } →
      Connects hash s k c.message := by
    intro s hcrashed hreach hk
    exact ⟨[.established k], _, by simp [Own], run_cons_eq_some.2
      ⟨_, step_established hash hcrashed hk rfl hreach, rfl⟩, rfl⟩
  have hcreated : ∀ s : Outbound, s.crashed = false → s.reachable c.addr = true →
      s.connectors[k]? = some { c with phase := .created } →
      Connects hash s k c.message := by
    intro s hcrashed hreach hk
    have ht := step_emplace hash hcrashed hk rfl
    refine Connects.cons ?_ (.emplace k) (by simp [Own]) ht rfl
    exact hemplaced _ hcrashed hreach (getElem?_setPhase hk)
  have hspawned : s.connectors[k]? = some { c with phase := .spawned } →
      Connects hash s k c.message := by
    intro hk
    have ht := step_create hash hcrashed hk rfl
    refine Connects.cons ?_ (.create k) (by simp [Own]) ht rfl
    exact hcreated _ hcrashed hreach (getElem?_setPhase hk)
  obtain ⟨addr, message, phase⟩ := c
  cases phase with
  | spawned => exact hspawned hk
  | created => exact hcreated s hcrashed hreach hk
  | emplaced => exact hemplaced s hcrashed hreach hk
  | connected => cases hwaiting
  | closed => cases hwaiting

/-- **Under the invariant** the outbound side does what it is for. -/
theorem Inv.delivers (hash : Bytes → Int64) (h : Inv s) : Delivers hash s := by
  have hcases : ∀ a ∈ s.handed, s.sent.count a.message = 1 ∨
      s.sent.count a.message = 0 ∧ ∃ c ∈ s.connectors, waits a.message c = true := by
    intro a ha
    have htokens := h.tokens a ha
    rcases Nat.eq_zero_or_pos (s.connectors.countP (waits a.message)) with hnone | hsome
    · left
      omega
    · right
      exact ⟨by omega, List.countP_pos_iff.1 hsome⟩
  refine ⟨h.noNull, hcases, fun a ha hu => ?_⟩
  rcases hcases a ha with hsent | ⟨hsent, c, hc, hw⟩
  · exact ⟨0, [], s, by simp, rfl, hsent⟩
  · obtain ⟨k, hk⟩ := List.getElem?_of_mem hc
    have hreach := h.reach a ha hu c hc hw
    rw [waits, Bool.and_eq_true, decide_eq_true_eq] at hw
    obtain ⟨labels, t, hown, hrun, ht⟩ := connects_of_waiting hash h.noNull hk hreach hw.1
    refine ⟨k, labels, t, hown, hrun, ?_⟩
    rw [ht, List.count_append, hsent, hw.2, List.count_singleton_self]

/-- A call that finds an entry without a connection dereferences null. -/
theorem crashed_of_not_finds {label : OutboundStep} (hfinds : ¬ Finds hash s label)
    (ht : step hash s label = some t) : t.crashed = true := by
  cases label with
  | processStringMessage messageStr addr =>
    obtain ⟨k, hk, hlive⟩ : ∃ k, s.endpoints.find (hash addr) = some k ∧ s.live k ≠ true := by
      simpa [Finds] using hfinds
    unfold step at ht
    split_ifs at ht
    obtain rfl := Option.some.inj ht
    rw [processStringMessage]
    simp only [hk]
    split_ifs with h
    · exact absurd h hlive
    · rfl
  | create k => exact absurd trivial hfinds
  | emplace k => exact absurd trivial hfinds
  | established k => exact absurd trivial hfinds
  | closed k => exact absurd trivial hfinds
  | reachableAgain addr => exact absurd trivial hfinds

/-- After a dereference of null nothing happens, so a run without one at its end has none. -/
theorem meets_of_not_crashed {labels : List OutboundStep} (hrun : run (step hash) s labels = some t)
    (ht : t.crashed = false) : Meets (step hash) (Finds hash) s labels := by
  induction labels generalizing s with
  | nil => trivial
  | cons label labels ih =>
    obtain ⟨r, hr, hrt⟩ := run_cons_eq_some.1 hrun
    refine ⟨?_, fun r' hr' => ?_⟩
    · by_contra hfinds
      have hcrashed := crashed_of_not_finds hfinds hr
      cases labels with
      | nil =>
        obtain rfl : r = t := Option.some.inj hrt
        rw [hcrashed] at ht
        cases ht
      | cons label' labels =>
        obtain ⟨q, hq, -⟩ := run_cons_eq_some.1 hrt
        simp [step, hcrashed] at hq
    · obtain rfl : r = r' := Option.some.inj (hr.symm.trans hr')
      exact ih hrt

/-! ### The order of events -/

/-- What the past of a run says of `endpoints` and of the tasks. -/
structure Recalls (hash : Bytes → Int64) (labels : List OutboundStep) (s : Outbound) : Prop where
  clients : ∀ h, s.endpoints.find h = firstClient hash s labels h
  placed : ∀ k ∈ placements labels, k < s.connectors.length
  later : ∀ k, s.connectors.length ≤ k → .established k ∉ labels ∧ .closed k ∉ labels
  phases : ∀ k c, s.connectors[k]? = some c →
    (.established k ∈ labels ↔ c.phase = .connected ∨ c.phase = .closed) ∧
      (.closed k ∈ labels ↔ c.phase = .closed)

theorem recalls_start (hash : Bytes → Int64) (reachable : Bytes → Bool) :
    Recalls hash [] (start reachable) := by
  constructor <;> simp [start, firstClient, placements]

/-- A client has its connection where it has been established and not closed. -/
theorem Recalls.live_iff {labels : List OutboundStep} (h : Recalls hash labels s) (k : ℕ) :
    s.live k = true ↔ .established k ∈ labels ∧ .closed k ∉ labels := by
  rw [live]
  cases hk : s.connectors[k]? with
  | none =>
    obtain ⟨hestablished, -⟩ := h.later k (List.getElem?_eq_none_iff.1 hk)
    simp [hestablished]
  | some c =>
    obtain ⟨hestablished, hclosed⟩ := h.phases k c hk
    rw [hestablished, hclosed, Option.any_some, decide_eq_true_eq]
    constructor
    · intro hphase
      simp [hphase]
    · rintro ⟨hphase | hphase, hopen⟩
      · exact hphase
      · exact absurd hphase hopen

theorem addrOf_setPhase (hk : s.connectors[k]? = some c) (after : Phase) (j : ℕ) :
    (s.setPhase k c after).addrOf j = s.addrOf j := by
  obtain ⟨hlt, -⟩ := List.getElem?_eq_some_iff.1 hk
  rw [addrOf, addrOf, setPhase, List.getElem?_set]
  by_cases hj : k = j
  · subst hj
    rw [if_pos rfl, if_pos hlt, hk]
    rfl
  · rw [if_neg hj]

/-- The first clients are the same where no task has another address. -/
theorem firstClient_congr {labels : List OutboundStep}
    (haddr : ∀ k ∈ placements labels, t.addrOf k = s.addrOf k) (h : Int64) :
    firstClient hash t labels h = firstClient hash s labels h :=
  List.find?_congr fun k hk => by rw [haddr k hk]

theorem placements_append (labels : List OutboundStep) (label : OutboundStep) :
    placements (labels ++ [label]) = placements labels ++ placements [label] :=
  List.filterMap_append

/-- A step of a task that places no client. -/
theorem firstClient_step {labels : List OutboundStep} (hk : s.connectors[k]? = some c)
    {label : OutboundStep} (hnone : placements [label] = [])
    (hconnectors : t.connectors = (s.setPhase k c after).connectors) (a : Int64) :
    firstClient hash t (labels ++ [label]) a = firstClient hash s labels a := by
  rw [firstClient, placements_append, hnone, List.append_nil, ← firstClient]
  refine firstClient_congr (fun j _ => ?_) a
  rw [← addrOf_setPhase hk after j, addrOf, addrOf, hconnectors]

/-- **A step of a task** is recalled, if its label says where it has led. -/
theorem Recalls.advance {labels : List OutboundStep} (h : Recalls hash labels s)
    (hk : s.connectors[k]? = some c) {label : OutboundStep}
    (hconnectors : t.connectors = (s.setPhase k c after).connectors)
    (hclients : ∀ a, t.endpoints.find a = firstClient hash t (labels ++ [label]) a)
    (hlabel : label = .create k ∨ label = .emplace k ∨ label = .established k ∨ label = .closed k)
    (hphase : (.established k ∈ labels ++ [label] ↔ after = .connected ∨ after = .closed) ∧
      (.closed k ∈ labels ++ [label] ↔ after = .closed)) : Recalls hash (labels ++ [label]) t := by
  have hlength : t.connectors.length = s.connectors.length := by
    rw [hconnectors, setPhase, List.length_set]
  obtain ⟨hlt, -⟩ := List.getElem?_eq_some_iff.1 hk
  have hother (j : ℕ) (hj : j ≠ k) : label ≠ .established j ∧ label ≠ .closed j := by
    rcases hlabel with rfl | rfl | rfl | rfl <;> simp [hj.symm]
  have hsame (j : ℕ) (hj : j ≠ k) :
      (.established j ∈ labels ++ [label] ↔ .established j ∈ labels) ∧
        (.closed j ∈ labels ++ [label] ↔ .closed j ∈ labels) := by
    simp [(hother j hj).1.symm, (hother j hj).2.symm]
  refine ⟨hclients, fun j hj => ?_, fun j hj => ?_, fun j d hd => ?_⟩
  · rw [placements_append] at hj
    rw [hlength]
    rcases List.mem_append.1 hj with hold | hnew
    · exact h.placed j hold
    · rcases hlabel with rfl | rfl | rfl | rfl
      · cases hnew
      · rwa [List.mem_singleton.1 hnew]
      · cases hnew
      · cases hnew
  · rw [hlength] at hj
    obtain ⟨hestablished, hclosed⟩ := h.later j hj
    rw [(hsame j (by omega)).1, (hsame j (by omega)).2]
    exact ⟨hestablished, hclosed⟩
  · rw [hconnectors] at hd
    by_cases hj : j = k
    · subst hj
      rw [getElem?_setPhase hk] at hd
      obtain rfl := Option.some.inj hd
      exact hphase
    · rw [setPhase, List.getElem?_set_ne (Ne.symm hj)] at hd
      rw [(hsame j hj).1, (hsame j hj).2]
      exact h.phases j d hd

/-- **Any other step** is recalled as well: tasks may have been started. -/
theorem Recalls.start {labels : List OutboundStep} (h : Recalls hash labels s)
    {label : OutboundStep} (hnone : placements [label] = [])
    (hestablished : ∀ k, .established k ≠ label) (hclosed : ∀ k, .closed k ≠ label)
    (hendpoints : t.endpoints = s.endpoints) {new : List Connector}
    (hconnectors : t.connectors = s.connectors ++ new) (hnew : ∀ c ∈ new, c.phase = .spawned) :
    Recalls hash (labels ++ [label]) t := by
  have hsame (k : ℕ) : (.established k ∈ labels ++ [label] ↔ .established k ∈ labels) ∧
      (.closed k ∈ labels ++ [label] ↔ .closed k ∈ labels) := by
    simp [hestablished k, hclosed k]
  have hplacements : placements (labels ++ [label]) = placements labels := by
    rw [placements_append, hnone, List.append_nil]
  have hlength : s.connectors.length ≤ t.connectors.length := by
    rw [hconnectors, List.length_append]
    omega
  refine ⟨fun a => ?_, fun k hk => ?_, fun k hk => ?_, fun k c hk => ?_⟩
  · rw [hendpoints, h.clients, firstClient, firstClient, hplacements]
    refine (List.find?_congr fun k hk => ?_).symm
    rw [addrOf, addrOf, hconnectors, List.getElem?_append_left (h.placed k hk)]
  · rw [hplacements] at hk
    exact (h.placed k hk).trans_le hlength
  · rw [(hsame k).1, (hsame k).2]
    exact h.later k (hlength.trans hk)
  · rw [(hsame k).1, (hsame k).2]
    rw [hconnectors, List.getElem?_append] at hk
    split_ifs at hk with hold
    · exact h.phases k c hk
    · obtain ⟨hno, hnot⟩ := h.later k (by omega)
      rw [hnew c (List.mem_of_getElem? hk)]
      simp [hno, hnot]

/-- A call leaves `endpoints` alone, and starts a task at most. -/
theorem processStringMessage_tasks (hash : Bytes → Int64) (s : Outbound)
    (messageStr addr : Bytes) :
    (s.processStringMessage hash messageStr addr).endpoints = s.endpoints ∧
      ∃ new : List Connector, (∀ c ∈ new, c.phase = .spawned) ∧
        (s.processStringMessage hash messageStr addr).connectors = s.connectors ++ new := by
  cases hfind : s.endpoints.find (hash addr) with
  | none =>
    rw [processStringMessage_of_none hfind]
    exact ⟨rfl, _, fun c hc => by rw [List.mem_singleton.1 hc], rfl⟩
  | some k =>
    rw [processStringMessage]
    simp only [hfind]
    split_ifs
    · exact ⟨rfl, [], by simp, by simp⟩
    · exact ⟨rfl, [], by simp, by simp⟩

/-- **One step** is recalled. -/
theorem Recalls.step {labels : List OutboundStep} (h : Recalls hash labels s)
    {label : OutboundStep} (ht : step hash s label = some t) :
    Recalls hash (labels ++ [label]) t := by
  cases stepped_of_step ht with
  | call messageStr addr =>
    obtain ⟨hendpoints, new, hnew, hconnectors⟩ := processStringMessage_tasks hash s messageStr addr
    exact h.start rfl (by simp) (by simp) hendpoints hconnectors hnew
  | reachableAgain addr =>
    exact h.start rfl (by simp) (by simp) rfl (List.append_nil s.connectors).symm (by simp)
  | @create k c hk hphase =>
    obtain ⟨hestablished, hclosed⟩ := h.phases k c hk
    refine h.advance hk rfl (fun a => ?_) (Or.inl rfl) ?_
    · exact (h.clients a).trans (firstClient_step hk rfl rfl a).symm
    · simp [hestablished, hclosed, hphase]
  | @emplace k c hk hphase =>
    obtain ⟨hestablished, hclosed⟩ := h.phases k c hk
    refine h.advance hk rfl (fun a => ?_) (Or.inr (Or.inl rfl)) ?_
    · have hold : firstClient hash
            { s.setPhase k c .emplaced with endpoints := s.endpoints.emplace (hash c.addr) k }
            labels a = firstClient hash s labels a :=
        firstClient_congr (fun j _ => addrOf_setPhase hk .emplaced j) a
      have hnew : (placements [.emplace k]).find? (fun j =>
          ((s.setPhase k c .emplaced).addrOf j).any fun addr => hash addr = a)
            = if a = hash c.addr then some k else none := by
        have haddr : (s.setPhase k c .emplaced).addrOf k = some c.addr := by
          rw [addrOf_setPhase hk, addrOf, hk, Option.map_some]
        have hone : placements [.emplace k] = [k] := rfl
        rw [hone, List.find?_singleton, haddr]
        simp [eq_comm]
      rw [firstClient, placements_append, List.find?_append, ← firstClient, hold, ← h.clients,
        Table.find_emplace]
      exact congrArg _ hnew.symm
    · simp [hestablished, hclosed, hphase]
  | @established k c hk hphase hreach =>
    obtain ⟨hestablished, hclosed⟩ := h.phases k c hk
    refine h.advance hk rfl (fun a => ?_) (Or.inr (Or.inr (Or.inl rfl))) ?_
    · exact (h.clients a).trans (firstClient_step hk rfl rfl a).symm
    · simp [hclosed, hphase]
  | @closed k c hk hphase =>
    obtain ⟨hestablished, hclosed⟩ := h.phases k c hk
    refine h.advance hk rfl (fun a => ?_) (Or.inr (Or.inr (Or.inr rfl))) ?_
    · exact (h.clients a).trans (firstClient_step hk rfl rfl a).symm
    · simp [hestablished, hphase]

/-- **Where a call finds a connection.** -/
theorem finds_iff_events {labels : List OutboundStep} (h : Recalls hash labels s)
    (messageStr addr : Bytes) : Finds hash s (.processStringMessage messageStr addr) ↔
      ∀ k, firstClient hash s labels (hash addr) = some k →
        .established k ∈ labels ∧ .closed k ∉ labels := by
  rw [Finds, h.clients]
  exact forall_congr' fun k => imp_congr_right fun _ => h.live_iff k

/-- **In which runs every call does**: those with the events in order. -/
theorem meets_finds_iff (reachable : Bytes → Bool) (labels : List OutboundStep) :
    Meets (Outbound.step hash) (Finds hash) (start reachable) labels ↔
      InOrder hash reachable labels := by
  have hrecalls {before : List OutboundStep} {r : Outbound}
      (hr : run (Outbound.step hash) (start reachable) before = some r) : Recalls hash before r :=
    run_history (fun _ _ _ _ h hstep => h.step hstep) hr (recalls_start hash reachable)
  rw [meets_iff_split]
  constructor
  · rintro h before messageStr addr after hlabels s hs
    exact (finds_iff_events (hrecalls hs) messageStr addr).1 (h before _ after hlabels s hs)
  · intro h before label after hlabels s hs
    cases label with
    | processStringMessage messageStr addr =>
      exact (finds_iff_events (hrecalls hs) messageStr addr).2
        (h before messageStr addr after hlabels s hs)
    | _ => trivial

/-- **The outbound side does what it is for** exactly in the runs whose every call finds no
entry in `endpoints`, or one whose client has its connection; and that is where no call for a hash
comes between the first placing of a client for it and the connection of this client, and none
behind its closing. -/
theorem delivers_iff (reachable : Bytes → Bool) (labels : List OutboundStep)
    (hrun : run (step hash) (start reachable) labels = some s) :
    (Delivers hash s ↔ Meets (step hash) (Finds hash) (start reachable) labels) ∧
      (Meets (step hash) (Finds hash) (start reachable) labels ↔
        InOrder hash reachable labels) := by
  refine ⟨⟨fun h => meets_of_not_crashed hrun h.noNull, fun hok => ?_⟩,
    meets_finds_iff reachable labels⟩
  have hinv : Inv s :=
    hok.invariant (fun s label t h hfinds ht => h.step hfinds ht) hrun (inv_start reachable)
  exact hinv.delivers hash

end Steps

/-- The address of the peer. -/
def peer : Bytes := bytes "10.0.0.2:15701"

/-- The second call comes after the connection of the first one's task, which is closed later
by the peer; then the peer is reachable again. -/
def secondConnected : List OutboundStep :=
  [.processStringMessage (bytes "book") peer, .create 0, .emplace 0, .established 0,
    .processStringMessage (bytes "pen") peer, .closed 0, .reachableAgain peer]

theorem delivers_iff_connected :
    (∃ s : Outbound, s.sent.length = 2 ∧ Delivers (fun _ => 0) s) ∧
      InOrder (fun _ => 0) (fun _ => true) secondConnected := by
  have hrun : ∃ s, run (step fun _ => 0) (start fun _ => true) secondConnected = some s ∧
      s.crashed = false ∧ s.sent.length = 2 := ⟨_, rfl, rfl, rfl⟩
  obtain ⟨s, hs, hcrashed, hlength⟩ := hrun
  have hmeets := meets_of_not_crashed hs hcrashed
  obtain ⟨hdelivers, horder⟩ := delivers_iff (fun _ => true) secondConnected hs
  exact ⟨⟨s, hlength, hdelivers.2 hmeets⟩, horder.1 hmeets⟩

/-- The second call comes when the client is in `endpoints` and its connection is not yet
established. -/
def secondTooEarly : List OutboundStep :=
  [.processStringMessage (bytes "book") peer, .create 0, .emplace 0,
    .processStringMessage (bytes "pen") peer]

/-- The second call comes when the peer has closed the connection and is reachable again. -/
def secondTooLate : List OutboundStep :=
  [.processStringMessage (bytes "book") peer, .create 0, .emplace 0, .established 0, .closed 0,
    .reachableAgain peer, .processStringMessage (bytes "pen") peer]

/-- **Null is dereferenced** by a call that comes too early and by one that comes too late. -/
theorem null_dereferenced :
    (∃ s, run (step fun _ => 0) (start fun _ => true) secondTooEarly = some s ∧
      ¬ Delivers (fun _ => 0) s) ∧
    (∃ s, run (step fun _ => 0) (start fun _ => true) secondTooLate = some s ∧
      ¬ Delivers (fun _ => 0) s) := by
  have hnull : ∀ s : Outbound, s.crashed = true → ¬ Delivers (fun _ => 0) s := by
    intro s hs h
    rw [h.noNull] at hs
    cases hs
  exact ⟨⟨_, rfl, hnull _ rfl⟩, ⟨_, rfl, hnull _ rfl⟩⟩

end Outbound

end VertxCpp
