/-
# Consumers and the network

A sequence of `consumer` calls of `src/vertx/event_bus_hazeclast.hpp`, and a message
from another node for one of the addresses.  The first registration of an address is
the one that counts (`find_registerAll`), and its function is called and answered with
one frame, unless the address looks like that of a reply: `consumer` takes such an address
and advertises it, and a request of the same node is served under it, but for a message from
the network `_consumers` is not even asked (`registered_consumer_reached_iff`).
-/
import VertxCpp.Node
import VertxCpp.Remote

namespace VertxCpp

open EventBus

/-- The bus after a sequence of `consumer` calls. -/
def registerAll (b : EventBus) (registrations : List (Bytes × MsgCallback)) : EventBus :=
  registrations.foldl (fun b r => (exec (consumer (F := Bytes) r.1 r.2) ⟨b, []⟩).2.bus) b

/-- The function first registered for an address. -/
def firstRegistered (a : Bytes) (registrations : List (Bytes × MsgCallback)) :
    Option MsgCallback :=
  (registrations.find? fun r => a = r.1).map Prod.snd

/-- Registrations change one table. -/
theorem registerAll_eq (b : EventBus) (registrations : List (Bytes × MsgCallback)) :
    registerAll b registrations
      = { b with
          consumers := registrations.foldl (fun t r => t.emplace r.1 r.2) b.consumers } := by
  induction registrations generalizing b with
  | nil => rfl
  | cons r registrations ih =>
    rw [registerAll, List.foldl_cons, ← registerAll, ih]
    rfl

/-- **The first registration counts.** -/
theorem find_registerAll {b : EventBus} (hb : b.consumers = .empty)
    (registrations : List (Bytes × MsgCallback)) (a : Bytes) :
    (registerAll b registrations).consumers.find a = firstRegistered a registrations := by
  rw [registerAll_eq, Table.find_foldl_emplace, hb, Table.find_empty, Option.none_or,
    firstRegistered]

/-- The functions called, and what with. -/
def invoked {F : Type} (es : List (Effect F)) : List (FuncId × ClusteredMessage) :=
  es.filterMap fun
    | .invoke f m => some (f, m)
    | _ => none

/-- What a message did on a bus. -/
def effectsOf (handlers : Handlers) (b : EventBus) (m : ClusteredMessage) : List (Effect Bytes) :=
  (exec (processOnTcpMessage ⟨handlers, ClusteredMessage.toString⟩ m) ⟨b, []⟩).2.effects

/-- The function is called with the message, once, and no other is. -/
def CalledOnce (handlers : Handlers) (b : EventBus) (function : MsgCallback)
    (m : ClusteredMessage) : Prop :=
  ∃ f, function = .target f ∧ invoked (effectsOf handlers b m) = [(f, m)]

/-- What a message for a registered address should do: call its function, and hand on
one frame for where it came from. -/
def Reached (handlers : Handlers) (b : EventBus) (function : MsgCallback) (m : ClusteredMessage) :
    Prop :=
  ∃ f frame, function = .target f ∧ effectsOf handlers b m
    = [.invoke f m, .processStringMessage frame (tcpAddress m.host m.port)]

/-- The function is not empty, and returns on the message. -/
def Returns (handlers : Handlers) (function : MsgCallback) (m : ClusteredMessage) : Prop :=
  ∃ f m', function = .target f ∧ handlers f m = .ok m'

section Effects

variable {handlers : Handlers} {b : EventBus} {f : FuncId} {function : MsgCallback}
  {m : ClusteredMessage}

/-- An address that looks like that of a reply is looked up among the replies. -/
theorem effectsOf_mark (hrequest : m.request = false) (hmark : replyMark <:+: m.address)
    (hpending : ∀ k, b.publishers.find m.address ≠ some (.target k)) :
    effectsOf handlers b m = [] := by
  obtain ⟨hempty, -⟩ := subscript_of_no_target hpending
  rw [effectsOf, exec_inbound _ _ _ hrequest, if_pos hmark]
  simp only [processReply, exec_bind, exec_publishersAt, hempty, callPublisher, call]
  rfl

/-- The function of a consumer is called, and where it returns and the response fits the
buffer, a frame is handed on. -/
theorem effectsOf_target (hrequest : m.request = false) (hmark : ¬ replyMark <:+: m.address)
    (hconsumer : b.consumers.find m.address = some (.target f)) :
    effectsOf handlers b m = .invoke f m ::
      match handlers f m with
      | .ok _ =>
        if 27 + m.replay.length + m.address.length + m.host.length ≤ 2048 then
          [.processStringMessage (responseMessage b.options m).header (tcpAddress m.host m.port)]
        else []
      | .error _ => [] := by
  cases hcall : handlers f m with
  | error e =>
    rw [effectsOf, exec_inbound _ _ _ hrequest, if_neg hmark, exec_processConsumer _ _ _ hconsumer]
    simp only [hcall]
    rfl
  | ok m' =>
    dsimp only
    split_ifs with hfit
    · exact processConsumer_frame hrequest hmark hconsumer hcall hfit
    · have hframe : ¬ (responseMessage b.options m).frame.length ≤ 2048 := by
        rw [ClusteredMessage.length_frame]
        simp only [responseMessage]
        omega
      rw [effectsOf, exec_inbound _ _ _ hrequest, if_neg hmark,
        exec_processConsumer _ _ _ hconsumer]
      simp only [hcall, ClusteredMessage.toString_eq, if_neg hframe]
      rfl

/-- Which functions are called. -/
theorem calledOnce_iff (hrequest : m.request = false)
    (hconsumer : b.consumers.find m.address = some function)
    (hpending : ∀ k, b.publishers.find m.address ≠ some (.target k)) :
    CalledOnce handlers b function m ↔ ¬ replyMark <:+: m.address ∧ ∃ f, function = .target f := by
  constructor
  · rintro ⟨f, hf, hinvoked⟩
    refine ⟨fun hmark => ?_, f, hf⟩
    rw [effectsOf_mark hrequest hmark hpending] at hinvoked
    cases hinvoked
  · rintro ⟨hmark, f, rfl⟩
    refine ⟨f, rfl, ?_⟩
    rw [effectsOf_target hrequest hmark hconsumer]
    split
    · split_ifs <;> rfl
    · rfl

/-- And where a frame is handed on. -/
theorem reached_iff (hrequest : m.request = false)
    (hconsumer : b.consumers.find m.address = some function)
    (hpending : ∀ k, b.publishers.find m.address ≠ some (.target k)) :
    Reached handlers b function m ↔ ¬ replyMark <:+: m.address ∧ Returns handlers function m ∧
      27 + m.replay.length + m.address.length + m.host.length ≤ 2048 := by
  constructor
  · rintro ⟨f, frame, rfl, heffects⟩
    have hmark : ¬ replyMark <:+: m.address := by
      intro hmark
      rw [effectsOf_mark hrequest hmark hpending] at heffects
      cases heffects
    rw [effectsOf_target hrequest hmark hconsumer] at heffects
    obtain ⟨-, hframe⟩ := List.cons.inj heffects
    cases hcall : handlers f m with
    | error e =>
      rw [hcall] at hframe
      cases hframe
    | ok m' =>
      rw [hcall] at hframe
      dsimp only at hframe
      split_ifs at hframe with hfit
      exact ⟨hmark, ⟨f, m', rfl, hcall⟩, hfit⟩
  · rintro ⟨hmark, ⟨f, m', rfl, hcall⟩, hfit⟩
    exact ⟨f, _, rfl, processConsumer_frame hrequest hmark hconsumer hcall hfit⟩

end Effects

/-- **Which registered consumers are reachable from the network.**  The function first
registered for the address of a message is called, and no other, exactly where the address
does not look like that of a reply, whatever the function does; and a frame goes to where the
message came from as well, where the function returns and the response fits the buffer. -/
theorem registered_consumer_reached_iff {handlers : Handlers} {b : EventBus}
    {registrations : List (Bytes × MsgCallback)} {function : MsgCallback} {m : ClusteredMessage}
    (hb : b.consumers = .empty)
    (hfirst : firstRegistered m.address registrations = some function)
    (hrequest : m.request = false)
    (hpending : ∀ k, b.publishers.find m.address ≠ some (.target k)) :
    (CalledOnce handlers (registerAll b registrations) function m ↔
      ¬ replyMark <:+: m.address ∧ ∃ f, function = .target f) ∧
    (Reached handlers (registerAll b registrations) function m ↔
      ¬ replyMark <:+: m.address ∧ Returns handlers function m ∧
        27 + m.replay.length + m.address.length + m.host.length ≤ 2048) := by
  have hconsumer : (registerAll b registrations).consumers.find m.address = some function := by
    rw [find_registerAll hb, hfirst]
  have hsame : (registerAll b registrations).publishers = b.publishers := by
    rw [registerAll_eq]
  rw [← hsame] at hpending
  exact ⟨calledOnce_iff hrequest hconsumer hpending, reached_iff hrequest hconsumer hpending⟩

/-- A message to `address` from the node `host`, as decoded. -/
def messageFor (address host : Bytes) : ClusteredMessage where
  messageSize := 50
  protocolVersion := 1
  systemCodecId := 9
  send := true
  address := address
  replay := bytes "__vertx.reply.7"
  port := 15701
  host := host
  headers := 4
  body := .string (bytes "book")

/-- Three registrations and a message for the address with two of them, and a message for an
address with `__vertx.reply` in it. -/
theorem registered_consumer_reached_iff_orders :
    (CalledOnce (fun _ m => .ok m)
        (registerAll (node 49) [(bytes "orders", .target (.handler 0)),
          (bytes "billing", .target (.handler 1)), (bytes "orders", .target (.handler 2))])
        (.target (.handler 0)) (messageFor (bytes "orders") (bytes "10.0.0.2")) ∧
      Reached (fun _ m => .ok m)
        (registerAll (node 49) [(bytes "orders", .target (.handler 0)),
          (bytes "billing", .target (.handler 1)), (bytes "orders", .target (.handler 2))])
        (.target (.handler 0)) (messageFor (bytes "orders") (bytes "10.0.0.2"))) ∧
    ¬ CalledOnce (fun _ m => .ok m)
      (registerAll (node 49) [(bytes "orders.__vertx.reply", .target (.handler 0))])
      (.target (.handler 0)) (messageFor (bytes "orders.__vertx.reply") (bytes "10.0.0.2")) := by
  obtain ⟨hcalled, hreached⟩ := @registered_consumer_reached_iff (fun _ m => .ok m) (node 49)
    [(bytes "orders", .target (.handler 0)), (bytes "billing", .target (.handler 1)),
      (bytes "orders", .target (.handler 2))] (.target (.handler 0))
    (messageFor (bytes "orders") (bytes "10.0.0.2")) rfl (by decide) rfl (fun k hk => by cases hk)
  obtain ⟨hreserved, -⟩ := @registered_consumer_reached_iff (fun _ m => .ok m) (node 49)
    [(bytes "orders.__vertx.reply", .target (.handler 0))] (.target (.handler 0))
    (messageFor (bytes "orders.__vertx.reply") (bytes "10.0.0.2")) rfl (by decide) rfl
    (fun k hk => by cases hk)
  refine ⟨⟨hcalled.2 ⟨by decide, _, rfl⟩, hreached.2 ⟨by decide, ⟨_, _, rfl, rfl⟩, by decide⟩⟩, ?_⟩
  intro h
  exact (hreserved.1 h).1 (by decide)

/-- A consumer that is not called because of its address. -/
theorem reserved_consumer_unreached :
    ¬ ∀ (handlers : Handlers) (b : EventBus) (registrations : List (Bytes × MsgCallback))
        (function : MsgCallback) (m : ClusteredMessage), b.consumers = .empty →
      firstRegistered m.address registrations = some function → m.request = false →
      (∀ k, b.publishers.find m.address ≠ some (.target k)) → Returns handlers function m →
      27 + m.replay.length + m.address.length + m.host.length ≤ 2048 →
      Reached handlers (registerAll b registrations) function m := by
  intro h
  have hpending (k : FuncId) : (registerAll (node 49)
      [(bytes "orders.__vertx.reply", .target (.handler 0))]).publishers.find
        (bytes "orders.__vertx.reply") ≠ some (.target k) := fun hk => by cases hk
  obtain ⟨f, frame, -, heffects⟩ := h (fun _ m => .ok m) (node 49)
    [(bytes "orders.__vertx.reply", .target (.handler 0))] (.target (.handler 0))
    (messageFor (bytes "orders.__vertx.reply") (bytes "10.0.0.2")) rfl (by decide) rfl
    (fun k hk => by cases hk) ⟨_, _, rfl, rfl⟩ (by decide)
  rw [effectsOf_mark rfl (by decide) hpending] at heffects
  cases heffects

end VertxCpp
