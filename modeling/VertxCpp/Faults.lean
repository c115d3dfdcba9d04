/-
# Where a fault comes from

A run of `processOnTcpMessage` ends in a fault where a function of the user throws, where a
frame does not fit, or where an empty `std::function` is called.  The first two come from
outside.  The third is the doing of `operator[]`, which makes an empty function of a key it does
not find; it does not happen where each lookup finds what it is for (`Ready`), and then the table
of consumers does not change either (`fromOutside_of_error`, `sameConsumers_processOnTcpMessage`).

An endpoint can be read back from its address, so what is sent to the address of a node was
meant for this node (`tcpAddress_inj`).
-/
import VertxCpp.Completion
import VertxCpp.Failure

namespace VertxCpp

open EventBus

/-! ### The address of an endpoint -/

/-- A digit, as a number. -/
theorem toNat_of_mem_toDigits {n : ℕ} {c : Char} (h : c ∈ Nat.toDigits 10 n) :
    48 ≤ c.val.toNat ∧ c.val.toNat ≤ 57 := by
  have hdigit : c.isDigit := Nat.isDigit_of_mem_toDigits (by decide) (by decide) h
  simp only [Char.isDigit, Bool.and_eq_true, decide_eq_true_eq, ge_iff_le,
    UInt32.le_iff_toNat_le] at hdigit
  exact hdigit

theorem mem_decimal {n : ℕ} {c : UInt8} (h : c ∈ decimal n) : 48 ≤ c.toNat ∧ c.toNat ≤ 57 := by
  obtain ⟨d, hd, rfl⟩ := List.mem_map.1 h
  have hdigit := toNat_of_mem_toDigits hd
  rw [UInt32.toNat_toUInt8]
  omega

theorem decimal_injective : Function.Injective decimal := by
  intro m n h
  -- a digit can be read back from its byte
  have hread (n : ℕ) : (decimal n).map (fun c => Char.ofNat c.toNat) = Nat.toDigits 10 n := by
    rw [decimal, List.map_map]
    refine (List.map_congr_left fun c hc => ?_).trans (List.map_id _)
    have hdigit := toNat_of_mem_toDigits hc
    have hbyte : c.val.toUInt8.toNat = c.toNat := by
      rw [UInt32.toNat_toUInt8]
      exact Nat.mod_eq_of_lt (by omega)
    show Char.ofNat c.val.toUInt8.toNat = c
    rw [hbyte, Char.ofNat_toNat]
  have hm := @Nat.ofDigitChars_ten_toDigits m
  rw [← hread, h, hread, Nat.ofDigitChars_ten_toDigits] at hm
  exact hm.symm

/-- No byte of a number is a colon. -/
theorem notMem_formatInt (i : Int32) : (58 : UInt8) ∉ formatInt i := by
  intro h
  have hdecimal (hmem : (58 : UInt8) ∈ decimal i.toInt.natAbs) : False := by
    have := (mem_decimal hmem).2
    simp at this
  rw [formatInt] at h
  split_ifs at h
  · rcases List.mem_append.1 h with hsign | hdigits
    · exact absurd hsign (by decide)
    · exact hdecimal hdigits
  · exact hdecimal h

theorem formatInt_injective : Function.Injective formatInt := by
  intro i j h
  have hsign (n m : ℕ) : bytes "-" ++ decimal n ≠ decimal m := by
    intro heq
    have hmem : (45 : UInt8) ∈ decimal m := heq ▸ List.mem_append_left _ (by decide)
    have := (mem_decimal hmem).1
    simp at this
  rw [formatInt, formatInt] at h
  refine Int32.toInt_inj.1 ?_
  split_ifs at h with hi hj hj
  · have := decimal_injective (List.append_cancel_left h)
    omega
  · exact absurd h (hsign _ _)
  · exact absurd h.symm (hsign _ _)
  · have := decimal_injective h
    omega

/-- **An address tells its endpoint**: the port is what stands behind the last colon. -/
theorem tcpAddress_inj {host host' : Bytes} {port port' : Int32} :
    tcpAddress host port = tcpAddress host' port' ↔ host = host' ∧ port = port' := by
  constructor
  · intro h
    have hcolon : bytes ":" = [58] := rfl
    simp only [tcpAddress, hcolon, List.append_assoc, List.singleton_append] at h
    have hnone (l : Bytes) (i j : Int32) (hl : 58 :: formatInt i = l ++ 58 :: formatInt j) :
        l = [] := by
      cases l with
      | nil => rfl
      | cons c l =>
        have hmem : (58 : UInt8) ∈ formatInt i := by
          rw [(List.cons.inj hl).2]
          simp
        exact absurd hmem (notMem_formatInt i)
    rcases List.append_eq_append_iff.1 h with ⟨l, hhost, hl⟩ | ⟨l, hhost, hl⟩
    · obtain rfl := hnone l _ _ hl
      rw [List.append_nil] at hhost
      exact ⟨hhost.symm, formatInt_injective (List.cons.inj hl).2⟩
    · obtain rfl := hnone l _ _ hl
      rw [List.append_nil] at hhost
      exact ⟨hhost, (formatInt_injective (List.cons.inj hl).2).symm⟩
  · rintro ⟨rfl, rfl⟩
    rfl

/-! ### What a run looks up -/

/-- A function is registered for the address. -/
def Offers (b : EventBus) (a : Bytes) : Prop := ∃ f, b.consumers.find a = some (.target f)

/-- What a run for the message `m` will look up on the bus is there. -/
structure Ready (b : EventBus) (m : ClusteredMessage) : Prop where
  isLocal : m.request = true → m.isLocal = true →
    (∃ f, m.func = .target f) ∧ ∃ g, m.callbackFunc = .target g
  sameNode : m.request = true → m.isLocal = false → m.host = b.options.host →
    m.port = b.options.port →
      Offers b m.replay ∧ ∃ g, b.publishers.find m.address = some (.target g)
  reply : m.request = false → replyMark <:+: m.address →
    ∃ g, b.publishers.find m.address = some (.target g)
  consumer : m.request = false → ¬ replyMark <:+: m.address → Offers b m.address

section Runs

variable {F : Type} {env : Env F} {b : EventBus} {m : ClusteredMessage} {e : Fault}
  {sends : ClusteredMessage → Prop}

instance : IsPreorder (World F) fun w w' => w'.bus.consumers = w.bus.consumers where
  refl _ := rfl
  trans _ _ _ h h' := h'.trans h

theorem consumers_callPublisher (f : MsgCallback) (x : ClusteredMessage) (key : Bytes)
    (w : World F) : (exec (callPublisher env f x key) w).2.bus.consumers = w.bus.consumers :=
  respects_callPublisher (R := fun w w' : World F => w'.bus.consumers = w.bus.consumers) env x
    (fun _ _ _ => rfl) (fun _ _ => rfl) f key w

theorem consumers_processSameNode (hoffers : Offers b m.replay) :
    (exec (processSameNode env m) ⟨b, []⟩).2.bus.consumers = b.consumers := by
  obtain ⟨f, hf⟩ := hoffers
  simp only [processSameNode, exec_bind, exec_consumersAt, Table.subscript_of_some hf,
    exec_call_target]
  cases env.handlers f m with
  | error e => rfl
  | ok m' =>
    simp only [exec_get]
    cases b.publishers.find m'.address with
    | none => rfl
    | some g => exact consumers_callPublisher _ _ _ _

theorem consumers_processConsumer (hoffers : Offers b m.address) (addr : Bytes) :
    (exec (processConsumer env m addr) ⟨b, []⟩).2.bus.consumers = b.consumers := by
  obtain ⟨f, hf⟩ := hoffers
  rw [exec_processConsumer ⟨b, []⟩ env m hf]
  cases env.handlers f m with
  | error e => rfl
  | ok m' => cases env.encode (responseMessage b.options m) <;> rfl

/-- The options and the consumers are the same. -/
structure SameConsumers (b b' : EventBus) : Prop where
  options : b'.options = b.options
  consumers : b'.consumers = b.consumers
  consumersLocal : b'.consumersLocal = b.consumersLocal

theorem SameConsumers.refl (b : EventBus) : SameConsumers b b := ⟨rfl, rfl, rfl⟩

/-- **A run that finds what it looks up** changes no table of consumers. -/
theorem sameConsumers_processOnTcpMessage (env : Env F) (hready : Ready b m) :
    SameConsumers b (exec (processOnTcpMessage env m) ⟨b, []⟩).2.bus := by
  have hloses := loses_processOnTcpMessage env m ⟨b, []⟩
  refine ⟨hloses.options, ?_, hloses.consumersLocal⟩
  rw [exec_processOnTcpMessage]
  split_ifs with hrequest hloc hnode hmark
  · rw [bus_processLocal]
  · exact consumers_processSameNode
      (hready.sameNode hrequest (by simpa using hloc) hnode.1 hnode.2).1
  · rw [bus_processOtherNode]
  · exact respects_processReply (R := fun w w' : World F => w'.bus.consumers = w.bus.consumers)
      env m (fun _ _ _ => rfl) (fun _ _ => rfl) (fun _ _ => rfl) ⟨b, []⟩
  · exact consumers_processConsumer (hready.consumer (by simpa using hrequest) hmark) _

end Runs

/-! ### The closure of a request -/

section Request

variable {F : Type} {env : Env F} {b : EventBus} {a uuid : Bytes} {v : Any} {f : FuncId}
  {next : Except Fault ServerID} {e : Fault}

/-- What the closure of a request will look up is there: where it goes to a local consumer, that
is a function; where `next` gives it to this node, there is a consumer. -/
structure ReadyFor (b : EventBus) (a : Bytes) (next : Except Fault ServerID) : Prop where
  isLocal : b.consumersLocal.find a ≠ some .empty
  sameNode : b.consumersLocal.find a = none → next = .ok ⟨b.options.port, b.options.host⟩ →
    Offers b a

theorem ready_local (hready : ReadyFor b a next) {g : MsgCallback}
    (hlocal : b.consumersLocal.find a = some g) (v : Any) (f : FuncId) :
    Ready b ((requestMessage (bytes "__vertx.reply.local") a b.options.port b.options.host
      v).setFunc g (.target f)) := by
  refine ⟨fun _ _ => ⟨?_, f, rfl⟩, fun _ h => ?_, fun h => ?_, fun h => ?_⟩
  · cases g with
    | empty => exact absurd hlocal hready.isLocal
    | target g => exact ⟨g, rfl⟩
  · exact absurd h (by simp [ClusteredMessage.setFunc])
  · exact absurd h (by simp [ClusteredMessage.setFunc, requestMessage])
  · exact absurd h (by simp [ClusteredMessage.setFunc, requestMessage])

theorem ready_registered (hready : ReadyFor b a next) (hlocal : b.consumersLocal.find a = none)
    {server : ServerID} (hnext : next = .ok server)
    (hfresh : b.publishers.find (replyAddress uuid) = none) (v : Any) (f : FuncId) :
    Ready { b with publishers := b.publishers.emplace (replyAddress uuid) (.target f) }
      (requestMessage (replyAddress uuid) a server.port server.host v) := by
  refine ⟨fun _ h => ?_, fun _ _ hhost hport => ?_, fun h => ?_, fun h => ?_⟩
  · exact absurd h (by simp [requestMessage])
  · have hserver : server = ⟨b.options.port, b.options.host⟩ := by
      cases server
      exact congrArg₂ ServerID.mk hport hhost
    refine ⟨hready.sameNode hlocal (hserver ▸ hnext), f, ?_⟩
    show (b.publishers.emplace (replyAddress uuid) (.target f)).find (replyAddress uuid) = _
    rw [Table.find_emplace, hfresh, Option.none_or, if_pos rfl]
  · exact absurd h (by simp [requestMessage])
  · exact absurd h (by simp [requestMessage])

/-- **The closure of a request that finds what it looks up** changes no table of consumers. -/
theorem sameConsumers_handleRequest (env : Env F) (hready : ReadyFor b a next)
    (hfresh : b.publishers.find (replyAddress uuid) = none) (v : Any) (f : FuncId) :
    SameConsumers b (exec (handleRequest env a v (.target f) uuid next) ⟨b, []⟩).2.bus := by
  rw [exec_handleRequest]
  cases hlocal : b.consumersLocal.find a with
  | some g => exact sameConsumers_processOnTcpMessage env (ready_local hready hlocal v f)
  | none =>
    cases hnext : next with
    | error e => exact SameConsumers.refl b
    | ok server =>
      obtain ⟨hoptions, hconsumers, hlocals⟩ := sameConsumers_processOnTcpMessage env
        (ready_registered hready hlocal hnext hfresh v f)
      exact ⟨hoptions, hconsumers, hlocals⟩

end Request

end VertxCpp
