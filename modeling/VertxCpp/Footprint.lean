/-
# What a closure under way has touched

A closure of the bus works on one key of `_publishers`, the address of the reply: a request on
the one it issued, a message on the one it came in with.  Every turn stays within that key, but
for the lookup in `_consumers` (`advance_within`), and comes to the same on buses that agree
there (`advance_alike`).

So a closure splits at the turn with which it takes effect.  Before it, the closure has changed
at most the entry of its key (`listed`), and what it has done so far is what it does alone
(`AsAlone`).  Behind it, what it has left to do depends on this entry and on nothing else
(`finish_alike`).
-/
import VertxCpp.Completion
import VertxCpp.Failure
import VertxCpp.Loops

namespace VertxCpp

open EventBus Machine

namespace EventBus

variable {F : Type}

/-- A call does not look at the bus, and leaves it alone. -/
theorem exec_call_bus (handlers : Handlers) (f : MsgCallback) (m : ClusteredMessage)
    (b c : EventBus) (es : List (Effect F)) :
    exec (call handlers f m) ⟨c, es⟩
      = ((exec (call handlers f m) ⟨b, es⟩).1,
          ⟨c, (exec (call handlers f m) (⟨b, es⟩ : World F)).2.effects⟩) := by
  cases f with
  | empty => rfl
  | target f => simp only [exec_call_target]

/-- Nor does a request for a local consumer. -/
theorem exec_processLocal_bus (env : Env F) (m : ClusteredMessage) (b c : EventBus)
    (es : List (Effect F)) :
    exec (processLocal env m) ⟨c, es⟩
      = ((exec (processLocal env m) ⟨b, es⟩).1,
          ⟨c, (exec (processLocal env m) ⟨b, es⟩).2.effects⟩) := by
  simp only [processLocal, exec_bind]
  rw [exec_call_bus env.handlers m.func m b c es]
  have hbus : exec (call env.handlers m.func m) ⟨b, es⟩ = _ :=
    exec_call_bus env.handlers m.func m b b es
  generalize exec (call env.handlers m.func m) ⟨b, es⟩ = run at hbus ⊢
  obtain ⟨r, w⟩ := run
  obtain rfl : w.bus = b := congrArg (fun run => run.2.bus) hbus
  cases r with
  | error e => rfl
  | ok m' =>
    dsimp only
    rw [exec_call_bus env.handlers _ _ w.bus c w.effects]
    generalize exec (call env.handlers (m'.setBody m'.reply).callbackFunc (m'.setBody m'.reply))
      (⟨w.bus, w.effects⟩ : World F) = run'
    obtain ⟨r', w'⟩ := run'
    cases r' <;> rfl

/-- A message to the address of a consumer looks at the options and the consumers. -/
theorem exec_processConsumer_bus (env : Env F) (m : ClusteredMessage) (addr : Bytes)
    {b c : EventBus} (hoptions : c.options = b.options) (hconsumers : c.consumers = b.consumers)
    (es : List (Effect F)) :
    exec (processConsumer env m addr) ⟨c, es⟩
      = ((exec (processConsumer env m addr) ⟨b, es⟩).1,
          ⟨{ c with consumers := (b.consumers.subscript m.address .empty).2 },
            (exec (processConsumer env m addr) ⟨b, es⟩).2.effects⟩) := by
  simp only [processConsumer, exec_bind, exec_consumersAt, exec_get, hconsumers]
  generalize (b.consumers.subscript m.address .empty).1 = f
  cases f with
  | empty => rfl
  | target f =>
    simp only [exec_call_target]
    cases env.handlers f m with
    | error e => rfl
    | ok m' =>
      simp only [exec_ofExcept, hoptions]
      cases env.encode (responseMessage b.options m) <;> rfl

end EventBus

/-! ### One closure -/

/-- A bus that differs at one key of `_publishers`, and in the consumers if `settled` is set. -/
structure Within (settled : Bool) (key : Bytes) (b b' : EventBus) : Prop where
  options : b'.options = b.options
  consumersLocal : b'.consumersLocal = b.consumersLocal
  consumers : settled = true → b'.consumers = b.consumers
  publishers : ∀ k, k ≠ key → b'.publishers.find k = b.publishers.find k

/-- Two buses that a closure with this key cannot tell apart, from where it has taken effect on
if `settled` is set. -/
structure Alike (settled : Bool) (key : Bytes) (b c : EventBus) : Prop where
  options : c.options = b.options
  consumersLocal : c.consumersLocal = b.consumersLocal
  consumers : settled = false → c.consumers = b.consumers
  entry : c.publishers.find key = b.publishers.find key

section Buses

variable {settled : Bool} {key : Bytes} {b b' b'' c : EventBus}

theorem Within.refl (settled : Bool) (key : Bytes) (b : EventBus) : Within settled key b b :=
  ⟨rfl, rfl, fun _ => rfl, fun _ _ => rfl⟩

theorem Within.trans (h : Within settled key b b') (h' : Within settled key b' b'') :
    Within settled key b b'' :=
  ⟨h'.options.trans h.options, h'.consumersLocal.trans h.consumersLocal,
    fun hsettled => (h'.consumers hsettled).trans (h.consumers hsettled),
    fun k hk => (h'.publishers k hk).trans (h.publishers k hk)⟩

theorem Within.loosen (h : Within true key b b') : Within settled key b b' :=
  ⟨h.options, h.consumersLocal, fun _ => h.consumers rfl, h.publishers⟩

theorem Within.emplace (settled : Bool) (key : Bytes) (b : EventBus) (f : MsgCallback) :
    Within settled key b { b with publishers := b.publishers.emplace key f } := by
  refine ⟨rfl, rfl, fun _ => rfl, fun k hk => ?_⟩
  rw [Table.find_emplace, if_neg hk, Option.or_none]

theorem Within.subscript (settled : Bool) (key : Bytes) (b : EventBus) (f : MsgCallback) :
    Within settled key b { b with publishers := (b.publishers.subscript key f).2 } := by
  refine ⟨rfl, rfl, fun _ => rfl, fun k hk => ?_⟩
  cases hfind : b.publishers.find key with
  | some g => rw [Table.subscript_of_some hfind]
  | none => rw [Table.subscript_of_none hfind, Table.find_assign_of_ne _ _ hk]

theorem Within.erase (settled : Bool) (key : Bytes) (b : EventBus) :
    Within settled key b { b with publishers := b.publishers.erase key } :=
  ⟨rfl, rfl, fun _ => rfl, fun _ hk => Table.find_erase_of_ne _ hk⟩

theorem Alike.settle (h : Alike false key b c) : Alike settled key b c :=
  ⟨h.options, h.consumersLocal, fun _ => h.consumers rfl, h.entry⟩

theorem Alike.emplace (h : Alike settled key b c) (f : MsgCallback) :
    Alike settled key { b with publishers := b.publishers.emplace key f }
      { c with publishers := c.publishers.emplace key f } := by
  refine ⟨h.options, h.consumersLocal, h.consumers, ?_⟩
  rw [Table.find_emplace, Table.find_emplace, h.entry]

theorem Alike.consumersAt (h : Alike settled key b c) (consumers : Table Bytes MsgCallback) :
    Alike settled key { b with consumers } { c with consumers } :=
  ⟨h.options, h.consumersLocal, fun _ => rfl, h.entry⟩

theorem Alike.erase (h : Alike settled key b c) :
    Alike settled key { b with publishers := b.publishers.erase key }
      { c with publishers := c.publishers.erase key } := by
  refine ⟨h.options, h.consumersLocal, h.consumers, ?_⟩
  rw [Table.find_erase_self, Table.find_erase_self]

/-- A lookup by `operator[]` at the key finds the same. -/
theorem Alike.subscript (h : Alike settled key b c) (f : MsgCallback) :
    (c.publishers.subscript key f).1 = (b.publishers.subscript key f).1 ∧
      Alike settled key { b with publishers := (b.publishers.subscript key f).2 }
        { c with publishers := (c.publishers.subscript key f).2 } := by
  have hentry := h.entry
  cases hfind : b.publishers.find key with
  | some g =>
    rw [hfind] at hentry
    rw [Table.subscript_of_some hfind, Table.subscript_of_some hentry]
    exact ⟨rfl, h⟩
  | none =>
    rw [hfind] at hentry
    rw [Table.subscript_of_none hfind, Table.subscript_of_none hentry]
    refine ⟨rfl, h.options, h.consumersLocal, h.consumers, ?_⟩
    rw [Table.find_assign_self, Table.find_assign_self]

/-- What happens at another key, a closure that has taken effect cannot tell. -/
theorem Within.alike {key' : Bytes} (h : Within settled key b b') (hkey : key' ≠ key) :
    Alike true key' b b' :=
  ⟨h.options, h.consumersLocal, fun h => (by cases h), h.publishers key' hkey⟩

end Buses

namespace Job

variable {F : Type}

/-- The key of `_publishers` that a closure is about: the address of the reply. -/
def key (job : Job F) : Bytes :=
  match job.task with
  | .request _ _ _ => replyAddress job.uuid
  | .onMessage frame => (job.decode frame).address

/-- The closure of `request`. -/
def asks (job : Job F) : Bool :=
  match job.task with
  | .request _ _ _ => true
  | .onMessage _ => false

/-- The response function of a request. -/
def func (job : Job F) : MsgCallback :=
  match job.task with
  | .request _ _ func => func
  | .onMessage _ => .empty

/-- What the loop that runs a closure has in hand. -/
def InHand (job : Job F) : Point F → Prop
  | .begun => True
  | .unlisted m func | .listing m func =>
    job.asks = true ∧ m.request = true ∧ m.isLocal = false ∧ m.address = job.key ∧ func = job.func
  | .ready m =>
    m.request = job.asks ∧ (m.request = true → m.isLocal = false → m.address = job.key) ∧
      (m.request = false → m.address = job.key)
  | .waiting m own _ | .locked m own _ =>
    own = job.asks ∧ m.address = job.key ∧ replyMark <:+: job.key
  | .found _ _ key _ | .answered key _ => key = job.key ∧ replyMark <:+: job.key

/-- What a closure that has not taken effect has changed: a request for another node, or for a
consumer of this one, is in `_publishers` by then. -/
def listed (job : Job F) (b : EventBus) : Point F → EventBus
  | .ready m =>
    if m.request = true ∧ m.isLocal = false then
      { b with publishers := b.publishers.emplace job.key job.func }
    else b
  | _ => b

variable {encode : ClusteredMessage → Except Fault F} {job : Job F} {point point' : Point F}
  {b b' c : EventBus}

/-- A message that comes in is no request. -/
theorem asks_of_message {frame : F} (h : job.task = .onMessage frame) : job.asks = false := by
  rw [asks, h]

theorem asks_of_request {address : Bytes} {value : Any} {func : MsgCallback}
    (h : job.task = .request address value func) : job.asks = true := by
  rw [asks, h]

/-- A call leads where the loop goes on with the message that the call returns. -/
theorem orStop_call {handlers : Handlers} {f : MsgCallback} {m : ClusteredMessage}
    {es : List (Effect F)} {point : ClusteredMessage → List (Effect F) → Point F}
    (h : (orStop (exec (call handlers f m) ⟨b, es⟩) point).2 = .go point') :
    ∃ g m' es', handlers g m = .ok m' ∧ point' = point m' es' := by
  cases f with
  | empty => cases h
  | target g =>
    rw [exec_call_target] at h
    cases hcall : handlers g m with
    | error e =>
      rw [hcall] at h
      cases h
    | ok m' =>
      rw [hcall] at h
      exact ⟨g, m', _, hcall, (Progress.go.inj h).symm⟩

/-- Nor does it depend on the bus whether the closure goes on. -/
theorem orStop_call_bus (handlers : Handlers) (f : MsgCallback) (m : ClusteredMessage)
    (b c : EventBus) (es : List (Effect F))
    (point : ClusteredMessage → List (Effect F) → Point F) :
    orStop (exec (call handlers f m) ⟨c, es⟩) point
      = (c, (orStop (exec (call handlers f m) ⟨b, es⟩) point).2) := by
  rw [exec_call_bus handlers f m b c]
  generalize exec (call handlers f m) (⟨b, es⟩ : World F) = run
  obtain ⟨r, w⟩ := run
  cases r <;> rfl

/-- **What is in hand** after a turn. -/
theorem InHand.advance (hin : job.InHand point)
    (h : (job.advance encode b point).2 = .go point') : job.InHand point' := by
  cases point with
  | begun =>
    rw [Job.advance] at h
    cases htask : job.task with
    | onMessage frame =>
      rw [htask] at h
      obtain rfl := Progress.go.inj h
      have hasks := asks_of_message htask
      have hkey : job.key = (job.decode frame).address := by rw [key, htask]
      exact ⟨by rw [hasks]; exact job.decoded frame,
        fun hrequest => absurd hrequest (by rw [job.decoded frame]; simp), fun _ => hkey.symm⟩
    | request address value func =>
      rw [htask] at h
      have hasks := asks_of_request htask
      dsimp only at h
      split at h
      · split at h
        · cases h
        · obtain rfl := Progress.go.inj h
          exact ⟨hasks, rfl, rfl, by rw [key, htask]; rfl, by rw [Job.func, htask]⟩
      · obtain rfl := Progress.go.inj h
        refine ⟨hasks.symm, fun _ hlocal => ?_, fun hrequest => ?_⟩
        · cases hlocal
        · cases hrequest
  | unlisted m func =>
    obtain rfl := Progress.go.inj h
    exact hin
  | listing m func =>
    obtain rfl := Progress.go.inj h
    obtain ⟨hasks, hrequest, -, hkey, -⟩ := hin
    exact ⟨hrequest.trans hasks.symm, fun _ _ => hkey, fun _ => hkey⟩
  | ready m =>
    obtain ⟨hasks, hown, hkey⟩ := hin
    rw [Job.advance] at h
    split_ifs at h with hrequest hlocal hnode hmark
    · cases h
    · obtain ⟨g, m', es, hcall, rfl⟩ := orStop_call h
      have haddress : m'.address = job.key := by
        rw [job.handlers.2.address g m m' hcall]
        exact hown hrequest (by simpa using hlocal)
      refine ⟨hrequest.symm.trans hasks, haddress, ?_⟩
      have htask : job.asks = true := hasks ▸ hrequest
      rw [asks] at htask
      split at htask
      · rename_i htask'
        rw [key, htask']
        exact replyMark_infix job.uuid
      · cases htask
    · cases h
    · obtain rfl := Progress.go.inj h
      have hno : m.request = false := by simpa using hrequest
      exact ⟨hno.symm.trans hasks, hkey hno, hkey hno ▸ hmark⟩
    · cases h
  | waiting m own es =>
    obtain rfl := Progress.go.inj h
    exact hin
  | locked m own es =>
    obtain ⟨hasks, hkey, hmark⟩ := hin
    cases own with
    | true =>
      rw [Job.advance] at h
      split at h
      · cases h
      · obtain rfl := Progress.go.inj h
        exact ⟨hkey, hmark⟩
    | false =>
      obtain rfl := Progress.go.inj h
      exact ⟨hkey, hmark⟩
  | found f m key es =>
    obtain ⟨m', es', rfl⟩ := orStop_go h
    exact hin
  | answered key es => cases h

variable (encode) in
/-- **A turn stays within its key.** -/
theorem advance_within (hin : job.InHand point) :
    Within point.settled job.key b (job.advance encode b point).1 := by
  cases point with
  | begun =>
    rw [advance]
    split
    · split
      · split <;> exact .refl _ _ _
      · exact .refl _ _ _
    · exact .refl _ _ _
  | unlisted m func | waiting m own es => exact .refl _ _ _
  | listing m func =>
    rw [advance, hin.2.2.2.1]
    exact .emplace _ _ _ _
  | ready m =>
    rw [advance]
    split_ifs
    · rw [stop, bus_processLocal]
      exact .refl _ _ _
    · dsimp only
      rw [orStop_call_bus _ _ _ b]
      exact ⟨rfl, rfl, fun h => (by cases h), fun _ _ => rfl⟩
    · rw [stop, bus_processOtherNode]
      exact .refl _ _ _
    · exact .refl _ _ _
    · rw [stop, exec_processConsumer_bus (b := b) _ _ _ rfl rfl]
      exact ⟨rfl, rfl, fun h => (by cases h), fun _ _ => rfl⟩
  | locked m own es =>
    cases own with
    | true =>
      rw [advance]
      split <;> exact .refl _ _ _
    | false =>
      rw [advance, hin.2.1]
      exact .subscript _ _ _ _
  | found f m key es =>
    rw [advance, orStop_call_bus _ _ _ b]
    exact .refl _ _ _
  | answered key es =>
    rw [advance, hin.1]
    exact .erase _ _ _

variable (encode) in
/-- **A turn comes to the same** on buses that the closure cannot tell apart. -/
theorem advance_alike (hin : job.InHand point) (h : Alike point.settled job.key b c) :
    (job.advance encode c point).2 = (job.advance encode b point).2 ∧
      Alike point.settled job.key (job.advance encode b point).1
        (job.advance encode c point).1 := by
  cases point with
  | begun =>
    rw [advance, advance]
    split
    · rw [h.consumersLocal, h.options]
      split
      · split <;> exact ⟨rfl, h⟩
      · exact ⟨rfl, h⟩
    · exact ⟨rfl, h⟩
  | unlisted m func | waiting m own es => exact ⟨rfl, h⟩
  | listing m func =>
    rw [advance, advance, hin.2.2.2.1]
    exact ⟨rfl, h.emplace func⟩
  | ready m =>
    rw [advance, advance, h.options, h.consumers rfl]
    split_ifs
    · rw [stop, stop, exec_processLocal_bus _ _ b c]
      exact ⟨rfl, by rwa [bus_processLocal]⟩
    · dsimp only
      rw [orStop_call_bus _ _ _ b, orStop_call_bus _ _ _ b
        { b with consumers := (b.consumers.subscript m.replay .empty).2 }]
      exact ⟨rfl, rfl, h.consumersLocal, fun _ => rfl, h.entry⟩
    · rw [stop, stop, bus_processOtherNode, bus_processOtherNode, exec_processOtherNode,
        exec_processOtherNode]
      dsimp only
      rw [h.options]
      refine ⟨?_, h⟩
      cases (job.env encode).encode (outgoing b.options m) <;> rfl
    · exact ⟨rfl, h⟩
    · rw [stop, stop, exec_processConsumer_bus _ _ _ h.options (h.consumers rfl),
        exec_processConsumer_bus (b := b) (c := b) _ _ _ rfl rfl]
      exact ⟨rfl, h.consumersAt _⟩
  | locked m own es =>
    cases own with
    | true =>
      rw [advance, advance, hin.2.1, h.entry]
      split <;> exact ⟨rfl, h⟩
    | false =>
      obtain ⟨hfunc, halike⟩ := h.subscript .empty
      rw [advance, advance, hin.2.1]
      dsimp only
      rw [hfunc]
      exact ⟨rfl, halike⟩
  | found f m key es =>
    rw [advance, advance, orStop_call_bus _ _ _ b b, orStop_call_bus _ _ _ b c]
    exact ⟨rfl, h⟩
  | answered key es =>
    rw [advance, advance, hin.1]
    exact ⟨rfl, h.erase⟩

/-- A closure that has taken effect does not take it back. -/
theorem settled_of_advance (hsettled : point.settled = true)
    (h : (job.advance encode b point).2 = .go point') : point'.settled = true := by
  cases point with
  | begun | unlisted m func | listing m func | ready m => cases hsettled
  | waiting m own es =>
    obtain rfl := Progress.go.inj h
    exact hsettled
  | locked m own es =>
    obtain rfl : own = true := hsettled
    rw [advance] at h
    split at h
    · cases h
    · obtain rfl := Progress.go.inj h
      rfl
  | found f m key es =>
    obtain ⟨m', es', rfl⟩ := orStop_go h
    rfl
  | answered key es => cases h

variable (encode) in
/-- **What is left stays within the key.** -/
theorem finish_within (hin : job.InHand point) :
    Within point.settled job.key b (job.finish encode b point).2.bus := by
  induction hleft : point.left using Nat.strong_induction_on generalizing b point with
  | h n ih =>
    have hturn := advance_within encode (b := b) hin
    rw [finish_eq]
    cases hadvance : job.advance encode b point with
    | mk b' progress =>
      rw [hadvance] at hturn
      cases progress with
      | stop r es => exact hturn
      | go point' =>
        have hgo : (job.advance encode b point).2 = .go point' := congrArg Prod.snd hadvance
        have hrest := ih point'.left (hleft ▸ left_of_advance hgo) (b := b') (hin.advance hgo) rfl
        refine hturn.trans ?_
        cases hsettled : point.settled with
        | true => rwa [settled_of_advance hsettled hgo] at hrest
        | false =>
          exact ⟨hrest.options, hrest.consumersLocal, fun h => (by cases h), hrest.publishers⟩

variable (encode) in
/-- **What is left comes to the same** on buses that the closure cannot tell apart. -/
theorem finish_alike (hin : job.InHand point) (h : Alike point.settled job.key b c) :
    (job.finish encode c point).1 = (job.finish encode b point).1 ∧
      (job.finish encode c point).2.effects = (job.finish encode b point).2.effects ∧
      Alike point.settled job.key (job.finish encode b point).2.bus
        (job.finish encode c point).2.bus := by
  induction hleft : point.left using Nat.strong_induction_on generalizing b c point with
  | h n ih =>
    obtain ⟨hprogress, hturn⟩ := advance_alike encode hin h
    rw [finish_eq, finish_eq]
    cases hb : job.advance encode b point with
    | mk b' progress =>
    cases hc : job.advance encode c point with
    | mk c' progress' =>
      rw [hb, hc] at hprogress hturn
      obtain rfl : progress' = progress := hprogress
      cases progress' with
      | stop r es => exact ⟨rfl, rfl, hturn⟩
      | go point' =>
        have hgo : (job.advance encode b point).2 = .go point' := congrArg Prod.snd hb
        have hin' := hin.advance hgo
        have hless := hleft ▸ left_of_advance hgo
        cases hsettled : point.settled with
        | true =>
          have hsettled' := settled_of_advance hsettled hgo
          have hrest := ih point'.left hless hin' (hsettled' ▸ hsettled ▸ hturn) rfl
          rwa [hsettled'] at hrest
        | false =>
          rw [hsettled] at hturn
          obtain ⟨hresult, heffects, hrest⟩ := ih point'.left hless hin' hturn.settle rfl
          refine ⟨hresult, heffects, hrest.options, hrest.consumersLocal, fun _ => ?_, hrest.entry⟩
          cases hsettled' : point'.settled with
          | false => exact hrest.consumers hsettled'
          | true =>
            -- a closure that has taken effect is through with the consumers
            have hb' := finish_within encode (b := b') hin'
            have hc' := finish_within encode (b := c') hin'
            rw [afterTurn, afterTurn, hc'.consumers hsettled', hb'.consumers hsettled']
            exact hturn.consumers rfl

theorem listed_within (settled : Bool) (job : Job F) (b : EventBus) (point : Point F) :
    Within settled job.key b (job.listed b point) := by
  cases point with
  | ready m =>
    rw [listed]
    split_ifs
    · exact .emplace _ _ _ _
    · exact .refl _ _ _
  | begun | unlisted m func | listing m func | waiting m own es | locked m own es
  | found f m key es | answered key es => exact .refl _ _ _

/-- A message that comes in is not listed. -/
theorem listed_of_not_asks (hin : job.InHand point) (hasks : job.asks = false) (b : EventBus) :
    job.listed b point = b := by
  cases point with
  | ready m =>
    rw [listed, hin.1, hasks]
    simp
  | begun | unlisted m func | listing m func | waiting m own es | locked m own es
  | found f m key es | answered key es => rfl

theorem listed_alike {settled : Bool} (h : Alike settled job.key b c) (point : Point F) :
    (job.listed c point).publishers.find job.key
      = (job.listed b point).publishers.find job.key := by
  cases point with
  | ready m =>
    rw [listed, listed]
    split_ifs
    · exact (h.emplace job.func).entry
    · exact h.entry
  | begun | unlisted m func | listing m func | waiting m own es | locked m own es
  | found f m key es | answered key es => exact h.entry

/-- **Before it takes effect**, a closure goes the same way on every bus with these options and
local consumers, and leaves the same change behind. -/
theorem advance_listed (hin : job.InHand point) (hoptions : c.options = b.options)
    (hlocal : c.consumersLocal = b.consumersLocal)
    (hgo : (job.advance encode b point).2 = .go point') (hsettled : point'.settled = false) :
    job.advance encode (job.listed c point) point = (job.listed c point', .go point') := by
  cases point with
  | begun =>
    change job.advance encode c .begun = _
    rw [advance] at hgo ⊢
    rw [hoptions, hlocal]
    cases htask : job.task with
    | onMessage frame =>
      rw [htask] at hgo
      obtain rfl := Progress.go.inj hgo
      rw [listed, job.decoded, if_neg (by simp)]
    | request address value func =>
      rw [htask] at hgo
      dsimp only at hgo ⊢
      cases hfind : b.consumersLocal.find address with
      | none =>
        rw [hfind] at hgo
        cases hnext : job.next with
        | error e =>
          rw [hnext] at hgo
          cases hgo
        | ok server =>
          rw [hnext] at hgo
          obtain rfl := Progress.go.inj hgo
          rfl
      | some f =>
        rw [hfind] at hgo
        obtain rfl := Progress.go.inj hgo
        rfl
  | unlisted m func =>
    obtain rfl := Progress.go.inj hgo
    rfl
  | listing m func =>
    obtain rfl := Progress.go.inj hgo
    obtain ⟨-, hrequest, hother, hkey, rfl⟩ := hin
    change job.advance encode c (.listing m job.func) = _
    rw [advance, listed, if_pos ⟨hrequest, hother⟩, hkey]
  | ready m =>
    rw [advance] at hgo
    split_ifs at hgo with hrequest hlocal' hnode hmark
    · cases hgo
    · obtain ⟨m', es, rfl⟩ := orStop_go hgo
      cases hsettled
    · cases hgo
    · obtain rfl := Progress.go.inj hgo
      rw [advance, if_neg hrequest, if_pos hmark, listed, if_neg (by simp [hrequest])]
      rfl
    · cases hgo
  | waiting m own es =>
    obtain rfl := Progress.go.inj hgo
    rfl
  | locked m own es =>
    cases own with
    | true =>
      rw [advance] at hgo
      split at hgo
      · cases hgo
      · obtain rfl := Progress.go.inj hgo
        cases hsettled
    | false =>
      obtain rfl := Progress.go.inj hgo
      cases hsettled
  | found f m key es =>
    obtain ⟨m', es', rfl⟩ := orStop_go hgo
    cases hsettled
  | answered key es => cases hgo

/-- Before it takes effect, a closure changes no consumers, and a message that comes in changes
nothing. -/
theorem advance_quiet (hin : job.InHand point)
    (hgo : (job.advance encode b point).2 = .go point') (hsettled : point'.settled = false) :
    (job.advance encode b point).1.consumers = b.consumers ∧
      (job.asks = false → (job.advance encode b point).1 = b) := by
  have hlisted := advance_listed hin rfl rfl hgo hsettled
  have hself : job.listed b point = b := by
    cases hasks : job.asks with
    | false => exact listed_of_not_asks hin hasks b
    | true =>
      cases point with
      | ready m =>
        rw [advance, hin.1.trans hasks, if_pos rfl] at hgo
        split_ifs at hgo
        · cases hgo
        · obtain ⟨m', es, rfl⟩ := orStop_go hgo
          cases hsettled
        · cases hgo
      | begun | unlisted m func | listing m func | waiting m own es | locked m own es
      | found f m key es | answered key es => rfl
  rw [hself] at hlisted
  rw [hlisted]
  refine ⟨(listed_within true job b point').consumers rfl, fun hasks => ?_⟩
  exact listed_of_not_asks (hin.advance hgo) hasks b

/-- A reply that has taken effect holds `_resp_mutex`. -/
theorem holds_of_settled (hin : job.InHand point) (hsettled : point.settled = true)
    (hasks : job.asks = false) : point.holds = true ∧ replyMark <:+: job.key := by
  cases point with
  | begun | unlisted m func | listing m func | ready m => cases hsettled
  | waiting m own es | locked m own es =>
    obtain rfl : own = true := hsettled
    rw [← hin.1] at hasks
    cases hasks
  | found f m key es | answered key es => exact ⟨rfl, hin.2⟩

/-- A message that comes in takes effect with the mutex held, or it is not a reply. -/
theorem holds_of_effect (hin : job.InHand point) (hsettled : point.settled = false)
    (hasks : job.asks = false) (heffect : (job.advance encode b point).2.settled = true) :
    point.holds = true ∨ ¬ replyMark <:+: job.key := by
  cases point with
  | begun =>
    rw [advance] at heffect
    rw [asks] at hasks
    split at hasks
    · cases hasks
    · rename_i frame htask
      rw [htask] at heffect
      cases heffect
  | unlisted m func | listing m func =>
    rw [hin.1] at hasks
    cases hasks
  | ready m =>
    obtain ⟨hrequest, -, hkey⟩ := hin
    rw [hasks] at hrequest
    rw [advance, hrequest, if_neg (by simp)] at heffect
    split_ifs at heffect with hmark
    · cases heffect
    · exact Or.inr (hkey hrequest ▸ hmark)
  | waiting m own es =>
    have hown : own = true := heffect
    rw [← hin.1, hown] at hasks
    cases hasks
  | locked m own es => exact Or.inl rfl
  | found f m key es | answered key es => cases hsettled

/-- What a closure has done so far is what it does alone, on every bus with the options and the
local consumers of `b₀`. -/
def AsAlone (encode : ClusteredMessage → Except Fault F) (job : Job F) (b₀ : EventBus)
    (point : Point F) : Prop :=
  ∀ c, c.options = b₀.options → c.consumersLocal = b₀.consumersLocal →
    exec (job.action encode) ⟨c, []⟩ = job.finish encode (job.listed c point) point

theorem asAlone_begun (job : Job F) (b₀ : EventBus) : job.AsAlone encode b₀ .begun :=
  fun _ _ _ => rfl

theorem AsAlone.advance {b₀ : EventBus} (h : job.AsAlone encode b₀ point)
    (hin : job.InHand point) (hoptions : b.options = b₀.options)
    (hlocal : b.consumersLocal = b₀.consumersLocal)
    (hgo : (job.advance encode b point).2 = .go point') (hsettled : point'.settled = false) :
    job.AsAlone encode b₀ point' := by
  intro c hc hc'
  rw [h c hc hc', finish_eq,
    advance_listed hin (hc.trans hoptions.symm) (hc'.trans hlocal.symm) hgo hsettled]
  rfl

end Job

end VertxCpp
