/-
# Event loops and `_resp_mutex`

The closures of one bus run in several event loops at once.  Elsewhere in this development a
closure runs as one step; here it is cut at every access to a table that the loops share.  The
sections that take `_resp_mutex` are cut once more: taking it, each access under it, the call
of a response function, which is made with the mutex held, and what gives it back, at the end
of the section or by the exception that leaves it.

Without interruption the turns of a closure are the closure (`finish_eq`).  In between, one
loop at most is inside a section (`one_holder`).  No section waits for anything else, so while
a loop is busy one can always go on, and after eight turns of each closure all are idle
(`loops_finish`).

Registrations are no turns: they write `_consumers` and `_consumersLocal` without a mutex, so a
program has to be through with them before its loops read these tables.  A lookup in
`_consumers`, which takes no mutex either, is one whole access here.
-/
import VertxCpp.Correlation

namespace VertxCpp

open EventBus Machine

/-- A closure in an event loop, with what the world outside it answers: user code, the decoder
with the memory behind the frame, the uuid and the endpoint. -/
structure Job (F : Type) where
  task : LoopTask F
  handlers : Subtype Tame
  decode : F → ClusteredMessage
  decoded : ∀ frame, (decode frame).request = false
  uuid : Bytes
  next : Except Fault ServerID

/-- Where a loop is in a closure.  The effects are those of the closure so far; `own` tells the
section behind the consumer of this node from that of an inbound reply. -/
inductive Point (F : Type) where
  | begun
  | unlisted (m : ClusteredMessage) (func : MsgCallback)
  | listing (m : ClusteredMessage) (func : MsgCallback)
  | ready (m : ClusteredMessage)
  | waiting (m : ClusteredMessage) (own : Bool) (es : List (Effect F))
  | locked (m : ClusteredMessage) (own : Bool) (es : List (Effect F))
  | found (f : MsgCallback) (m : ClusteredMessage) (key : Bytes) (es : List (Effect F))
  | answered (key : Bytes) (es : List (Effect F))

/-- What comes of one turn of a loop: it is somewhere else in the closure, or through. -/
inductive Progress (F : Type) where
  | go (point : Point F)
  | stop (result : Except Fault Unit) (effects : List (Effect F))

/-- A closure that is through, and what came of it. -/
abbrev Ended (F : Type) := Job F × Except Fault Unit × List (Effect F)

/-- Inside a section of `_resp_mutex`. -/
def Point.holds {F : Type} : Point F → Bool
  | .listing _ _ | .locked _ _ _ | .found _ _ _ _ | .answered _ _ => true
  | _ => false

/-- The closure has taken effect, as if all of it had happened by now: what is left of it is the
call of the function of one key and the erasing of that key. -/
def Point.settled {F : Type} : Point F → Bool
  | .waiting _ own _ | .locked _ own _ => own
  | .found _ _ _ _ | .answered _ _ => true
  | _ => false

/-- A closure that is through has taken effect. -/
def Progress.settled {F : Type} : Progress F → Bool
  | .go point => point.settled
  | .stop _ _ => true

namespace Job

variable {F : Type} (encode : ClusteredMessage → Except Fault F) (job : Job F)

def env : Env F := ⟨job.handlers.1, encode⟩

/-- The closure as one piece. -/
def action : Action F Unit := job.task.run (job.env encode) job.decode job.uuid job.next

/-- What a part of the closure comes to that has one access to the tables, or none. -/
def stop (run : Except Fault Unit × World F) : EventBus × Progress F :=
  (run.2.bus, .stop run.1 run.2.effects)

/-- What a call comes to: where the closure goes on if it returns. -/
def orStop (run : Except Fault ClusteredMessage × World F)
    (point : ClusteredMessage → List (Effect F) → Point F) : EventBus × Progress F :=
  match run with
  | (.ok m, w) => (w.bus, .go (point m w.effects))
  | (.error e, w) => (w.bus, .stop (.error e) w.effects)

/-- One turn.  Waiting for the mutex is no turn; the turn from `unlisted` or `waiting` is what
takes it. -/
def advance (b : EventBus) : Point F → EventBus × Progress F
  | .begun =>
    match job.task with
    | .request address value func =>
      match b.consumersLocal.find address with
      | none =>
        match job.next with
        | .error e => (b, .stop (.error e) [])
        | .ok server =>
          (b, .go (.unlisted (requestMessage (replyAddress job.uuid) address server.port
            server.host value) func))
      | some f =>
        (b, .go (.ready ((requestMessage (bytes "__vertx.reply.local") address b.options.port
          b.options.host value).setFunc f func)))
    | .onMessage frame => (b, .go (.ready (job.decode frame)))
  | .unlisted m func => (b, .go (.listing m func))
  | .listing m func =>
    ({ b with publishers := b.publishers.emplace m.address func }, .go (.ready m))
  | .ready m =>
    if m.request then
      if m.isLocal then stop (exec (processLocal (job.env encode) m) ⟨b, []⟩)
      else if m.host = b.options.host ∧ m.port = b.options.port then
        let (f, consumers) := b.consumers.subscript m.replay .empty
        orStop (exec (call job.handlers.1 f m) ⟨{ b with consumers }, []⟩) fun m' es =>
          .waiting m' true es
      else
        stop (exec (processOtherNode (job.env encode) m (tcpAddress m.host m.port)) ⟨b, []⟩)
    else if replyMark <:+: m.address then (b, .go (.waiting m false []))
    else stop (exec (processConsumer (job.env encode) m (tcpAddress m.host m.port)) ⟨b, []⟩)
  | .waiting m own es => (b, .go (.locked m own es))
  | .locked m true es =>
    match b.publishers.find m.address with
    | none => (b, .stop (.ok ()) es)
    | some f => (b, .go (.found f (m.setBody m.reply) m.address es))
  | .locked m false es =>
    let (f, publishers) := b.publishers.subscript m.address .empty
    ({ b with publishers }, .go (.found f m m.address es))
  | .found f m key es =>
    orStop (exec (call job.handlers.1 f m) ⟨b, es⟩) fun _ es => .answered key es
  | .answered key es => ({ b with publishers := b.publishers.erase key }, .stop (.ok ()) es)

/-! ### Without interruption -/

/-- The section behind the consumer of this node. -/
def answerOwn (env : Env F) (m : ClusteredMessage) : Action F Unit := do
  match (← get).bus.publishers.find m.address with
  | none => pure ()
  | some f => callPublisher env f (m.setBody m.reply) m.address

/-- What is left of the closure. -/
def todo : Point F → Action F Unit
  | .begun => job.action encode
  | .unlisted m func | .listing m func => do
    modifyBus fun b => { b with publishers := b.publishers.emplace m.address func }
    processOnTcpMessage (job.env encode) m
  | .ready m => processOnTcpMessage (job.env encode) m
  | .waiting m true _ | .locked m true _ => answerOwn (job.env encode) m
  | .waiting m false _ | .locked m false _ => processReply (job.env encode) m
  | .found f m key _ => callPublisher (job.env encode) f m key
  | .answered key _ => modifyBus fun b => { b with publishers := b.publishers.erase key }

/-- What the closure has done. -/
def done : Point F → List (Effect F)
  | .waiting _ _ es | .locked _ _ es | .found _ _ _ es | .answered _ es => es
  | _ => []

/-- Running what is left. -/
def finish (b : EventBus) (point : Point F) : Except Fault Unit × World F :=
  exec (job.todo encode point) ⟨b, done point⟩

/-- What is left after a turn. -/
def afterTurn : EventBus × Progress F → Except Fault Unit × World F
  | (b, .go point) => job.finish encode b point
  | (b, .stop r es) => (r, ⟨b, es⟩)

/-- A call, and then the rest. -/
theorem afterTurn_orStop (run : Except Fault ClusteredMessage × World F)
    (point : ClusteredMessage → List (Effect F) → Point F) :
    job.afterTurn encode (orStop run point)
      = match run with
        | (.ok m, w) => job.finish encode w.bus (point m w.effects)
        | (.error e, w) => (.error e, w) := by
  obtain ⟨r, w⟩ := run
  cases r <;> rfl

/-- A request that `next` gave to this node, cut behind the call of the consumer. -/
theorem exec_processSameNode_cut (env : Env F) (m : ClusteredMessage) (b : EventBus) :
    exec (processSameNode env m) ⟨b, []⟩
      = match exec (call env.handlers (b.consumers.subscript m.replay .empty).1 m)
          ⟨{ b with consumers := (b.consumers.subscript m.replay .empty).2 }, []⟩ with
        | (.ok m', w) => exec (answerOwn env m') w
        | (.error e, w) => (.error e, w) := by
  simp only [processSameNode, exec_bind, exec_consumersAt]
  generalize exec (call env.handlers (b.consumers.subscript m.replay .empty).1 m) _ = run
  obtain ⟨r, w⟩ := run
  cases r with
  | error e => rfl
  | ok m' =>
    cases hfind : w.bus.publishers.find m'.address <;>
      simp only [answerOwn, exec_bind, exec_get, hfind]

/-- **A turn, and then the rest.** -/
theorem finish_eq (b : EventBus) (point : Point F) :
    job.finish encode b point = job.afterTurn encode (job.advance encode b point) := by
  cases point with
  | begun =>
    rw [finish, todo, action, advance]
    cases job.task with
    | onMessage frame => rfl
    | request address value func =>
      rw [LoopTask.run, exec_handleRequest]
      dsimp only [done]
      cases b.consumersLocal.find address with
      | some f => rfl
      | none =>
        cases job.next with
        | error e => rfl
        | ok server => rfl
  | unlisted m func => rfl
  | listing m func => rfl
  | ready m =>
    rw [finish, todo, advance, exec_processOnTcpMessage]
    split_ifs with hrequest hlocal hnode hmark
    · rfl
    · dsimp only [done]
      rw [exec_processSameNode_cut, afterTurn_orStop]
      rfl
    · rfl
    · rfl
    · rfl
  | waiting m own es => cases own <;> rfl
  | locked m own es =>
    cases own with
    | true =>
      simp only [finish, todo, advance, answerOwn, exec_bind, exec_get, done]
      cases b.publishers.find m.address <;> rfl
    | false => rfl
  | found f m key es =>
    rw [finish, todo, advance, callPublisher, exec_bind, afterTurn_orStop, env, done]
    obtain ⟨r, w⟩ := exec (call job.handlers.1 f m) ⟨b, es⟩
    cases r <;> rfl
  | answered key es => rfl

end Job

/-! ### Several loops -/

/-- The loops of a bus.  `begun`, `order` and `finished` record what has happened: the closures
that were begun, in the order in which they took effect, and those that are through. -/
structure Loops (ι F : Type) where
  bus : EventBus
  holder : Option ι
  running : ι → Option (Job F × Point F)
  begun : List (Job F)
  order : List (Job F)
  finished : List (Ended F)

/-- What can happen next: an idle loop takes a closure from its queue, or a busy one has a
turn. -/
inductive LoopStep (ι F : Type) where
  | begin (i : ι) (job : Job F)
  | turn (i : ι)

namespace Loops

variable {ι F : Type}

/-- The loops at first, on a bus where all registrations have been made. -/
def start (bus : EventBus) : Loops ι F := ⟨bus, none, fun _ => none, [], [], []⟩

/-- With this turn the closure takes effect: a reply where its function is looked up, any other
message where it is sent on its way, and a request that `next` throws for at once. -/
def takesEffect (point : Point F) (progress : Progress F) : Bool :=
  !point.settled && progress.settled

/-- The mutex is free for whoever takes it. -/
def Free (s : Loops ι F) (point point' : Point F) : Prop :=
  point'.holds = true → point.holds = true ∨ s.holder = none

instance (s : Loops ι F) (point point' : Point F) : Decidable (s.Free point point') :=
  inferInstanceAs (Decidable (_ = true → _ = true ∨ s.holder = none))

variable [DecidableEq ι]

/-- The loops after a turn of the loop `i`. -/
def afterTurn (s : Loops ι F) (i : ι) (job : Job F) (point : Point F) :
    EventBus × Progress F → Loops ι F
  | (bus, progress) =>
    let order := if takesEffect point progress then s.order ++ [job] else s.order
    let released := if point.holds then none else s.holder
    match progress with
    | .go point' =>
      { s with bus, order, holder := if point'.holds then some i else released,
               running := Function.update s.running i (some (job, point')) }
    | .stop r es =>
      { s with bus, order, holder := released, running := Function.update s.running i none,
               finished := s.finished ++ [(job, r, es)] }

def step (encode : ClusteredMessage → Except Fault F) (s : Loops ι F) :
    LoopStep ι F → Option (Loops ι F)
  | .begin i job =>
    match s.running i with
    | none => some { s with running := Function.update s.running i (some (job, .begun)),
                            begun := s.begun ++ [job] }
    | some _ => none
  | .turn i =>
    match s.running i with
    | none => none
    | some (job, point) =>
      match job.advance encode s.bus point with
      | (_, .go point') =>
        if s.Free point point' then
          some (s.afterTurn i job point (job.advance encode s.bus point))
        else none
      | (_, .stop _ _) => some (s.afterTurn i job point (job.advance encode s.bus point))

/-- What a step needs and where it leads. -/
inductive Does (encode : ClusteredMessage → Except Fault F) (s : Loops ι F) :
    LoopStep ι F → Loops ι F → Prop
  | begin (i : ι) (job : Job F) (hidle : s.running i = none) :
      Does encode s (.begin i job)
        { s with running := Function.update s.running i (some (job, .begun)),
                 begun := s.begun ++ [job] }
  | go (i : ι) (job : Job F) (point point' : Point F) (b : EventBus)
      (hrunning : s.running i = some (job, point))
      (hadvance : job.advance encode s.bus point = (b, .go point'))
      (hfree : s.Free point point') :
      Does encode s (.turn i) (s.afterTurn i job point (b, .go point'))
  | stop (i : ι) (job : Job F) (point : Point F) (b : EventBus) (r : Except Fault Unit)
      (es : List (Effect F)) (hrunning : s.running i = some (job, point))
      (hadvance : job.advance encode s.bus point = (b, .stop r es)) :
      Does encode s (.turn i) (s.afterTurn i job point (b, .stop r es))

variable {encode : ClusteredMessage → Except Fault F} {s t : Loops ι F} {label : LoopStep ι F}

theorem does_of_step (hstep : s.step encode label = some t) : Does encode s label t := by
  cases label with
  | begin i job =>
    rw [step] at hstep
    split at hstep
    · obtain rfl := Option.some.inj hstep
      exact .begin i job ‹_›
    · cases hstep
  | turn i =>
    rw [step] at hstep
    split at hstep
    · cases hstep
    · rename_i job point hrunning
      split at hstep
      · rename_i b point' hadvance
        split_ifs at hstep with hfree
        obtain rfl := Option.some.inj hstep
        rw [hadvance]
        exact .go i job point point' b hrunning hadvance hfree
      · rename_i b r es hadvance
        obtain rfl := Option.some.inj hstep
        rw [hadvance]
        exact .stop i job point b r es hrunning hadvance

/-! ### One holder -/

/-- The mutex is held by the loop that is inside a section, if one is. -/
def Guarded (s : Loops ι F) : Prop :=
  ∀ i, s.holder = some i ↔ ∃ job point, s.running i = some (job, point) ∧ point.holds = true

omit [DecidableEq ι] in
theorem guarded_start (bus : EventBus) : Guarded (start bus : Loops ι F) := by
  intro i
  simp [start]

/-- **One step.** -/
theorem Guarded.step (h : Guarded s) (hstep : s.step encode label = some t) : Guarded t := by
  intro j
  cases does_of_step hstep with
  | begin i job hidle =>
    dsimp only
    rw [h j]
    by_cases hj : j = i
    · rw [hj, Function.update_self, hidle]
      simp [Point.holds]
    · rw [Function.update_of_ne hj]
  | go i job point point' b hrunning hadvance hfree =>
    have hi : s.holder = some i ↔ point.holds = true := by
      rw [h i, hrunning]
      simp
    simp only [afterTurn]
    by_cases hj : j = i
    · rw [hj, Function.update_self]
      cases hholds : point'.holds <;> cases hheld : point.holds <;> simp [hholds, hi, hheld]
    · rw [Function.update_of_ne hj, ← h j]
      cases hholds : point'.holds with
      | true =>
        have hnot : s.holder ≠ some j := by
          rcases hfree hholds with hheld | hnone
          · rw [hi.2 hheld]
            exact fun h => hj (Option.some.inj h).symm
          · rw [hnone]
            simp
        simpa [hnot] using fun h => hj h.symm
      | false =>
        cases hheld : point.holds with
        | true =>
          rw [hi.2 hheld]
          simpa using fun h => hj h.symm
        | false => simp
  | stop i job point b r es hrunning hadvance =>
    have hi : s.holder = some i ↔ point.holds = true := by
      rw [h i, hrunning]
      simp
    simp only [afterTurn]
    by_cases hj : j = i
    · rw [hj, Function.update_self]
      cases hheld : point.holds <;> simp [hi, hheld]
    · rw [Function.update_of_ne hj, ← h j]
      cases hheld : point.holds with
      | true =>
        rw [hi.2 hheld]
        simpa using fun h => hj h.symm
      | false => simp

theorem guarded_of_run {bus : EventBus} {labels : List (LoopStep ι F)}
    (hrun : Machine.run (Loops.step encode) (start bus) labels = some s) : Guarded s :=
  run_invariant (fun _ _ _ h hstep => h.step hstep) hrun (guarded_start bus)

/-! ### Eight turns -/

end Loops

/-- The turns that are left, at most. -/
def Point.left {F : Type} : Point F → ℕ
  | .begun => 8
  | .unlisted _ _ => 7
  | .listing _ _ => 6
  | .ready _ => 5
  | .waiting _ _ _ => 4
  | .locked _ _ _ => 3
  | .found _ _ _ _ => 2
  | .answered _ _ => 1

theorem Point.left_pos {F : Type} (point : Point F) : 0 < point.left := by
  cases point <;> simp [Point.left]

namespace Job

variable {F : Type} {encode : ClusteredMessage → Except Fault F} {job : Job F}

/-- Where a call leads. -/
theorem orStop_go {run : Except Fault ClusteredMessage × World F}
    {point : ClusteredMessage → List (Effect F) → Point F} {point' : Point F}
    (h : (orStop run point).2 = .go point') : ∃ m es, point' = point m es := by
  obtain ⟨r, w⟩ := run
  cases r with
  | error e => cases h
  | ok m => exact ⟨m, w.effects, (Progress.go.inj h).symm⟩

/-- **A turn leads on.** -/
theorem left_of_advance {b : EventBus} {point point' : Point F}
    (h : (job.advance encode b point).2 = .go point') : point'.left < point.left := by
  cases point with
  | begun =>
    rw [advance] at h
    split at h
    · split at h
      · split at h
        · cases h
        · cases h
          simp [Point.left]
      · cases h
        simp [Point.left]
    · cases h
      simp [Point.left]
  | ready m =>
    rw [advance] at h
    split_ifs at h
    · cases h
    · obtain ⟨m', es, rfl⟩ := orStop_go h
      simp [Point.left]
    · cases h
    · cases h
      simp [Point.left]
    · cases h
  | locked m own es =>
    cases own with
    | true =>
      rw [advance] at h
      split at h
      · cases h
      · cases h
        simp [Point.left]
    | false =>
      cases h
      simp [Point.left]
  | found f m key es =>
    obtain ⟨m', es', rfl⟩ := orStop_go h
    simp [Point.left]
  | answered key es => cases h
  | unlisted m func | listing m func | waiting m own es =>
    cases h
    simp [Point.left]

end Job

namespace Loops

variable {ι F : Type} [DecidableEq ι] {encode : ClusteredMessage → Except Fault F}
  {s t : Loops ι F}

/-- What is left of the closure a loop runs. -/
def leftOf : Option (Job F × Point F) → ℕ
  | some (_, point) => point.left
  | none => 0

theorem leftOf_some (job : Job F) (point : Point F) : leftOf (some (job, point)) = point.left := rfl

theorem leftOf_none : leftOf (none : Option (Job F × Point F)) = 0 := rfl

/-- The turns that are left of all loops. -/
def work [Fintype ι] (s : Loops ι F) : ℕ := ∑ i, leftOf (s.running i)

/-- The turns of a run. -/
def turns : LoopStep ι F → ℕ
  | .begin _ _ => 0
  | .turn _ => 1

/-- What one loop leaves to do, in a state where only that loop is elsewhere. -/
theorem work_update [Fintype ι] (running : ι → Option (Job F × Point F)) (i : ι)
    (x : Option (Job F × Point F)) :
    ∑ j, leftOf (Function.update running i x j) + leftOf (running i)
      = ∑ j, leftOf (running j) + leftOf x := by
  have h := sum_of_one_changed (f := fun j => leftOf (running j))
    (g := fun j => leftOf (Function.update running i x j)) (i := i)
    fun j hj => by rw [Function.update_of_ne hj]
  simpa using h

/-- **A turn pays for itself**, and a closure brings eight. -/
theorem work_step [Fintype ι] {label : LoopStep ι F} (hstep : s.step encode label = some t) :
    t.work + turns label + 8 * s.begun.length ≤ s.work + 8 * t.begun.length := by
  cases does_of_step hstep with
  | begin i job hidle =>
    have h := work_update s.running i (some (job, .begun))
    rw [hidle, leftOf_some, leftOf_none, Point.left] at h
    simp only [work, turns, List.length_append, List.length_singleton]
    omega
  | go i job point point' b hrunning hadvance hfree =>
    have h := work_update s.running i (some (job, point'))
    rw [hrunning] at h
    have hless : point'.left < point.left := Job.left_of_advance (congrArg Prod.snd hadvance)
    rw [leftOf_some, leftOf_some] at h
    simp only [work, turns, afterTurn]
    omega
  | stop i job point b r es hrunning hadvance =>
    have h := work_update s.running i none
    rw [hrunning] at h
    have hpos := point.left_pos
    rw [leftOf_some, leftOf_none] at h
    simp only [work, turns, afterTurn]
    omega

/-- A turn begins no closure. -/
theorem work_lt [Fintype ι] (s : Loops ι F) (label : LoopStep ι F) (t : Loops ι F)
    (h : Guarded s) (hturn : turns label = 1) (hstep : s.step encode label = some t) :
    Guarded t ∧ t.work < s.work := by
  have hpaid := work_step hstep
  have hbegun : t.begun = s.begun := by
    cases does_of_step hstep with
    | begin i job hidle => cases hturn
    | go i job point point' b hrunning hadvance hfree => rfl
    | stop i job point b r es hrunning hadvance => rfl
  rw [hbegun, hturn] at hpaid
  exact ⟨h.step hstep, by omega⟩

/-- A loop that holds the mutex, or finds it free, has a turn. -/
theorem exists_turn (encode : ClusteredMessage → Except Fault F) {i : ι} {job : Job F}
    {point : Point F} (hrunning : s.running i = some (job, point))
    (hfree : point.holds = true ∨ s.holder = none) : ∃ t, s.step encode (.turn i) = some t := by
  rw [step, hrunning]
  dsimp only
  split
  · rename_i point' hadvance
    have hfree' : s.Free point point' := fun _ => hfree
    exact ⟨_, if_pos hfree'⟩
  · exact ⟨_, rfl⟩

/-- **No deadlock.** -/
theorem exists_step_of_busy (encode : ClusteredMessage → Except Fault F) (h : Guarded s)
    (hbusy : ¬ ∀ i, s.running i = none) :
    ∃ (label : LoopStep ι F) (t : Loops ι F), turns label = 1 ∧ s.step encode label = some t := by
  cases hholder : s.holder with
  | some j =>
    obtain ⟨job, point, hrunning, hholds⟩ := (h j).1 hholder
    obtain ⟨t, ht⟩ := exists_turn encode hrunning (Or.inl hholds)
    exact ⟨.turn j, t, rfl, ht⟩
  | none =>
    obtain ⟨i, hi⟩ := not_forall.1 hbusy
    obtain ⟨⟨job, point⟩, hrunning⟩ := Option.ne_none_iff_exists'.1 hi
    obtain ⟨t, ht⟩ := exists_turn encode hrunning (Or.inr hholder)
    exact ⟨.turn i, t, rfl, ht⟩

/-- **One loop at most is inside a section of `_resp_mutex`, and none waits for ever.**  In every
run of the loops no two are inside; the turns are at most eight for each closure; and wherever
the loops are, turns alone lead to where all are idle. -/
theorem loops_finish [Fintype ι] {bus : EventBus} {labels : List (LoopStep ι F)}
    (hrun : Machine.run (Loops.step encode) (start bus) labels = some s) :
    (∀ i j job job' point point', s.running i = some (job, point) →
      s.running j = some (job', point') → point.holds = true → point'.holds = true → i = j) ∧
    (labels.map turns).sum + s.work ≤ 8 * s.begun.length ∧
    (∀ (more : List (LoopStep ι F)) (t : Loops ι F), (∀ label ∈ more, turns label = 1) →
      Machine.run (Loops.step encode) s more = some t → more.length ≤ s.work) ∧
    ∃ (more : List (LoopStep ι F)) (t : Loops ι F), (∀ label ∈ more, turns label = 1) ∧
      Machine.run (Loops.step encode) s more = some t ∧ ∀ i, t.running i = none := by
  have h := guarded_of_run hrun
  refine ⟨fun i j job job' point point' hi hj hholds hholds' => ?_, ?_,
    fun more t hmore hmoreRun => ?_, ?_⟩
  · have hholder := (h i).2 ⟨job, point, hi, hholds⟩
    have hholder' := (h j).2 ⟨job', point', hj, hholds'⟩
    exact Option.some.inj (hholder.symm.trans hholder')
  · have hspent := spent_le (I := fun _ => True) work (fun s : Loops ι F => 8 * s.begun.length)
      turns (fun _ _ _ _ hstep => ⟨trivial, work_step hstep⟩) hrun trivial
    simp only [work, start, leftOf, Finset.sum_const_zero, List.length_nil] at hspent ⊢
    omega
  · exact le_of_add_le_left (length_le_rank work_lt h hmore hmoreRun)
  · obtain ⟨more, t, hmore, hmoreRun, -, ht⟩ := exists_run_to_rest work_lt
      (fun (s : Loops ι F) h (hbusy : ¬ ∀ i, s.running i = none) =>
        exists_step_of_busy encode h hbusy) h
    exact ⟨more, t, hmore, hmoreRun, ht⟩

/-- A node with a consumer of `orders`. -/
def ordersBus : EventBus :=
  ⟨⟨bytes "a", 1⟩, Table.empty.assign (bytes "orders") (.target (.handler 0)), .empty, .empty⟩

/-- A request to another node. -/
def ordersRequest : Job ClusteredMessage where
  task := .request (bytes "orders") .empty (.target (.response 7))
  handlers := Cluster.idle
  decode m := m.setRequest false
  decoded _ := rfl
  uuid := [1]
  next := .ok ⟨2, bytes "b"⟩

/-- A message for the consumer. -/
def ordersMessage : Job ClusteredMessage :=
  { ordersRequest with
    task := .onMessage (requestMessage (bytes "orders") [] 2 (bytes "b") .empty) }

/-- Two loops, one of them inside a section. -/
theorem loops_finish_inside :
    ∃ s, Machine.run (Loops.step .ok) (start ordersBus)
        [.begin false ordersRequest, .begin true ordersRequest, .turn false, .turn true,
          .turn false] = some s ∧
      s.holder = some false ∧
      ∃ (more : List (LoopStep Bool ClusteredMessage)) (t : Loops Bool ClusteredMessage),
        (∀ label ∈ more, turns label = 1) ∧ Machine.run (Loops.step .ok) s more = some t ∧
          ∀ i, t.running i = none := by
  have hrun : Machine.run (Loops.step .ok) (start ordersBus)
      [.begin false ordersRequest, .begin true ordersRequest, .turn false, .turn true,
        .turn false] = some _ := rfl
  exact ⟨_, hrun, rfl, (loops_finish hrun).2.2.2⟩

end Loops

end VertxCpp
