/-
# `next` under its mutex

`src/vertx/hazelcast_cluster.cpp`.  A call of `next` locks `_queue_mutex`, moves the queue
of its address out of `_local_endpoints`, turns it round in a local variable, moves it back
and unlocks; `entryRemoved` locks the same mutex, `entryAdded` does not.  So calls of `next`
wait for each other, and an `entryAdded` event can come at any moment of one.

Without interruption the five steps are `HazelcastCluster.next` (`run_next`).  An event that
comes while the queue of its key is moved out pushes its endpoint on the empty queue that
`std::move` leaves in the table, and that queue is overwritten when the other comes back.
What an address has, with the queue in hand, and what was lost so make up what it had and
what was added (`tally_run`); so nothing is lost exactly where no such event comes
(`no_update_lost_iff`).
-/
import VertxCpp.Hazelcast
import VertxCpp.Library.Machine

namespace VertxCpp

open Machine

/-- How far the call of `next` is that holds `_queue_mutex`: it has the lock; it has the
queue; it has turned it round, with the endpoint to return; it has put it back. -/
inductive NextPhase where
  | locked (address : Bytes)
  | taken (address : Bytes) (queue : List ServerID)
  | turned (address : Bytes) (queue : List ServerID) (id : ServerID)
  | stored (id : ServerID)

/-- `_local_endpoints`, and the call that holds `_queue_mutex`. -/
structure LockedTable where
  localEndpoints : LocalEndpoints
  call : Option NextPhase

/-- The steps of `next`, and an `entryAdded` event. -/
inductive LockStep where
  | lock (address : Bytes)
  | take
  | turn
  | store
  | unlock
  | entryAdded (key : Bytes) (id : ServerID)

namespace LockedTable

/-- A call that throws unlocks.  There is no step where `front()` and `pop()` would be called
on an empty queue. -/
def step (s : LockedTable) : LockStep → Option LockedTable
  | .lock address =>
    match s.call with
    | none => some { s with call := some (.locked address) }
    | some _ => none
  | .take =>
    match s.call with
    | some (.locked address) =>
      -- `std::move(_local_endpoints.at(address))`
      match s.localEndpoints.find address with
      | some queue => some ⟨s.localEndpoints.assign address [], some (.taken address queue)⟩
      | none => some { s with call := none }
    | _ => none
  | .turn =>
    match s.call with
    | some (.taken address (id :: queue)) =>
      some { s with call := some (.turned address (queue ++ [id]) id) }
    | _ => none
  | .store =>
    match s.call with
    | some (.turned address queue id) =>
      -- `_local_endpoints.at(address) = std::move(queue_)`
      match s.localEndpoints.find address with
      | some _ => some ⟨s.localEndpoints.assign address queue, some (.stored id)⟩
      | none => some { s with call := none }
    | _ => none
  | .unlock =>
    match s.call with
    | some (.stored _) => some { s with call := none }
    | _ => none
  | .entryAdded key id => some { s with localEndpoints := pushEndpoint s.localEndpoints key id }

/-- The queue that is moved out, with its address. -/
def hand (s : LockedTable) : Option (Bytes × List ServerID) :=
  match s.call with
  | some (.taken address queue) => some (address, queue)
  | some (.turned address queue _) => some (address, queue)
  | _ => none

/-- The address whose queue is moved out. -/
def inHand (s : LockedTable) : Option Bytes := s.hand.map Prod.fst

/-- No event adds to the key whose queue is moved out. -/
def Outside (s : LockedTable) : LockStep → Prop
  | .entryAdded key _ => s.inHand ≠ some key
  | _ => True

/-- What a step adds to an address. -/
def addedBy (a : Bytes) : LockStep → Multiset ServerID
  | .entryAdded key id => if key = a then {id} else 0
  | _ => 0

/-- What the events of a run add to an address. -/
def added (a : Bytes) (labels : List LockStep) : Multiset ServerID :=
  (labels.map (addedBy a)).sum

/-! ### Without interruption -/

/-- **The five steps of a call** are `HazelcastCluster.next`. -/
theorem run_next {hz hz' : HazelcastCluster} {a : Bytes} {id : ServerID}
    (h : hz.next a = .ok (id, hz')) :
    run step ⟨hz.localEndpoints, none⟩ [.lock a, .take, .turn, .store]
        = some ⟨hz'.localEndpoints, some (.stored id)⟩ ∧
      run step ⟨hz.localEndpoints, none⟩ [.lock a, .take, .turn, .store, .unlock]
        = some ⟨hz'.localEndpoints, none⟩ := by
  rw [HazelcastCluster.next] at h
  cases hfind : hz.localEndpoints.find a with
  | none => simp [hfind] at h
  | some queue =>
    cases queue with
    | nil => simp [hfind] at h
    | cons front queue =>
      simp only [hfind, Except.ok.injEq, Prod.mk.injEq] at h
      obtain ⟨rfl, rfl⟩ := h
      simp [run, step, hfind, Table.assign_assign]

/-- Where the key is absent the call throws, with the table as it was. -/
theorem run_next_throws {hz : HazelcastCluster} {a : Bytes} (h : hz.next a = .error .outOfRange) :
    run step ⟨hz.localEndpoints, none⟩ [.lock a, .take] = some ⟨hz.localEndpoints, none⟩ := by
  rw [HazelcastCluster.next] at h
  cases hfind : hz.localEndpoints.find a with
  | none => simp [run, step, hfind]
  | some queue => cases queue <;> simp [hfind] at h

/-! ### What is lost -/

/-- The endpoints of an address when the call that is going on has put back its queue. -/
def has (s : LockedTable) (a : Bytes) : Multiset ServerID :=
  match s.hand with
  | some (b, queue) => if a = b then queue else endpointsOf s.localEndpoints a
  | none => endpointsOf s.localEndpoints a

/-- What a step adds to the queue that `std::move` left behind. -/
def lostBy (s : LockedTable) (a : Bytes) : LockStep → Multiset ServerID
  | .entryAdded key id => if key = a ∧ s.inHand = some key then {id} else 0
  | _ => 0

/-- What the steps of a run lose. -/
def lost (a : Bytes) : LockedTable → List LockStep → Multiset ServerID
  | _, [] => 0
  | s, label :: labels =>
    s.lostBy a label + (s.step label).elim 0 fun t => lost a t labels

/-- The only empty queue is the one left behind by `std::move`, and no key goes away. -/
structure Inv (s : LockedTable) : Prop where
  emptyQueue : ∀ b, s.localEndpoints.find b = some [] → s.inHand = some b
  present : ∀ b, s.inHand = some b → s.localEndpoints.find b ≠ none
  queue : ∀ b queue, s.hand = some (b, queue) → queue ≠ []

section Step

variable {s t : LockedTable} {label : LockStep}

theorem hand_of_call {call : Option NextPhase} (hcall : s.call = call) :
    s.hand = LockedTable.hand ⟨s.localEndpoints, call⟩ := by
  rw [hand, hand, hcall]

/-- With no queue in hand the invariant says that no queue is empty. -/
theorem inv_of_hand_none (hhand : s.hand = none) (h : NoEmptyQueue s.localEndpoints) : Inv s := by
  have hin : s.inHand = none := by rw [inHand, hhand, Option.map_none]
  refine ⟨fun b hb => absurd hb (h b), fun b hb => ?_, fun b queue hb => ?_⟩
  · rw [hin] at hb
    cases hb
  · rw [hhand] at hb
    cases hb

theorem Inv.noEmptyQueue (h : Inv s) (hhand : s.hand = none) : NoEmptyQueue s.localEndpoints := by
  intro b hb
  have hin := h.emptyQueue b hb
  rw [inHand, hhand] at hin
  cases hin

/-- What a step needs and where it leads, with the key of the queue in hand still there. -/
inductive Does (s : LockedTable) : LockStep → LockedTable → Prop
  | lock (a : Bytes) (hcall : s.call = none) : Does s (.lock a) { s with call := some (.locked a) }
  | throws (a : Bytes) (hcall : s.call = some (.locked a))
      (hfind : s.localEndpoints.find a = none) : Does s .take { s with call := none }
  | take (a : Bytes) (queue : List ServerID) (hcall : s.call = some (.locked a))
      (hfind : s.localEndpoints.find a = some queue) :
      Does s .take ⟨s.localEndpoints.assign a [], some (.taken a queue)⟩
  | turn (a : Bytes) (id : ServerID) (queue : List ServerID)
      (hcall : s.call = some (.taken a (id :: queue))) :
      Does s .turn { s with call := some (.turned a (queue ++ [id]) id) }
  | store (a : Bytes) (queue : List ServerID) (id : ServerID)
      (hcall : s.call = some (.turned a queue id)) :
      Does s .store ⟨s.localEndpoints.assign a queue, some (.stored id)⟩
  | unlock (id : ServerID) (hcall : s.call = some (.stored id)) :
      Does s .unlock { s with call := none }
  | entryAdded (key : Bytes) (id : ServerID) :
      Does s (.entryAdded key id)
        { s with localEndpoints := pushEndpoint s.localEndpoints key id }

theorem does_of_step (h : Inv s) (hstep : s.step label = some t) : Does s label t := by
  cases label with
  | lock a =>
    rw [step] at hstep
    split at hstep
    · obtain rfl := Option.some.inj hstep
      exact .lock a ‹_›
    · cases hstep
  | take =>
    rw [step] at hstep
    split at hstep
    · rename_i a hcall
      split at hstep
      · obtain rfl := Option.some.inj hstep
        exact .take a _ hcall ‹_›
      · obtain rfl := Option.some.inj hstep
        exact .throws a hcall ‹_›
    · cases hstep
  | turn =>
    rw [step] at hstep
    split at hstep
    · obtain rfl := Option.some.inj hstep
      exact .turn _ _ _ ‹_›
    · cases hstep
  | store =>
    rw [step] at hstep
    split at hstep
    · rename_i a queue id hcall
      split at hstep
      · obtain rfl := Option.some.inj hstep
        exact .store a queue id hcall
      · exact absurd ‹_› (h.present a (by rw [inHand, hand, hcall]; rfl))
    · cases hstep
  | unlock =>
    rw [step] at hstep
    split at hstep
    · obtain rfl := Option.some.inj hstep
      exact .unlock _ ‹_›
    · cases hstep
  | entryAdded key id =>
    obtain rfl := Option.some.inj hstep
    exact .entryAdded key id

/-- A pushed endpoint leaves no queue empty that was not, and no key absent. -/
theorem find_pushEndpoint {t : LocalEndpoints} {k a : Bytes} {id : ServerID} :
    ((pushEndpoint t k id).find a = some [] → t.find a = some []) ∧
      ((pushEndpoint t k id).find a = none → t.find a = none) := by
  rw [pushEndpoint]
  cases hfind : t.find k with
  | none =>
    dsimp only
    rw [Table.emplace_of_none hfind, Table.find_assign]
    split_ifs <;> simp
  | some queue =>
    dsimp only
    rw [Table.find_assign]
    split_ifs <;> simp

/-- **One step** keeps the invariant. -/
theorem Inv.step (h : Inv s) (hstep : s.step label = some t) : Inv t := by
  cases does_of_step h hstep with
  | lock a hcall => exact inv_of_hand_none rfl (h.noEmptyQueue (hand_of_call hcall))
  | throws a hcall hfind => exact inv_of_hand_none rfl (h.noEmptyQueue (hand_of_call hcall))
  | take a queue hcall hfind =>
    have hfull := h.noEmptyQueue (hand_of_call hcall)
    refine ⟨fun b hb => ?_, fun b hb => ?_, fun b q hb => ?_⟩
    · rw [Table.find_assign] at hb
      split_ifs at hb with hba
      · rw [hba]
        rfl
      · exact absurd hb (hfull b)
    · obtain rfl : a = b := Option.some.inj hb
      simp
    · obtain ⟨rfl, rfl⟩ : a = b ∧ queue = q := by simpa [hand] using hb
      rintro rfl
      exact hfull a hfind
  | turn a id queue hcall =>
    have hhand := hand_of_call hcall
    refine ⟨fun b hb => ?_, fun b hb => h.present b ?_, fun b q hb => ?_⟩
    · have hin := h.emptyQueue b hb
      rwa [inHand, hhand] at hin
    · rwa [inHand, hhand]
    · obtain ⟨rfl, rfl⟩ : a = b ∧ queue ++ [id] = q := by simpa [hand] using hb
      simp
  | store a queue id hcall =>
    have hhand := hand_of_call hcall
    refine inv_of_hand_none rfl fun b hb => ?_
    rw [Table.find_assign] at hb
    split_ifs at hb with hba
    · exact h.queue a queue hhand (Option.some.inj hb)
    · have hin := h.emptyQueue b hb
      rw [inHand, hhand] at hin
      exact hba (Option.some.inj hin).symm
  | unlock id hcall => exact inv_of_hand_none rfl (h.noEmptyQueue (hand_of_call hcall))
  | entryAdded key id =>
    exact ⟨fun b hb => h.emptyQueue b (find_pushEndpoint.1 hb),
      fun b hb hnone => h.present b hb (find_pushEndpoint.2 hnone), h.queue⟩

theorem has_of_hand_none (hhand : s.hand = none) (a : Bytes) :
    s.has a = endpointsOf s.localEndpoints a := by
  rw [has, hhand]

theorem has_of_hand {b : Bytes} {queue : List ServerID} (hhand : s.hand = some (b, queue))
    (a : Bytes) :
    s.has a = if a = b then (queue : Multiset ServerID)
      else (endpointsOf s.localEndpoints a : Multiset ServerID) := by
  rw [has, hhand]

theorem endpointsOf_assign (t : LocalEndpoints) (b a : Bytes) (queue : List ServerID) :
    endpointsOf (t.assign b queue) a = if a = b then queue else endpointsOf t a := by
  rw [endpointsOf, Table.find_assign]
  split_ifs <;> rfl

/-- **One step** of the account. -/
theorem tally_step (h : Inv s) (hstep : s.step label = some t) (a : Bytes) :
    t.has a + s.lostBy a label = s.has a + addedBy a label := by
  cases does_of_step h hstep with
  | lock b hcall => rw [has_of_hand_none rfl, has_of_hand_none (hand_of_call hcall)]; rfl
  | throws b hcall hfind =>
    rw [has_of_hand_none rfl, has_of_hand_none (hand_of_call hcall)]
    rfl
  | take b queue hcall hfind =>
    rw [has_of_hand rfl, has_of_hand_none (hand_of_call hcall), endpointsOf_assign]
    split_ifs with hab
    · rw [hab, endpointsOf, hfind]
      rfl
    · rfl
  | turn b id queue hcall =>
    have hperm : ((queue ++ [id] : List ServerID) : Multiset ServerID) = (id :: queue : List _) :=
      Multiset.coe_eq_coe.2 (List.perm_append_singleton id queue)
    rw [has_of_hand rfl, has_of_hand (hand_of_call hcall), hperm]
    rfl
  | store b queue id hcall =>
    rw [has_of_hand_none rfl, has_of_hand (hand_of_call hcall), endpointsOf_assign]
    split_ifs <;> rfl
  | unlock id hcall => rw [has_of_hand_none rfl, has_of_hand_none (hand_of_call hcall)]; rfl
  | entryAdded key id =>
    have hpush : (endpointsOf (pushEndpoint s.localEndpoints key id) a : Multiset ServerID)
        = endpointsOf s.localEndpoints a + addedBy a (.entryAdded key id) := by
      rw [endpointsOf_pushEndpoint, ← Multiset.coe_add, addedBy]
      by_cases hkey : key = a
      · rw [if_pos hkey.symm, if_pos hkey]
        rfl
      · rw [if_neg (Ne.symm hkey), if_neg hkey]
        rfl
    cases hhand : s.hand with
    | none =>
      have hin : s.inHand = none := by rw [inHand, hhand, Option.map_none]
      have hafter : hand { s with localEndpoints := pushEndpoint s.localEndpoints key id } = none :=
        hhand
      rw [has_of_hand_none hafter, has_of_hand_none hhand, hpush, lostBy, hin]
      simp
    | some held =>
      obtain ⟨b, queue⟩ := held
      have hin : s.inHand = some b := by rw [inHand, hhand, Option.map_some]
      have hafter : hand { s with localEndpoints := pushEndpoint s.localEndpoints key id }
          = some (b, queue) := hhand
      rw [has_of_hand hafter, has_of_hand hhand, hpush, lostBy, hin]
      by_cases hab : a = b
      · -- what is pushed on the queue left behind is what is lost
        simp [hab, addedBy, eq_comm]
      · have hlost : ¬ (key = a ∧ some b = some key) := by
          rintro ⟨rfl, hb⟩
          exact hab (Option.some.inj hb).symm
        rw [if_neg hab, if_neg hab, if_neg hlost, add_zero]

/-- **The account of a run.**  What an address has at last, with the queue in hand, and what
the run has lost make up what it had and what was added. -/
theorem tally_run {labels : List LockStep} (h : Inv s) (hrun : run step s labels = some t)
    (a : Bytes) : t.has a + lost a s labels = s.has a + added a labels := by
  induction labels generalizing s with
  | nil =>
    obtain rfl := Option.some.inj hrun
    rfl
  | cons label labels ih =>
    obtain ⟨r, hr, hrt⟩ := run_cons_eq_some.1 hrun
    have hstep := tally_step h hr a
    have hrest := ih (h.step hr) hrt
    rw [lost, hr, Option.elim_some]
    calc t.has a + (s.lostBy a label + lost a r labels)
        = t.has a + lost a r labels + s.lostBy a label := by ac_rfl
      _ = r.has a + s.lostBy a label + added a labels := by rw [hrest]; ac_rfl
      _ = s.has a + added a (label :: labels) := by
        rw [hstep, added, added, List.map_cons, List.sum_cons, add_assoc]

/-- A run loses nothing exactly where its events come outside. -/
theorem lost_eq_zero_iff {labels : List LockStep} (hrun : run step s labels = some t) :
    (∀ a, lost a s labels = 0) ↔ Meets step Outside s labels := by
  induction labels generalizing s with
  | nil => simp [lost, Meets]
  | cons label labels ih =>
    obtain ⟨r, hr, hrt⟩ := run_cons_eq_some.1 hrun
    have hlabel : (∀ a, s.lostBy a label = 0) ↔ s.Outside label := by
      cases label with
      | entryAdded key id => simp [lostBy, Outside]
      | _ => simp [lostBy, Outside]
    have hrest : Meets step Outside r labels ↔
        ∀ t, s.step label = some t → Meets step Outside t labels := by
      simp [hr]
    simp only [lost, hr, Option.elim_some, add_eq_zero, forall_and, hlabel, ih hrt, hrest, Meets]

/-- **What is lost between lookup and event.**  In every run from a table without empty
queues, when no call of `next` is going on, each address has what it had and what was added
to it, exactly where no event has come for a key while its queue was moved out. -/
theorem no_update_lost_iff {table : LocalEndpoints} (htable : NoEmptyQueue table)
    {labels : List LockStep} (hrun : run step ⟨table, none⟩ labels = some s)
    (hidle : s.call = none) :
    (∀ a, (endpointsOf s.localEndpoints a : Multiset ServerID)
        = endpointsOf table a + added a labels) ↔
      Meets step Outside ⟨table, none⟩ labels := by
  rw [← lost_eq_zero_iff hrun]
  have htally (a : Bytes) : (endpointsOf s.localEndpoints a : Multiset ServerID)
      + lost a ⟨table, none⟩ labels = endpointsOf table a + added a labels := by
    have h := tally_run (inv_of_hand_none rfl htable) hrun a
    rwa [has_of_hand_none (hand_of_call hidle), has_of_hand_none rfl] at h
  refine forall_congr' fun a => ?_
  rw [← htally a]
  exact left_eq_add

end Step

/-- A table with one endpoint for `orders`. -/
def oneOrders : LocalEndpoints := Table.empty.assign (bytes "orders") [⟨15701, bytes "10.0.0.1"⟩]

theorem noEmptyQueue_oneOrders : NoEmptyQueue oneOrders := by
  intro a h
  rw [oneOrders, Table.find_assign] at h
  split_ifs at h <;> simp at h

/-- An endpoint of another address is added while the queue of `orders` is moved out. -/
theorem no_update_lost_billing :
    ∃ s, run step ⟨oneOrders, none⟩ [.lock (bytes "orders"), .take,
        .entryAdded (bytes "billing") ⟨15702, bytes "10.0.0.2"⟩, .turn, .store, .unlock] = some s ∧
      (endpointsOf s.localEndpoints (bytes "billing") : Multiset ServerID)
        = endpointsOf oneOrders (bytes "billing") + added (bytes "billing")
          [.lock (bytes "orders"), .take,
            .entryAdded (bytes "billing") ⟨15702, bytes "10.0.0.2"⟩, .turn, .store, .unlock] := by
  have hrun : run step ⟨oneOrders, none⟩ [.lock (bytes "orders"), .take,
      .entryAdded (bytes "billing") ⟨15702, bytes "10.0.0.2"⟩, .turn, .store, .unlock]
        = some _ := rfl
  refine ⟨_, hrun, (no_update_lost_iff noEmptyQueue_oneOrders hrun rfl).2 ?_ _⟩
  refine ⟨trivial, ?_⟩
  rintro _ ⟨⟩
  refine ⟨trivial, ?_⟩
  rintro _ ⟨⟩
  refine ⟨by unfold Outside; decide, ?_⟩
  rintro _ ⟨⟩
  exact ⟨trivial, fun _ _ => ⟨trivial, fun _ _ => ⟨trivial, fun _ _ => trivial⟩⟩⟩

/-- An endpoint of `orders` is added while the queue of `orders` is moved out. -/
theorem update_lost :
    ¬ ∀ (table : LocalEndpoints) (labels : List LockStep) (s : LockedTable),
      NoEmptyQueue table → run step ⟨table, none⟩ labels = some s → s.call = none →
      ∀ a, (endpointsOf s.localEndpoints a : Multiset ServerID)
        = endpointsOf table a + added a labels := by
  intro h
  have hsame := h oneOrders [.lock (bytes "orders"), .take,
    .entryAdded (bytes "orders") ⟨15702, bytes "10.0.0.2"⟩, .turn, .store, .unlock] _
    noEmptyQueue_oneOrders rfl rfl (bytes "orders")
  have hlength := congrArg Multiset.card hsame
  revert hlength
  decide

end LockedTable

end VertxCpp
