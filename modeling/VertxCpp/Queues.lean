/-
# Queues are never empty

`next` of `src/vertx/hazelcast_cluster.cpp` takes the front of a queue and never asks
whether there is one, and nor does any other function.  There is one: `join`, `entryAdded`
and `entryRemoved` place a queue with an endpoint in it or push one on a queue that is
there, `entryRemoved` places none where `_subs->get` returns nothing, and `next` puts back
what it takes.  So in every run of whole calls no queue is empty, and the one way for `next`
to fail is a key that is absent (`queues_never_empty`).  A call does to the table what the
functions of `VertxCpp.Hazelcast` do (`call_join_constructed`, `call_entryRemoved`).
-/
import VertxCpp.Locking
import VertxCpp.Turns

namespace VertxCpp

open Machine

/-- A call of `join`, with the answer of `entrySet`, or of one of the other three. -/
inductive ClusterCall where
  | join (entrySet : List (Bytes × ClusterNodeInfo))
  | turn (t : Turn)

namespace HazelcastCluster

/-- What the constructor makes. -/
def constructed : HazelcastCluster := ⟨[], [], .empty⟩

/-- The object after a call; `join` fills the table that is there. -/
def call (hz : HazelcastCluster) : ClusterCall → HazelcastCluster
  | .join entrySet =>
    let localEndpoints :=
      entrySet.foldl (fun t entry => pushEndpoint t entry.1 entry.2.serverId) hz.localEndpoints
    { hz with localEndpoints }
  | .turn t => hz.turn t

/-- The first call of `join` makes the table of `HazelcastCluster.join`. -/
theorem call_join_constructed (nodeID : Bytes) (entrySet : List (Bytes × ClusterNodeInfo)) :
    (constructed.call (.join entrySet)).localEndpoints
      = (HazelcastCluster.join nodeID entrySet).localEndpoints := rfl

/-- `entryRemoved` changes the table by its first loop only. -/
theorem call_entryRemoved (hz : HazelcastCluster) (subs : Subs) (key : Bytes)
    (values : List ClusterNodeInfo) (own : List (Bytes × ClusterNodeInfo)) :
    hz.call (.turn (.entryRemoved key values)) = (hz.entryRemoved subs key values own).1 := rfl

/-- **One call** leaves no queue empty. -/
theorem noEmptyQueue_call {hz : HazelcastCluster} (h : NoEmptyQueue hz.localEndpoints)
    (c : ClusterCall) : NoEmptyQueue (hz.call c).localEndpoints := by
  cases c with
  | join entrySet => exact h.foldl entrySet
  | turn t =>
    cases t with
    | next address =>
      rw [call, turn]
      cases hnext : hz.next address with
      | error e => exact h
      | ok r =>
        obtain ⟨-, -, -, hne⟩ := next_spec hnext
        exact hne h
    | entryAdded key value => exact h.pushEndpoint key value.serverId
    | entryRemoved key values => exact noEmptyQueue_rebuild h key values

/-- **A run of calls.** -/
theorem noEmptyQueue_foldl {hz : HazelcastCluster} (h : NoEmptyQueue hz.localEndpoints)
    (calls : List ClusterCall) : NoEmptyQueue (calls.foldl call hz).localEndpoints := by
  induction calls generalizing hz with
  | nil => exact h
  | cons c calls ih => exact ih (noEmptyQueue_call h c)

theorem next_eq_outOfRange_iff (hz : HazelcastCluster) (a : Bytes) :
    hz.next a = .error .outOfRange ↔ hz.localEndpoints.find a = none := by
  rw [next]
  cases hz.localEndpoints.find a with
  | none => simp
  | some queue => cases queue <;> simp

/-- **Queues are never empty.**  After every run of calls of `join`, `entryAdded`,
`entryRemoved` and `next`, whatever the multimap answers, no queue in the table is empty.
So a call of `next` for a key goes through all its steps, and finds a front; it throws
`out_of_range` exactly where its address is not a key, and leaves the table as it was. -/
theorem queues_never_empty (calls : List ClusterCall) :
    NoEmptyQueue (calls.foldl call constructed).localEndpoints ∧
      ∀ hz, calls.foldl call constructed = hz → ∀ a,
        (hz.next a = .error .outOfRange ↔ hz.localEndpoints.find a = none) ∧
        (hz.localEndpoints.find a ≠ none → ∃ id hz', hz.next a = .ok (id, hz') ∧
          run LockedTable.step ⟨hz.localEndpoints, none⟩ [.lock a, .take, .turn, .store, .unlock]
            = some ⟨hz'.localEndpoints, none⟩) ∧
        (hz.next a = .error .outOfRange →
          (hz.call (.turn (.next a))).localEndpoints = hz.localEndpoints ∧
          run LockedTable.step ⟨hz.localEndpoints, none⟩ [.lock a, .take]
            = some ⟨hz.localEndpoints, none⟩) := by
  have hfull : NoEmptyQueue (calls.foldl call constructed).localEndpoints :=
    noEmptyQueue_foldl (fun a => by simp [constructed]) calls
  refine ⟨hfull, ?_⟩
  rintro hz rfl a
  refine ⟨next_eq_outOfRange_iff _ a, fun hkey => ?_, fun hthrows => ?_⟩
  · obtain ⟨queue, hqueue⟩ := Option.ne_none_iff_exists'.1 hkey
    cases queue with
    | nil => exact absurd hqueue (hfull a)
    | cons id queue =>
      obtain ⟨hz', hnext⟩ : ∃ hz', (calls.foldl call constructed).next a = .ok (id, hz') :=
        ⟨_, by rw [next, hqueue]⟩
      exact ⟨id, hz', hnext, (LockedTable.run_next hnext).2⟩
  · exact ⟨by rw [call, turn, hthrows], LockedTable.run_next_throws hthrows⟩

end HazelcastCluster

end VertxCpp
