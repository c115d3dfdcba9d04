/-
# `hazelcast_cluster`

`src/vertx/hazelcast_cluster.h` and `.cpp`: one node's view of the cluster's
`__vertx.subs` multimap.  `_local_endpoints` holds for each address the endpoints
of its consumers as a queue that `next` turns round; `_local_subs` what this node
has registered itself.

The multimap belongs to Hazelcast and is passed in and out.  A put that changes it
makes Hazelcast send an event to every listener, so functions that put return the
events beside the multimap.  Collections come back from `get` and `entrySet` in
an order of Hazelcast's, an `unordered_multimap` is iterated in an order of its
own: the functions take the list in the order it is iterated.
-/
import VertxCpp.Library.SetMultimap
import VertxCpp.Library.Table
import VertxCpp.Message

namespace VertxCpp

/-- `ClusterNodeInfo`, a value of the multimap. -/
structure ClusterNodeInfo where
  nodeId : Bytes
  serverId : ServerID
  deriving DecidableEq, Repr

/-- `_subs`, the multimap `__vertx.subs`. -/
abbrev Subs := SetMultimap Bytes ClusterNodeInfo

/-- `EntryEvent`, under the function of the listener that it is passed to. -/
inductive EntryEvent where
  | added (key : Bytes) (value : ClusterNodeInfo)
  | removed (key : Bytes) (value : ClusterNodeInfo)
  deriving DecidableEq, Repr

/-- `_local_endpoints`, the front of each queue first. -/
abbrev LocalEndpoints := Table Bytes (List ServerID)

/-- `hazelcast_cluster`. -/
structure HazelcastCluster where
  nodeID : Bytes
  localSubs : List (Bytes × ClusterNodeInfo)
  localEndpoints : LocalEndpoints

/-- The fragment that `join`, `entryAdded` and `entryRemoved` share: a queue of one
endpoint is placed at an absent key, and an endpoint pushed on the queue of a
present one. -/
def pushEndpoint (endpoints : LocalEndpoints) (key : Bytes) (id : ServerID) : LocalEndpoints :=
  match endpoints.find key with
  | none => endpoints.emplace key [id]
  | some queue => endpoints.assign key (queue ++ [id])

/-- `_subs->put(key, value)`, with the events sent for it. -/
def putSub (subs : Subs) (key : Bytes) (value : ClusterNodeInfo) : Subs × List EntryEvent :=
  let (subs, changed) := subs.put key value
  (subs, if changed then [.added key value] else [])

/-- A removal of one value by any node, with the events sent for it. -/
def removeSub (subs : Subs) (key : Bytes) (value : ClusterNodeInfo) : Subs × List EntryEvent :=
  let (subs, changed) := subs.remove key value
  (subs, if changed then [.removed key value] else [])

theorem putSub_of_mem {subs : Subs} {key : Bytes} {value : ClusterNodeInfo}
    (h : value ∈ subs.get key) : putSub subs key value = (subs, []) := by
  simp [putSub, subs.put_of_mem key value h]

theorem removeSub_of_notMem {subs : Subs} {key : Bytes} {value : ClusterNodeInfo}
    (h : value ∉ subs.get key) : removeSub subs key value = (subs, []) := by
  simp [removeSub, subs.remove_of_notMem key value h]

namespace HazelcastCluster

/-- `join`, as far as the multimap goes: the table filled from a snapshot. -/
def join (nodeID : Bytes) (entrySet : List (Bytes × ClusterNodeInfo)) : HazelcastCluster where
  nodeID := nodeID
  localSubs := []
  localEndpoints := entrySet.foldl (fun t entry => pushEndpoint t entry.1 entry.2.serverId) .empty

/-- `addSub(address, port, host)`. -/
def addSub (hz : HazelcastCluster) (subs : Subs) (address : Bytes) (port : Int32) (host : Bytes) :
    HazelcastCluster × Subs × List EntryEvent :=
  let node : ClusterNodeInfo := ⟨hz.nodeID, ⟨port, host⟩⟩
  let (subs, events) := putSub subs address node
  ({ hz with localSubs := hz.localSubs ++ [(address, node)] }, subs, events)

/-- `entryAdded(event)`, for an event with this key and value. -/
def entryAdded (hz : HazelcastCluster) (key : Bytes) (value : ClusterNodeInfo) :
    HazelcastCluster :=
  { hz with localEndpoints := pushEndpoint hz.localEndpoints key value.serverId }

/-- `next(address)`: the front of the queue moves to its back. -/
def next (hz : HazelcastCluster) (address : Bytes) :
    Except Fault (ServerID × HazelcastCluster) :=
  match hz.localEndpoints.find address with
  | none => .error .outOfRange
  | some [] => .error .emptyQueue
  | some (id :: queue) =>
    .ok (id, { hz with localEndpoints := hz.localEndpoints.assign address (queue ++ [id]) })

/-- The first loop of `entryRemoved`, over what `_subs->get(key)` returned. -/
def rebuild (hz : HazelcastCluster) (key : Bytes) (values : List ClusterNodeInfo) :
    HazelcastCluster :=
  let erased := hz.localEndpoints.erase key
  let localEndpoints :=
    values.foldl (fun t valueNode => pushEndpoint t key valueNode.serverId) erased
  { hz with localEndpoints }

end HazelcastCluster

/-- The second loop of `entryRemoved`, over `_local_subs`. -/
def reput (subs : Subs) : List (Bytes × ClusterNodeInfo) → Subs × List EntryEvent
  | [] => (subs, [])
  | (key, value) :: rest =>
    let (subs, events) := putSub subs key value
    let (subs, more) := reput subs rest
    (subs, events ++ more)

/-- `entryRemoved(event)`, for an event with this key; the value of the event is
not looked at.  `values` is what `_subs->get` returns, `own` is `_local_subs` in
the order it is iterated. -/
def HazelcastCluster.entryRemoved (hz : HazelcastCluster) (subs : Subs) (key : Bytes)
    (values : List ClusterNodeInfo) (own : List (Bytes × ClusterNodeInfo)) :
    HazelcastCluster × Subs × List EntryEvent :=
  let (subs, events) := reput subs own
  (hz.rebuild key values, subs, events)

/-! ### The queue of an address -/

/-- The endpoints of an address, none where the key is absent. -/
def endpointsOf (t : LocalEndpoints) (a : Bytes) : List ServerID := (t.find a).getD []

/-- No queue is empty. -/
def NoEmptyQueue (t : LocalEndpoints) : Prop := ∀ a, t.find a ≠ some []

theorem NoEmptyQueue.find_eq_none_iff {t : LocalEndpoints} (h : NoEmptyQueue t) (a : Bytes) :
    t.find a = none ↔ endpointsOf t a = [] := by
  rw [endpointsOf]
  cases hfind : t.find a with
  | none => simp
  | some queue =>
    have hne : queue ≠ [] := fun he => h a (by rw [hfind, he])
    simp [hne]

theorem endpointsOf_pushEndpoint (t : LocalEndpoints) (k a : Bytes) (id : ServerID) :
    endpointsOf (pushEndpoint t k id) a = endpointsOf t a ++ if a = k then [id] else [] := by
  rw [endpointsOf, endpointsOf, pushEndpoint]
  cases hfind : t.find k with
  | none =>
    dsimp only
    rw [Table.emplace_of_none hfind, Table.find_assign]
    split_ifs with ha
    · rw [ha, hfind]
      rfl
    · simp
  | some queue =>
    dsimp only
    rw [Table.find_assign]
    split_ifs with ha
    · rw [ha, hfind]
      rfl
    · simp

theorem NoEmptyQueue.pushEndpoint {t : LocalEndpoints} (h : NoEmptyQueue t) (k : Bytes)
    (id : ServerID) : NoEmptyQueue (pushEndpoint t k id) := by
  intro a
  rw [VertxCpp.pushEndpoint]
  cases hfind : t.find k with
  | none =>
    dsimp only
    rw [Table.emplace_of_none hfind, Table.find_assign]
    split_ifs with ha
    · simp
    · exact h a
  | some queue =>
    dsimp only
    rw [Table.find_assign]
    split_ifs with ha
    · simp
    · exact h a

/-- **Filling a table** appends to the queue of each address the endpoints of its
entries, and leaves no queue empty. -/
theorem endpointsOf_foldl (entries : List (Bytes × ClusterNodeInfo)) (t : LocalEndpoints)
    (a : Bytes) :
    endpointsOf (entries.foldl (fun t entry => pushEndpoint t entry.1 entry.2.serverId) t) a
      = endpointsOf t a
        ++ (entries.filter fun entry => a = entry.1).map fun entry => entry.2.serverId := by
  induction entries generalizing t with
  | nil => simp
  | cons entry entries ih =>
    rw [List.foldl_cons, ih, endpointsOf_pushEndpoint, List.filter_cons]
    split_ifs with ha <;> simp_all

theorem NoEmptyQueue.foldl {t : LocalEndpoints} (h : NoEmptyQueue t)
    (entries : List (Bytes × ClusterNodeInfo)) :
    NoEmptyQueue
      (entries.foldl (fun t entry => VertxCpp.pushEndpoint t entry.1 entry.2.serverId) t) := by
  induction entries generalizing t with
  | nil => exact h
  | cons entry entries ih => exact ih (h.pushEndpoint _ _)

namespace HazelcastCluster

/-- `rebuild` is `join`'s loop over entries with one key. -/
theorem rebuild_eq (hz : HazelcastCluster) (key : Bytes) (values : List ClusterNodeInfo) :
    (hz.rebuild key values).localEndpoints
      = (values.map fun v => (key, v)).foldl
          (fun t entry => pushEndpoint t entry.1 entry.2.serverId)
          (hz.localEndpoints.erase key) := by
  rw [rebuild, List.foldl_map]

/-- **A removal rebuilds one queue** and touches no other. -/
theorem endpointsOf_rebuild (hz : HazelcastCluster) (key : Bytes) (values : List ClusterNodeInfo)
    (a : Bytes) :
    endpointsOf (hz.rebuild key values).localEndpoints a
      = if a = key then values.map fun v => v.serverId else endpointsOf hz.localEndpoints a := by
  rw [rebuild_eq, endpointsOf_foldl]
  split_ifs with ha
  · subst ha
    simp [endpointsOf, List.filter_map, Function.comp_def]
  · simp [endpointsOf, List.filter_map, Function.comp_def, ha]

theorem noEmptyQueue_rebuild {hz : HazelcastCluster} (h : NoEmptyQueue hz.localEndpoints)
    (key : Bytes) (values : List ClusterNodeInfo) :
    NoEmptyQueue (hz.rebuild key values).localEndpoints := by
  rw [rebuild_eq]
  refine NoEmptyQueue.foldl (fun a => ?_) _
  rw [Table.find_erase]
  split_ifs
  · simp
  · exact h a

/-- **`next` rotates one queue**: no endpoint comes or goes, no key comes or goes. -/
theorem next_spec {hz hz' : HazelcastCluster} {address : Bytes} {id : ServerID}
    (h : hz.next address = .ok (id, hz')) :
    hz'.localSubs = hz.localSubs ∧ hz'.nodeID = hz.nodeID ∧
      (∀ a, (endpointsOf hz'.localEndpoints a).Perm (endpointsOf hz.localEndpoints a)) ∧
      (NoEmptyQueue hz.localEndpoints → NoEmptyQueue hz'.localEndpoints) := by
  rw [next] at h
  cases hfind : hz.localEndpoints.find address with
  | none => simp [hfind] at h
  | some queue =>
    cases queue with
    | nil => simp [hfind] at h
    | cons front queue =>
      simp only [hfind, Except.ok.injEq, Prod.mk.injEq] at h
      obtain ⟨rfl, rfl⟩ := h
      refine ⟨rfl, rfl, fun a => ?_, fun hne a => ?_⟩
      · rw [endpointsOf, endpointsOf, Table.find_assign]
        split_ifs with ha
        · subst ha
          rw [hfind]
          exact List.perm_append_singleton front queue
        · exact List.Perm.refl _
      · rw [Table.find_assign]
        split_ifs
        · simp
        · exact hne a

end HazelcastCluster

end VertxCpp
