/-
# Subscriptions that heal

Any number of nodes with one multimap between them.  Every change of the multimap, by
whomever, sends an event to each node that has joined, and each node handles its own
events one after the other and as late as it likes.

`entryRemoved` of `src/vertx/hazelcast_cluster.cpp` puts all of `_local_subs` again,
whatever was removed and by whom.  So what a node has registered is in the multimap or
there is a removal the node has not handled yet (`Mesh.Inv`): the removal that took it
out is one such event, and handling any of them brings it back.
-/
import VertxCpp.Hazelcast
import VertxCpp.Library.Machine

namespace VertxCpp

open Machine

/-- A node that has joined, and the events it has still to handle. -/
structure Member where
  hz : HazelcastCluster
  pending : List EntryEvent

/-- The multimap, and the nodes that have joined. -/
structure Mesh (ι : Type) where
  subs : Subs
  member : ι → Option Member

/-- What can happen next.  `put` and `remove` are changes by anyone, members or not; the
lists are the answers of `entrySet` and of `_subs->get`, and the order of `_local_subs`. -/
inductive MeshStep (ι : Type) where
  | join (node : ι) (nodeID : Bytes) (entrySet : List (Bytes × ClusterNodeInfo))
  | put (key : Bytes) (value : ClusterNodeInfo)
  | remove (key : Bytes) (value : ClusterNodeInfo)
  | addSub (node : ι) (address : Bytes) (port : Int32) (host : Bytes)
  | next (node : ι) (address : Bytes)
  | entryAdded (node : ι)
  | entryRemoved (node : ι) (values : List ClusterNodeInfo) (own : List (Bytes × ClusterNodeInfo))

namespace Mesh

variable {ι : Type}

def start (subs : Subs) : Mesh ι := ⟨subs, fun _ => none⟩

/-- The multimap has changed, and every member is told. -/
def broadcast (s : Mesh ι) (change : Subs × List EntryEvent) : Mesh ι where
  subs := change.1
  member i := (s.member i).map fun m => { m with pending := m.pending ++ change.2 }

variable [DecidableEq ι]

/-- A member has changed. -/
def set (s : Mesh ι) (node : ι) (m : Member) : Mesh ι :=
  { s with member := Function.update s.member node (some m) }

def step (s : Mesh ι) : MeshStep ι → Option (Mesh ι)
  | .join node nodeID entrySet =>
    match s.member node with
    | none => some (s.set node ⟨.join nodeID entrySet, []⟩)
    | some _ => none
  | .put key value => some (s.broadcast (putSub s.subs key value))
  | .remove key value => some (s.broadcast (removeSub s.subs key value))
  | .addSub node address port host =>
    (s.member node).map fun m =>
      let (hz, change) := m.hz.addSub s.subs address port host
      (s.set node { m with hz }).broadcast change
  | .next node address =>
    (s.member node).map fun m =>
      match m.hz.next address with
      | .ok (_, hz) => s.set node { m with hz }
      | .error _ => s
  | .entryAdded node =>
    match s.member node with
    | some ⟨hz, .added key value :: pending⟩ => some (s.set node ⟨hz.entryAdded key value, pending⟩)
    | _ => none
  | .entryRemoved node values own =>
    match s.member node with
    | some ⟨hz, .removed key _ :: pending⟩ =>
      if (values : Multiset ClusterNodeInfo) = (s.subs.get key).val ∧ own.Perm hz.localSubs then
        let (hz, change) := hz.entryRemoved s.subs key values own
        some ((s.set node ⟨hz, pending⟩).broadcast change)
      else none
    | _ => none

theorem member_set (s : Mesh ι) (node i : ι) (m : Member) :
    (s.set node m).member i = if i = node then some m else s.member i :=
  Function.update_apply _ _ _ _

/-! What the steps with a guard need, and where they lead. -/

section Cases

variable {s t : Mesh ι} {node : ι}

theorem step_join {nodeID : Bytes} {entrySet : List (Bytes × ClusterNodeInfo)}
    (hstep : s.step (.join node nodeID entrySet) = some t) :
    s.member node = none ∧ t = s.set node ⟨.join nodeID entrySet, []⟩ := by
  rw [Mesh.step] at hstep
  split at hstep
  · exact ⟨‹_›, (Option.some.inj hstep).symm⟩
  · cases hstep

theorem step_entryAdded (hstep : s.step (.entryAdded node) = some t) :
    ∃ hz key value pending, s.member node = some ⟨hz, .added key value :: pending⟩ ∧
      t = s.set node ⟨hz.entryAdded key value, pending⟩ := by
  rw [Mesh.step] at hstep
  split at hstep
  · exact ⟨_, _, _, _, ‹_›, (Option.some.inj hstep).symm⟩
  · cases hstep

theorem step_entryRemoved {values : List ClusterNodeInfo} {own : List (Bytes × ClusterNodeInfo)}
    (hstep : s.step (.entryRemoved node values own) = some t) :
    ∃ hz key value pending, s.member node = some ⟨hz, .removed key value :: pending⟩ ∧
      own.Perm hz.localSubs ∧
      t = (s.set node ⟨(hz.entryRemoved s.subs key values own).1, pending⟩).broadcast
        (hz.entryRemoved s.subs key values own).2 := by
  rw [Mesh.step] at hstep
  split at hstep
  · split_ifs at hstep with hguard
    exact ⟨_, _, _, _, ‹_›, hguard.2, (Option.some.inj hstep).symm⟩
  · cases hstep

end Cases

end Mesh

/-! ### What changes send -/

/-- Nothing is taken out of the multimap. -/
def Grows (subs subs' : Subs) : Prop := ∀ k, subs.get k ⊆ subs'.get k

theorem Grows.refl (subs : Subs) : Grows subs subs := fun _ => Finset.Subset.refl _

theorem Grows.trans {subs₁ subs₂ subs₃ : Subs} (h : Grows subs₁ subs₂) (h' : Grows subs₂ subs₃) :
    Grows subs₁ subs₃ := fun k => (h k).trans (h' k)

theorem grows_putSub (subs : Subs) (k : Bytes) (v : ClusterNodeInfo) :
    Grows subs (putSub subs k v).1 := fun j => subs.subset_get_put k v j

theorem grows_reput (subs : Subs) (own : List (Bytes × ClusterNodeInfo)) :
    Grows subs (reput subs own).1 := by
  induction own generalizing subs with
  | nil => exact Grows.refl subs
  | cons entry own ih => exact (grows_putSub subs entry.1 entry.2).trans (ih _)

/-- **Every own subscription is put again.** -/
theorem mem_reput {own : List (Bytes × ClusterNodeInfo)} {entry : Bytes × ClusterNodeInfo}
    (h : entry ∈ own) (subs : Subs) : entry.2 ∈ (reput subs own).1.get entry.1 := by
  induction own generalizing subs with
  | nil => exact absurd h List.not_mem_nil
  | cons first own ih =>
    rcases List.mem_cons.1 h with rfl | hrest
    · exact grows_reput _ own _ (subs.mem_get_put entry.1 entry.2)
    · exact ih hrest _

/-- A removal takes out one value, and says so. -/
theorem removeSub_spec (subs : Subs) (k : Bytes) (v : ClusterNodeInfo) {j : Bytes}
    {w : ClusterNodeInfo} (hw : w ∈ subs.get j) :
    w ∈ (removeSub subs k v).1.get j ∨ .removed k v ∈ (removeSub subs k v).2 := by
  by_cases hv : v ∈ subs.get k
  · right
    simp [removeSub, SetMultimap.remove, hv]
  · left
    rwa [removeSub_of_notMem hv]

/-! ### The invariant -/

/-- An entry is in the multimap, or a removal is still to be handled. -/
def Covered (subs : Subs) (pending : List EntryEvent) (entry : Bytes × ClusterNodeInfo) : Prop :=
  entry.2 ∈ subs.get entry.1 ∨ ∃ k v, .removed k v ∈ pending

theorem Covered.append {subs subs' : Subs} {pending : List EntryEvent}
    {entry : Bytes × ClusterNodeInfo} (h : Covered subs pending entry) {events : List EntryEvent}
    (hkeeps : entry.2 ∈ subs.get entry.1 →
      entry.2 ∈ subs'.get entry.1 ∨ ∃ k v, .removed k v ∈ events) :
    Covered subs' (pending ++ events) entry := by
  rcases h with hmem | ⟨k, v, hkv⟩
  · rcases hkeeps hmem with hmem' | ⟨k, v, hkv⟩
    · exact Or.inl hmem'
    · exact Or.inr ⟨k, v, List.mem_append_right _ hkv⟩
  · exact Or.inr ⟨k, v, List.mem_append_left _ hkv⟩

namespace Mesh

variable {ι : Type}

/-- What a member has registered is covered. -/
def Inv (s : Mesh ι) : Prop :=
  ∀ i m, s.member i = some m → ∀ entry ∈ m.hz.localSubs, Covered s.subs m.pending entry

theorem inv_start (subs : Subs) : Inv (start subs : Mesh ι) := fun _ _ h => by cases h

section Step

variable {s t : Mesh ι} {node : ι} {change : Subs × List EntryEvent}

/-- A change keeps the invariant if it only adds, or tells of a removal. -/
theorem Inv.broadcast (h : Inv s)
    (hchange : ∀ k v, v ∈ s.subs.get k →
      v ∈ change.1.get k ∨ ∃ k v, .removed k v ∈ change.2) : Inv (s.broadcast change) := by
  intro i m hm entry hentry
  obtain ⟨m₀, hm₀, rfl⟩ := Option.map_eq_some_iff.1 hm
  exact (h i m₀ hm₀ entry hentry).append (hchange entry.1 entry.2)

variable [DecidableEq ι]

theorem Inv.set (h : Inv s) {m : Member}
    (hm : ∀ entry ∈ m.hz.localSubs, Covered s.subs m.pending entry) : Inv (s.set node m) := by
  intro i m' hm' entry hentry
  rw [member_set] at hm'
  split_ifs at hm' with hi
  · obtain rfl := Option.some.inj hm'
    exact hm entry hentry
  · exact h i m' hm' entry hentry

/-- A member puts something: its own entries have to be covered afterwards, those of the
others still are. -/
theorem Inv.set_broadcast (h : Inv s) {m : Member} (hgrows : Grows s.subs change.1)
    (hm : ∀ entry ∈ m.hz.localSubs, Covered change.1 (m.pending ++ change.2) entry) :
    Inv ((s.set node m).broadcast change) := by
  intro i m' hm' entry hentry
  obtain ⟨m₀, hm₀, rfl⟩ := Option.map_eq_some_iff.1 hm'
  rw [member_set] at hm₀
  split_ifs at hm₀ with hi
  · obtain rfl := Option.some.inj hm₀
    exact hm entry hentry
  · exact (h i m₀ hm₀ entry hentry).append fun hmem => Or.inl (hgrows _ hmem)

/-- **One step** keeps what is registered covered. -/
theorem Inv.step (h : Inv s) {label : MeshStep ι} (hstep : s.step label = some t) : Inv t := by
  cases label with
  | join node nodeID entrySet =>
    obtain ⟨-, rfl⟩ := step_join hstep
    exact h.set fun entry hentry => absurd hentry List.not_mem_nil
  | put key value =>
    obtain rfl := Option.some.inj hstep
    exact h.broadcast fun k v hv => Or.inl (grows_putSub _ _ _ k hv)
  | remove key value =>
    obtain rfl := Option.some.inj hstep
    refine h.broadcast fun k v hv => ?_
    rcases removeSub_spec s.subs key value hv with hmem | hevent
    · exact Or.inl hmem
    · exact Or.inr ⟨key, value, hevent⟩
  | addSub node address port host =>
    obtain ⟨m, hm, rfl⟩ := Option.map_eq_some_iff.1 hstep
    have hgrows := grows_putSub s.subs address ⟨m.hz.nodeID, ⟨port, host⟩⟩
    refine h.set_broadcast hgrows fun entry hentry => ?_
    rcases List.mem_append.1 hentry with hold | hnew
    · exact (h node m hm entry hold).append fun hmem => Or.inl (hgrows _ hmem)
    · obtain rfl := List.mem_singleton.1 hnew
      exact Or.inl (s.subs.mem_get_put _ _)
  | next node address =>
    obtain ⟨m, hm, rfl⟩ := Option.map_eq_some_iff.1 hstep
    cases hnext : m.hz.next address with
    | error e => exact h
    | ok r =>
      obtain ⟨hsubs, -⟩ := HazelcastCluster.next_spec hnext
      refine h.set fun entry hentry => h node m hm entry ?_
      rwa [← hsubs]
  | entryAdded node =>
    obtain ⟨hz, key, value, pending, hm, rfl⟩ := step_entryAdded hstep
    refine h.set fun entry hentry => ?_
    rcases h node _ hm entry hentry with hmem | ⟨k, v, hkv⟩
    · exact Or.inl hmem
    · exact Or.inr ⟨k, v, by simpa using hkv⟩
  | entryRemoved node values own =>
    obtain ⟨hz, key, value, pending, -, hown, rfl⟩ := step_entryRemoved hstep
    -- the removal is no longer pending, but all of `_local_subs` has been put again
    refine h.set_broadcast (grows_reput s.subs own) fun entry hentry => ?_
    exact Or.inl (mem_reput (hown.mem_iff.2 hentry) s.subs)

/-- **Every reachable state.** -/
theorem inv_of_run {subs : Subs} {labels : List (MeshStep ι)}
    (hrun : run Mesh.step (start subs) labels = some s) : Inv s :=
  run_invariant (fun _ _ _ h hstep => h.step hstep) hrun (inv_start subs)

/-! ### What a node has registered -/

/-- The entry is among the own subscriptions of the member, whose id is `nodeID`. -/
def Registered (i : ι) (nodeID : Bytes) (entry : Bytes × ClusterNodeInfo) (s : Mesh ι) : Prop :=
  ∃ m, s.member i = some m ∧ m.hz.nodeID = nodeID ∧ entry ∈ m.hz.localSubs

variable {i : ι} {nodeID : Bytes} {entry : Bytes × ClusterNodeInfo}

omit [DecidableEq ι] in
theorem Registered.broadcast (h : Registered i nodeID entry s) :
    Registered i nodeID entry (s.broadcast change) := by
  obtain ⟨m, hm, hid, hentry⟩ := h
  refine ⟨{ m with pending := m.pending ++ change.2 }, ?_, hid, hentry⟩
  show (s.member i).map _ = _
  rw [hm, Option.map_some]

theorem Registered.set (h : Registered i nodeID entry s) {m : Member}
    (hm : ∀ m₀, s.member node = some m₀ →
      m.hz.nodeID = m₀.hz.nodeID ∧ m₀.hz.localSubs ⊆ m.hz.localSubs) :
    Registered i nodeID entry (s.set node m) := by
  obtain ⟨m₀, hm₀, hid, hentry⟩ := h
  by_cases hi : i = node
  · subst hi
    obtain ⟨hnode, hsubs⟩ := hm m₀ hm₀
    exact ⟨m, by rw [member_set, if_pos rfl], hnode.trans hid, hsubs hentry⟩
  · exact ⟨m₀, by rw [member_set, if_neg hi, hm₀], hid, hentry⟩

/-- Nothing is ever taken out of the own subscriptions. -/
theorem Registered.step (h : Registered i nodeID entry s) {label : MeshStep ι}
    (hstep : s.step label = some t) : Registered i nodeID entry t := by
  cases label with
  | join node nodeID entrySet =>
    obtain ⟨hnone, rfl⟩ := step_join hstep
    exact h.set fun m₀ hm₀ => by rw [hnone] at hm₀; cases hm₀
  | put key value =>
    obtain rfl := Option.some.inj hstep
    exact h.broadcast
  | remove key value =>
    obtain rfl := Option.some.inj hstep
    exact h.broadcast
  | addSub node address port host =>
    obtain ⟨m, hm, rfl⟩ := Option.map_eq_some_iff.1 hstep
    refine (h.set fun m₀ hm₀ => ?_).broadcast
    obtain rfl := Option.some.inj (hm.symm.trans hm₀)
    exact ⟨rfl, List.subset_append_left _ _⟩
  | next node address =>
    obtain ⟨m, hm, rfl⟩ := Option.map_eq_some_iff.1 hstep
    cases hnext : m.hz.next address with
    | error e => exact h
    | ok r =>
      obtain ⟨hsubs, hid, -⟩ := HazelcastCluster.next_spec hnext
      refine h.set fun m₀ hm₀ => ?_
      obtain rfl := Option.some.inj (hm.symm.trans hm₀)
      exact ⟨hid, hsubs ▸ List.Subset.refl _⟩
  | entryAdded node =>
    obtain ⟨hz, key, value, pending, hm, rfl⟩ := step_entryAdded hstep
    refine h.set fun m₀ hm₀ => ?_
    obtain rfl := Option.some.inj (hm.symm.trans hm₀)
    exact ⟨rfl, List.Subset.refl _⟩
  | entryRemoved node values own =>
    obtain ⟨hz, key, value, pending, hm, -, rfl⟩ := step_entryRemoved hstep
    refine (h.set fun m₀ hm₀ => ?_).broadcast
    obtain rfl := Option.some.inj (hm.symm.trans hm₀)
    exact ⟨rfl, List.Subset.refl _⟩

/-- A call of `addSub` registers. -/
theorem registered_addSub {address : Bytes} {port : Int32} {host : Bytes}
    (hstep : s.step (.addSub i address port host) = some t) :
    ∃ nodeID, Registered i nodeID (address, ⟨nodeID, ⟨port, host⟩⟩) t := by
  obtain ⟨m, hm, rfl⟩ := Option.map_eq_some_iff.1 hstep
  refine ⟨m.hz.nodeID, Registered.broadcast ⟨⟨(m.hz.addSub s.subs address port host).1,
    m.pending⟩, ?_, rfl, ?_⟩⟩
  · rw [member_set, if_pos rfl]
    rfl
  · exact List.mem_append_right _ (List.mem_singleton.2 rfl)

/-- **A node's own subscriptions heal.**  In every reachable state, what a node has
registered with `addSub` is in the multimap or the node has a removal still to handle;
so it is there when the node has no event to handle. -/
theorem registrations_heal {subs : Subs} {labels : List (MeshStep ι)}
    (hrun : run Mesh.step (start subs) labels = some s) {address : Bytes} {port : Int32}
    {host : Bytes} (hadd : .addSub i address port host ∈ labels) :
    ∃ m, s.member i = some m ∧
      Covered s.subs m.pending (address, ⟨m.hz.nodeID, ⟨port, host⟩⟩) ∧
      (m.pending = [] → ⟨m.hz.nodeID, ⟨port, host⟩⟩ ∈ s.subs.get address) := by
  obtain ⟨before, r, r', after, -, hstep, hafter⟩ := exists_step_of_mem hrun hadd
  obtain ⟨nodeID, hregistered⟩ := registered_addSub hstep
  obtain ⟨m, hm, rfl, hentry⟩ := run_invariant
    (I := Registered i nodeID (address, ⟨nodeID, ⟨port, host⟩⟩))
    (fun _ _ _ h hstep => h.step hstep) hafter hregistered
  have hcovered := inv_of_run hrun i m hm _ hentry
  refine ⟨m, hm, hcovered, fun hquiet => ?_⟩
  rcases hcovered with hmem | ⟨k, v, hkv⟩
  · exact hmem
  · rw [hquiet] at hkv
    exact absurd hkv List.not_mem_nil

end Step

/-- A subscription is removed twice, the second time while the first removal is still to
be handled. -/
theorem registrations_heal_twice :
    ∃ s : Mesh Bool, run Mesh.step (start .empty)
        [.join true (bytes "n1") [], .join false (bytes "n2") [],
          .addSub true (bytes "orders") 15701 (bytes "10.0.0.1"),
          .remove (bytes "orders") ⟨bytes "n1", ⟨15701, bytes "10.0.0.1"⟩⟩,
          .entryAdded true, .entryRemoved true []
            [(bytes "orders", ⟨bytes "n1", ⟨15701, bytes "10.0.0.1"⟩⟩)],
          .remove (bytes "orders") ⟨bytes "n1", ⟨15701, bytes "10.0.0.1"⟩⟩] = some s ∧
      ∃ m, s.member true = some m ∧
        Covered s.subs m.pending (bytes "orders", ⟨m.hz.nodeID, ⟨15701, bytes "10.0.0.1"⟩⟩) := by
  have hrun : run Mesh.step (start .empty : Mesh Bool)
        [.join true (bytes "n1") [], .join false (bytes "n2") [],
          .addSub true (bytes "orders") 15701 (bytes "10.0.0.1"),
          .remove (bytes "orders") ⟨bytes "n1", ⟨15701, bytes "10.0.0.1"⟩⟩,
          .entryAdded true, .entryRemoved true []
            [(bytes "orders", ⟨bytes "n1", ⟨15701, bytes "10.0.0.1"⟩⟩)],
          .remove (bytes "orders") ⟨bytes "n1", ⟨15701, bytes "10.0.0.1"⟩⟩] = some _ := rfl
  obtain ⟨m, hm, hcovered, -⟩ := @registrations_heal Bool _ _ true _ _ hrun (bytes "orders") 15701
    (bytes "10.0.0.1") (by simp)
  exact ⟨_, hrun, m, hm, hcovered⟩

end Mesh

end VertxCpp
