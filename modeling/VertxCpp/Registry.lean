/-
# One node's table against the cluster's multimap

The multimap changes by the hand of any node, and each change reaches this node as
an event that is handled later, in order.  `Registry` is this node's
`hazelcast_cluster`, the multimap as it is now and the events still to come; a
step is a change, a call of `addSub` or `next`, or the handling of the first
event.

`entryAdded` believes its event, `entryRemoved` does not: it reads the multimap,
which may be many changes ahead of the event.  So the table means nothing for an
address while a removal is on its way; when none is, the table and the additions
on their way account for the multimap (`Inv.tally`), and a rebuild keeps that up
because additions behind the last removal are in the multimap already
(`Inv.current`).

They account for it as sets in every run (`endpoints_converge`).  As multisets
they do not: an addition that the rebuild has seen is counted again when its
event is handled (`endpoint_counted_twice`).  It takes an `entryRemoved` that runs
with an addition and no further removal on their way: where there is none, nothing
is counted twice (`count_endpoints_le`).
-/
import VertxCpp.Hazelcast
import VertxCpp.Library.Machine

namespace VertxCpp

open Machine

/-- A node, the multimap and the events the node has still to handle. -/
structure Registry where
  hz : HazelcastCluster
  subs : Subs
  pending : List EntryEvent

/-- What can happen next.  `put` and `remove` are changes by any node; the lists of
`entryRemoved` are the answer of `_subs->get` and the order of `_local_subs`. -/
inductive RegistryStep where
  | put (key : Bytes) (value : ClusterNodeInfo)
  | remove (key : Bytes) (value : ClusterNodeInfo)
  | addSub (address : Bytes) (port : Int32) (host : Bytes)
  | next (address : Bytes)
  | entryAdded
  | entryRemoved (values : List ClusterNodeInfo) (own : List (Bytes × ClusterNodeInfo))

namespace Registry

/-- Right after `join`, the table filled from the snapshot `entrySet`. -/
def joined (nodeID : Bytes) (subs : Subs) (entrySet : List (Bytes × ClusterNodeInfo)) : Registry :=
  ⟨.join nodeID entrySet, subs, []⟩

def step (s : Registry) : RegistryStep → Option Registry
  | .put key value =>
    let (subs, events) := putSub s.subs key value
    some { s with subs, pending := s.pending ++ events }
  | .remove key value =>
    let (subs, events) := removeSub s.subs key value
    some { s with subs, pending := s.pending ++ events }
  | .addSub address port host =>
    let (hz, subs, events) := s.hz.addSub s.subs address port host
    some ⟨hz, subs, s.pending ++ events⟩
  | .next address =>
    match s.hz.next address with
    | .ok (_, hz) => some { s with hz }
    | .error _ => some s
  | .entryAdded =>
    match s.pending with
    | .added key value :: pending => some { s with hz := s.hz.entryAdded key value, pending }
    | _ => none
  | .entryRemoved values own =>
    match s.pending with
    | .removed key _ :: pending =>
      if (values : Multiset ClusterNodeInfo) = (s.subs.get key).val ∧ own.Perm s.hz.localSubs then
        let (hz, subs, events) := s.hz.entryRemoved s.subs key values own
        some ⟨hz, subs, pending ++ events⟩
      else none
    | _ => none

end Registry

/-! ### Table, announcements and multimap -/

/-- The endpoints that events on their way will add to the queue of `a`. -/
def announced (a : Bytes) (events : List EntryEvent) : Multiset ServerID :=
  (events.filterMap fun
    | .added key value => if key = a then some value.serverId else none
    | .removed _ _ => none : List ServerID)

/-- The endpoints the multimap holds for `a`, one for each of its values. -/
def held (subs : Subs) (a : Bytes) : Multiset ServerID :=
  (subs.get a).val.map ClusterNodeInfo.serverId

/-- No removal for `a` is on its way. -/
def NoRemoval (a : Bytes) (events : List EntryEvent) : Prop := ∀ v, .removed a v ∉ events

@[simp] theorem announced_nil (a : Bytes) : announced a [] = 0 := rfl

theorem announced_append (a : Bytes) (es fs : List EntryEvent) :
    announced a (es ++ fs) = announced a es + announced a fs := by
  simp [announced]

theorem announced_added (a k : Bytes) (v : ClusterNodeInfo) :
    announced a [.added k v] = if k = a then {v.serverId} else 0 := by
  simp only [announced, List.filterMap_cons, List.filterMap_nil]
  split_ifs <;> rfl

theorem announced_removed (a k : Bytes) (v : ClusterNodeInfo) :
    announced a [.removed k v] = 0 := rfl

theorem announced_eq_zero {a : Bytes} {es : List EntryEvent} (h : ∀ v, .added a v ∉ es) :
    announced a es = 0 := by
  rw [announced, Multiset.coe_eq_zero, List.filterMap_eq_nil_iff]
  intro e he
  cases e with
  | added k v =>
    have hk : k ≠ a := fun hk => h v (hk ▸ he)
    simp [hk]
  | removed k v => rfl

theorem mem_announced {a : Bytes} {es : List EntryEvent} {id : ServerID} :
    id ∈ announced a es ↔ ∃ v, .added a v ∈ es ∧ v.serverId = id := by
  rw [announced, Multiset.mem_coe, List.mem_filterMap]
  constructor
  · rintro ⟨e, he, hid⟩
    cases e with
    | added k v =>
      by_cases hk : k = a
      · subst hk
        exact ⟨v, he, by simpa using hid⟩
      · simp [hk] at hid
    | removed k v => simp at hid
  · rintro ⟨v, hv, rfl⟩
    exact ⟨_, hv, by simp⟩

theorem held_put_of_notMem {subs : Subs} {k : Bytes} {v : ClusterNodeInfo} (h : v ∉ subs.get k)
    (a : Bytes) :
    held (subs.put k v).1 a = (if k = a then {v.serverId} else 0) + held subs a := by
  rw [held, SetMultimap.get_put]
  by_cases ha : a = k
  · subst ha
    rw [if_pos rfl, if_pos rfl, Finset.insert_val_of_notMem h, Multiset.map_cons,
      Multiset.singleton_add, held]
  · rw [if_neg ha, if_neg (Ne.symm ha), zero_add, held]

/-! ### The invariant -/

/-- What holds in every state, `R a` being the sense in which the endpoints of `a` are
counted: as sets, or each as often as it occurs. -/
structure Inv (R : Bytes → Multiset ServerID → Multiset ServerID → Prop) (hz : HazelcastCluster)
    (subs : Subs) (pending : List EntryEvent) : Prop where
  noEmptyQueue : NoEmptyQueue hz.localEndpoints
  tally : ∀ a, NoRemoval a pending →
    R a (endpointsOf hz.localEndpoints a + announced a pending) (held subs a)
  current : ∀ a post, post <:+ pending → NoRemoval a post →
    ∀ v, .added a v ∈ post → v ∈ subs.get a

section Invariant

variable {R R' : Bytes → Multiset ServerID → Multiset ServerID → Prop} {hz : HazelcastCluster}
  {subs : Subs} {pending : List EntryEvent}

theorem NoRemoval.of_append {a : Bytes} {es fs : List EntryEvent} (h : NoRemoval a (es ++ fs)) :
    NoRemoval a es ∧ NoRemoval a fs :=
  ⟨fun v hv => h v (List.mem_append_left _ hv), fun v hv => h v (List.mem_append_right _ hv)⟩

/-- Only the table and the names of what is in it matter. -/
theorem Inv.congr_hz {hz' : HazelcastCluster} (h : Inv R hz subs pending)
    (he : ∀ a, (endpointsOf hz'.localEndpoints a).Perm (endpointsOf hz.localEndpoints a))
    (hne : NoEmptyQueue hz'.localEndpoints) : Inv R hz' subs pending := by
  refine ⟨hne, fun a ha => ?_, h.current⟩
  rw [Multiset.coe_eq_coe.2 (he a)]
  exact h.tally a ha

/-- Endpoints of an address with a removal on its way are not counted. -/
theorem Inv.congr_rel (h : Inv R hz subs pending) (hR : ∀ a, NoRemoval a pending → R a = R' a) :
    Inv R' hz subs pending :=
  ⟨h.noEmptyQueue, fun a ha => hR a ha ▸ h.tally a ha, h.current⟩

/-- **A put** announces what it adds. -/
theorem Inv.put (hR : ∀ a l m n, R a l m → R a (n + l) (n + m)) (h : Inv R hz subs pending)
    (k : Bytes) (v : ClusterNodeInfo) :
    Inv R hz (putSub subs k v).1 (pending ++ (putSub subs k v).2) := by
  by_cases hv : v ∈ subs.get k
  · rw [putSub_of_mem hv, List.append_nil]
    exact h
  · have hput : putSub subs k v = ((subs.put k v).1, [.added k v]) := by
      simp [putSub, SetMultimap.put, hv]
    rw [hput]
    refine ⟨h.noEmptyQueue, fun a ha => ?_, fun a post hpost hno w hw => ?_⟩
    · rw [announced_append, announced_added, held_put_of_notMem hv, ← add_assoc,
        add_comm _ (ite _ _ _)]
      exact hR _ _ _ _ (h.tally a ha.of_append.1)
    · dsimp only
      rw [SetMultimap.get_put]
      have hold (post : List EntryEvent) (hp : post <:+ pending) (hno : NoRemoval a post)
          (hw : .added a w ∈ post) : w ∈ if a = k then insert v (subs.get k) else subs.get a := by
        have := h.current a post hp hno w hw
        split_ifs with ha
        · exact Finset.mem_insert_of_mem (ha ▸ this)
        · exact this
      rcases List.suffix_concat_iff.1 hpost with rfl | ⟨post, rfl, hp⟩
      · exact absurd hw List.not_mem_nil
      · rcases List.mem_append.1 hw with hw | hw
        · exact hold post hp hno.of_append.1 hw
        · obtain ⟨rfl, rfl⟩ : a = k ∧ w = v := by simpa using hw
          simp

/-- **A removal** announces itself, and nothing is known of its address. -/
theorem Inv.remove (h : Inv R hz subs pending) (k : Bytes) (v : ClusterNodeInfo) :
    Inv R hz (removeSub subs k v).1 (pending ++ (removeSub subs k v).2) := by
  by_cases hv : v ∈ subs.get k
  · have hremove : removeSub subs k v = ((subs.remove k v).1, [.removed k v]) := by
      simp [removeSub, SetMultimap.remove, hv]
    rw [hremove]
    have hne (a : Bytes) (post : List EntryEvent) (hno : NoRemoval a (post ++ [.removed k v])) :
        a ≠ k := by
      rintro rfl
      exact hno v (by simp)
    have hget (a : Bytes) (ha : a ≠ k) : (subs.remove k v).1.get a = subs.get a := by
      rw [SetMultimap.get_remove, if_neg ha]
    refine ⟨h.noEmptyQueue, fun a ha => ?_, fun a post hpost hno w hw => ?_⟩
    · rw [announced_append, announced_removed, add_zero, held, hget a (hne a pending ha)]
      exact h.tally a ha.of_append.1
    · rcases List.suffix_concat_iff.1 hpost with rfl | ⟨post, rfl, hp⟩
      · exact absurd hw List.not_mem_nil
      · dsimp only
        rw [hget a (hne a post hno)]
        exact h.current a post hp hno.of_append.1 w (by simpa using hw)
  · rw [removeSub_of_notMem hv, List.append_nil]
    exact h

/-- **Handling an addition** moves it from the announcements to the table. -/
theorem Inv.entryAdded {k : Bytes} {v : ClusterNodeInfo}
    (h : Inv R hz subs (.added k v :: pending)) :
    Inv R (hz.entryAdded k v) subs pending := by
  refine ⟨h.noEmptyQueue.pushEndpoint _ _, fun a ha => ?_, fun a post hpost hno w hw => ?_⟩
  · have hno : NoRemoval a (.added k v :: pending) := by
      intro w hw
      exact ha w (by simpa using hw)
    have := h.tally a hno
    rw [← List.singleton_append, announced_append, announced_added] at this
    rw [HazelcastCluster.entryAdded, endpointsOf_pushEndpoint, ← Multiset.coe_add, add_assoc]
    by_cases hk : k = a
    · rw [if_pos hk] at this
      rw [if_pos hk.symm]
      exact this
    · rw [if_neg hk] at this
      rw [if_neg (Ne.symm hk)]
      exact this
  · exact h.current a post (hpost.trans (List.suffix_cons _ _)) hno w hw

/-- **Handling a removal** reads the multimap.  What has to be known is that the
multimap and the additions behind the removal still tally with the multimap. -/
theorem Inv.rebuild {k : Bytes} {v : ClusterNodeInfo} (h : Inv R hz subs (.removed k v :: pending))
    {values : List ClusterNodeInfo} (hvalues : (values : Multiset _) = (subs.get k).val)
    (hlast : NoRemoval k pending → R k (held subs k + announced k pending) (held subs k)) :
    Inv R (hz.rebuild k values) subs pending := by
  refine ⟨HazelcastCluster.noEmptyQueue_rebuild h.noEmptyQueue k values, fun a ha => ?_,
    fun a post hpost hno w hw => ?_⟩
  · rw [HazelcastCluster.endpointsOf_rebuild]
    by_cases hk : a = k
    · subst hk
      rw [if_pos rfl]
      have hheld : ((values.map fun v => v.serverId : List ServerID) : Multiset ServerID)
          = held subs a := by
        rw [held, ← hvalues]
        rfl
      rw [hheld]
      exact hlast ha
    · rw [if_neg hk]
      have hno : NoRemoval a (.removed k v :: pending) := by
        intro w hw
        rcases List.mem_cons.1 hw with hw | hw
        · exact hk (by simpa using (EntryEvent.removed.inj hw).1)
        · exact ha w hw
      exact h.tally a hno
  · exact h.current a post (hpost.trans (List.suffix_cons _ _)) hno w hw

/-- Putting the own subscriptions again is so many puts. -/
theorem Inv.reput (hR : ∀ a l m n, R a l m → R a (n + l) (n + m)) (h : Inv R hz subs pending)
    (own : List (Bytes × ClusterNodeInfo)) :
    Inv R hz (reput subs own).1 (pending ++ (reput subs own).2) := by
  induction own generalizing subs pending with
  | nil => simpa [VertxCpp.reput] using h
  | cons entry own ih =>
    have := ih (h.put hR entry.1 entry.2)
    rw [List.append_assoc] at this
    exact this

/-- **One step.**  The only step that may break the tally is the handling of the
last removal for an address (`hlast`). -/
theorem Inv.step (hR : ∀ a l m n, R a l m → R a (n + l) (n + m)) {s t : Registry}
    (h : Inv R s.hz s.subs s.pending) {label : RegistryStep} (hstep : s.step label = some t)
    (hlast : ∀ values own k v pending, label = .entryRemoved values own →
      s.pending = .removed k v :: pending → NoRemoval k pending →
        R k (held s.subs k + announced k pending) (held s.subs k)) :
    Inv R t.hz t.subs t.pending := by
  cases label with
  | put key value =>
    obtain rfl := Option.some.inj hstep
    exact h.put hR key value
  | remove key value =>
    obtain rfl := Option.some.inj hstep
    exact h.remove key value
  | addSub address port host =>
    obtain rfl := Option.some.inj hstep
    exact (h.put hR address ⟨s.hz.nodeID, ⟨port, host⟩⟩).congr_hz (fun _ => List.Perm.refl _)
      h.noEmptyQueue
  | next address =>
    rw [Registry.step] at hstep
    cases hnext : s.hz.next address with
    | error e =>
      rw [hnext] at hstep
      obtain rfl := Option.some.inj hstep
      exact h
    | ok r =>
      obtain ⟨id, hz⟩ := r
      rw [hnext] at hstep
      obtain rfl := Option.some.inj hstep
      obtain ⟨-, -, hperm, hne⟩ := HazelcastCluster.next_spec hnext
      exact h.congr_hz hperm (hne h.noEmptyQueue)
  | entryAdded =>
    rw [Registry.step] at hstep
    split at hstep
    · rename_i key value pending hpending
      obtain rfl := Option.some.inj hstep
      rw [hpending] at h
      exact h.entryAdded
    · cases hstep
  | entryRemoved values own =>
    rw [Registry.step] at hstep
    split at hstep
    · rename_i key value pending hpending
      split_ifs at hstep with hguard
      obtain rfl := Option.some.inj hstep
      rw [hpending] at h
      exact (h.rebuild hguard.1 fun hno =>
        hlast values own key value pending rfl hpending hno).reput
        hR own
    · cases hstep

/-- **Right after `join`** the table is the multimap. -/
theorem Inv.joined {entrySet : List (Bytes × ClusterNodeInfo)} (hR : ∀ a l, R a l l)
    (hsnap : subs.IsEntrySet entrySet) (nodeID : Bytes) :
    Inv R (Registry.joined nodeID subs entrySet).hz subs [] := by
  refine ⟨NoEmptyQueue.foldl (fun a => by simp) _, fun a _ => ?_, fun a post hpost _ w hw => ?_⟩
  · have hvalues : (((entrySet.filter fun entry => a = entry.1).map Prod.snd : List _) : Multiset _)
        = (subs.get a).val := by
      refine (Multiset.Nodup.ext ?_ (subs.get a).nodup).2 fun v => ?_
      · rw [Multiset.coe_nodup]
        refine (hsnap.1.filter _).map_on fun x hx y hy hxy => Prod.ext ?_ hxy
        simp only [List.mem_filter, decide_eq_true_eq] at hx hy
        rw [← hx.2, ← hy.2]
      · rw [Multiset.mem_coe, Finset.mem_val, ← hsnap.2 a v]
        simp only [List.mem_map, List.mem_filter, decide_eq_true_eq]
        constructor
        · rintro ⟨⟨k, w⟩, ⟨hmem, rfl⟩, rfl⟩
          exact hmem
        · intro hmem
          exact ⟨(a, v), ⟨hmem, rfl⟩, rfl⟩
    have htable : (endpointsOf (Registry.joined nodeID subs entrySet).hz.localEndpoints a
        : Multiset ServerID) = held subs a := by
      rw [Registry.joined, HazelcastCluster.join, endpointsOf_foldl, held, ← hvalues,
        Multiset.map_coe, List.map_map]
      rfl
    rw [htable, announced_nil, add_zero]
    exact hR _ _
  · obtain rfl : post = [] := List.suffix_nil.1 hpost
    exact absurd hw List.not_mem_nil

end Invariant

theorem held_eq_zero_iff {subs : Subs} {a : Bytes} : held subs a = 0 ↔ subs.get a = ∅ := by
  rw [held, Multiset.map_eq_zero, Finset.val_eq_zero]

theorem mem_held {subs : Subs} {a : Bytes} {id : ServerID} :
    id ∈ held subs a ↔ ∃ v ∈ subs.get a, v.serverId = id := Multiset.mem_map

/-! ### As sets -/

/-- A multimap with the one value `v`, for the address `orders`. -/
def oneSub (v : ClusterNodeInfo) : Subs := ⟨fun k => if k = bytes "orders" then {v} else ∅⟩

theorem isEntrySet_oneSub (v : ClusterNodeInfo) :
    (oneSub v).IsEntrySet [(bytes "orders", v)] := by
  refine ⟨List.nodup_singleton _, fun k w => ?_⟩
  by_cases hk : k = bytes "orders" <;> simp [oneSub, hk]

/-- The node that serves `orders` at first. -/
def oldNode : ClusterNodeInfo := ⟨[1], ⟨1, [1]⟩⟩

/-- The node that serves it afterwards. -/
def newNode : ClusterNodeInfo := ⟨[2], ⟨2, [2]⟩⟩

/-- The same endpoints, however often, if the address is among those of interest. -/
def SameIds (interest : Set Bytes) (a : Bytes) (l m : Multiset ServerID) : Prop :=
  a ∈ interest → ∀ id, id ∈ l ↔ id ∈ m

/-- **One step, counted as sets.**  What is announced behind the last removal is in the
multimap already. -/
theorem Inv.step_sameIds {interest : Set Bytes} {s t : Registry}
    (h : Inv (SameIds interest) s.hz s.subs s.pending) {label : RegistryStep}
    (hstep : s.step label = some t) : Inv (SameIds interest) t.hz t.subs t.pending := by
  have hR (a : Bytes) (l m n : Multiset ServerID) (hlm : SameIds interest a l m) :
      SameIds interest a (n + l) (n + m) := by
    intro ha id
    rw [Multiset.mem_add, Multiset.mem_add, hlm ha id]
  refine h.step hR hstep fun values own k v pending _ hpending hno _ id => ?_
  rw [Multiset.mem_add, mem_announced, mem_held]
  constructor
  · rintro (hheld | ⟨w, hw, rfl⟩)
    · exact hheld
    · exact ⟨w, h.current k pending (hpending ▸ List.suffix_cons _ _) hno w hw, rfl⟩
  · exact Or.inl

/-- With no event on its way the table holds the endpoints the multimap holds. -/
theorem Inv.mem_endpointsOf {hz : HazelcastCluster} {subs : Subs} {interest : Set Bytes}
    (h : Inv (SameIds interest) hz subs []) {a : Bytes} (ha : a ∈ interest) (id : ServerID) :
    id ∈ endpointsOf hz.localEndpoints a ↔ ∃ v ∈ subs.get a, v.serverId = id := by
  have htally := h.tally a fun v hv => absurd hv List.not_mem_nil
  rw [announced_nil, add_zero] at htally
  exact (htally ha id).trans mem_held

section Runs

variable {nodeID : Bytes} {subs : Subs} {entrySet : List (Bytes × ClusterNodeInfo)}
  {labels : List RegistryStep} {s : Registry}

/-- **The table converges to the multimap.**  After any run from right after
`join`, in a state with no event on its way, the table holds for each address the
endpoints the multimap holds, and a key exactly where the multimap holds any. -/
theorem endpoints_converge (hsnap : subs.IsEntrySet entrySet)
    (hrun : run Registry.step (.joined nodeID subs entrySet) labels = some s)
    (hquiet : s.pending = []) (a : Bytes) :
    (∀ id, id ∈ endpointsOf s.hz.localEndpoints a ↔ ∃ v ∈ s.subs.get a, v.serverId = id) ∧
      (s.hz.localEndpoints.find a = none ↔ s.subs.get a = ∅) := by
  have hinv : Inv (SameIds Set.univ) s.hz s.subs s.pending :=
    run_invariant (I := fun s : Registry => Inv (SameIds Set.univ) s.hz s.subs s.pending)
      (fun _ _ _ h hstep => h.step_sameIds hstep) hrun
      (Inv.joined (fun _ _ _ _ => Iff.rfl) hsnap nodeID)
  rw [hquiet] at hinv
  have hids := hinv.mem_endpointsOf (Set.mem_univ a)
  refine ⟨hids, ?_⟩
  rw [hinv.noEmptyQueue.find_eq_none_iff, ← held_eq_zero_iff, Multiset.eq_zero_iff_forall_notMem,
    List.eq_nil_iff_forall_not_mem]
  exact forall_congr' fun id => not_congr ((hids id).trans mem_held.symm)

/-- A consumer moves, and the removal is handled when it has moved already. -/
theorem endpoints_converge_moved :
    ∃ s, run Registry.step (.joined [] (oneSub oldNode) [(bytes "orders", oldNode)])
        [.remove (bytes "orders") oldNode, .put (bytes "orders") newNode,
          .entryRemoved [newNode] [], .entryAdded] = some s ∧
      newNode.serverId ∈ endpointsOf s.hz.localEndpoints (bytes "orders") := by
  have hrun : run Registry.step (.joined [] (oneSub oldNode) [(bytes "orders", oldNode)])
        [.remove (bytes "orders") oldNode, .put (bytes "orders") newNode,
          .entryRemoved [newNode] [], .entryAdded] = some _ := rfl
  obtain ⟨hids, -⟩ := endpoints_converge (isEntrySet_oneSub _) hrun rfl (bytes "orders")
  exact ⟨_, hrun, (hids _).2 ⟨newNode, by decide, rfl⟩⟩

/-! ### As multisets -/

/-- `entryRemoved` runs for `a` while another removal for it is on its way, or no addition
is. -/
def Undisturbed (a : Bytes) (s : Registry) : RegistryStep → Prop
  | .entryRemoved _ _ => ∀ v pending, s.pending = .removed a v :: pending →
      (∃ w, .removed a w ∈ pending) ∨ ∀ w, .added a w ∉ pending
  | _ => True

/-- **No endpoint is counted twice where rebuilds are undisturbed.**  After a run
in which `entryRemoved` never runs for an address with an addition and no further removal
for it on their way, in a state with no event on its way, no endpoint occurs in the
queue of this address more often than the multimap has values with it. -/
theorem count_endpoints_le (hsnap : subs.IsEntrySet entrySet)
    (hrun : run Registry.step (.joined nodeID subs entrySet) labels = some s)
    {a : Bytes} (hok : Meets Registry.step (Undisturbed a) (.joined nodeID subs entrySet) labels)
    (hquiet : s.pending = []) (id : ServerID) :
    (endpointsOf s.hz.localEndpoints a).count id
      ≤ ((s.subs.get a).filter fun v => id = v.serverId).card := by
  have hinv : Inv (fun b l m => b = a → l = m) s.hz s.subs s.pending := by
    refine hok.invariant (I := fun s : Registry =>
      Inv (fun b l m => b = a → l = m) s.hz s.subs s.pending) ?_ hrun
      (Inv.joined (fun _ _ _ => rfl) hsnap nodeID)
    intro s label t h hlabel hstep
    refine h.step (fun b l m n hlm hb => by rw [hlm hb]) hstep
      fun values own k v pending he hpending hno hk => ?_
    subst he hk
    rcases hlabel v pending hpending with ⟨w, hw⟩ | hnone
    · exact absurd hw (hno w)
    · rw [announced_eq_zero hnone, add_zero]
  have htally := hinv.tally a (by simp [hquiet, NoRemoval]) rfl
  rw [hquiet, announced_nil, add_zero] at htally
  have hcount := congrArg (Multiset.count id) htally
  rw [Multiset.coe_count, held, Multiset.count_map] at hcount
  exact hcount.le

/-- A consumer moves, and the removal is handled at once. -/
theorem count_endpoints_le_moved :
    ∃ s, run Registry.step (.joined [] (oneSub oldNode) [(bytes "orders", oldNode)])
        [.remove (bytes "orders") oldNode, .entryRemoved [] [],
          .put (bytes "orders") newNode, .entryAdded] = some s ∧
      (endpointsOf s.hz.localEndpoints (bytes "orders")).count newNode.serverId ≤ 1 := by
  have hrun : run Registry.step (.joined [] (oneSub oldNode) [(bytes "orders", oldNode)])
        [.remove (bytes "orders") oldNode, .entryRemoved [] [],
          .put (bytes "orders") newNode, .entryAdded] = some _ := rfl
  have hok : Meets Registry.step (Undisturbed (bytes "orders"))
      (.joined [] (oneSub oldNode) [(bytes "orders", oldNode)])
      [.remove (bytes "orders") oldNode, .entryRemoved [] [], .put (bytes "orders") newNode,
        .entryAdded] := by
    refine ⟨trivial, ?_⟩
    rintro _ ⟨⟩
    refine ⟨?_, fun _ _ => ⟨trivial, fun _ _ => ⟨trivial, fun _ _ => trivial⟩⟩⟩
    rintro v pending ⟨⟩
    exact Or.inr fun w hw => absurd hw List.not_mem_nil
  exact ⟨_, hrun, count_endpoints_le (isEntrySet_oneSub _) hrun hok rfl _⟩

/-- The rebuild for the removal of one node sees the other, which is then added once
more. -/
theorem endpoint_counted_twice :
    (oneSub oldNode).IsEntrySet [(bytes "orders", oldNode)] ∧
      ¬ ∀ labels s,
        run Registry.step (.joined [] (oneSub oldNode) [(bytes "orders", oldNode)]) labels
          = some s →
          s.pending = [] → ∀ a id, (endpointsOf s.hz.localEndpoints a).count id
            ≤ ((s.subs.get a).filter fun v => id = v.serverId).card := by
  refine ⟨isEntrySet_oneSub _, fun h => ?_⟩
  have hrun : run Registry.step (.joined [] (oneSub oldNode) [(bytes "orders", oldNode)])
      [.remove (bytes "orders") oldNode, .put (bytes "orders") newNode,
        .entryRemoved [newNode] [], .entryAdded] = some _ := rfl
  exact absurd (h _ _ hrun rfl (bytes "orders") newNode.serverId) (by decide)

end Runs

end VertxCpp
