/-
# What a rebuild counts twice

`entryRemoved` of `src/vertx/hazelcast_cluster.cpp` rebuilds a queue from the multimap as it
is when the event is handled.  An addition that is on its way by then is in the multimap
already, and is pushed once more when it is handled in its turn.

Nothing but the next rebuild takes it out again.  So the queue of an address is what the
multimap holds for it, and what was on its way when the last removal for it was handled
(`queue_exact`); and no endpoint is counted twice exactly where that was nothing.
-/
import VertxCpp.Registry

namespace VertxCpp

open Machine

namespace Registry

/-- The events on their way behind a removal for `a` that is handled now, and otherwise those
behind the last one so far. -/
def behind (a : Bytes) (s : Registry) (last : List EntryEvent) : RegistryStep → List EntryEvent
  | .entryRemoved _ _ =>
    match s.pending with
    | .removed key _ :: pending => if key = a then pending else last
    | _ => last
  | _ => last

/-- The events that were on their way when the last removal for `a` in a run was handled. -/
def behindLast (a : Bytes) (s : Registry) (last : List EntryEvent) :
    List RegistryStep → List EntryEvent
  | [] => last
  | label :: labels =>
    match s.step label with
    | some t => behindLast a t (s.behind a last label) labels
    | none => last

/-- A removal that is handled was on its way. -/
theorem behind_of_noRemoval {a : Bytes} {s : Registry} (h : NoRemoval a s.pending)
    (last : List EntryEvent) (label : RegistryStep) : s.behind a last label = last := by
  cases label with
  | entryRemoved values own =>
    rw [behind]
    split
    · rename_i key value pending hpending
      refine if_neg fun hkey => h value ?_
      rw [hpending, hkey]
      exact List.mem_cons_self
    · rfl
  | _ => rfl

end Registry

/-- What the queue of `a` has beyond the multimap: the additions that the last rebuild saw
there already. -/
def Surplus (last : Bytes → List EntryEvent) (a : Bytes) (l m : Multiset ServerID) : Prop :=
  l = m + announced a (last a)

section Runs

variable {s t : Registry}

/-- **One step** moves the surplus where it rebuilds a queue, and leaves the others. -/
theorem Inv.step_surplus {last : Bytes → List EntryEvent}
    (h : Inv (Surplus last) s.hz s.subs s.pending) {label : RegistryStep}
    (hstep : s.step label = some t) :
    Inv (Surplus fun a => s.behind a (last a) label) t.hz t.subs t.pending := by
  have hmoved : Inv (Surplus fun a => s.behind a (last a) label) s.hz s.subs s.pending :=
    h.congr_rel fun a ha => by
      funext l m
      rw [Surplus, Surplus, Registry.behind_of_noRemoval ha]
  refine hmoved.step (fun a l m n hlm => ?_) hstep fun values own k v pending he hpending _ => ?_
  · rw [Surplus, add_assoc, ← hlm]
  · subst he
    rw [Surplus, Registry.behind, hpending]
    exact congrArg (fun events => held s.subs k + announced k events) (if_pos rfl).symm

/-- **Every run.** -/
theorem Inv.run_surplus {last : Bytes → List EntryEvent}
    (h : Inv (Surplus last) s.hz s.subs s.pending) {labels : List RegistryStep}
    (hrun : run Registry.step s labels = some t) :
    Inv (Surplus fun a => s.behindLast a (last a) labels) t.hz t.subs t.pending := by
  induction labels generalizing s last with
  | nil =>
    obtain rfl := Option.some.inj hrun
    exact h
  | cons label labels ih =>
    obtain ⟨r, hr, hrest⟩ := run_cons_eq_some.1 hrun
    have hlast : (fun a => s.behindLast a (last a) (label :: labels))
        = fun a => r.behindLast a (s.behind a (last a) label) labels := by
      funext a
      rw [Registry.behindLast, hr]
    rw [hlast]
    exact ih (h.step_surplus hr) hrest

variable {nodeID : Bytes} {subs : Subs} {entrySet : List (Bytes × ClusterNodeInfo)}
  {labels : List RegistryStep}

/-- **Queues are exact but for the last rebuild.**  After any run from right after `join`, in a
state with no event on its way, the queue of an address has the endpoints that the multimap holds
for it, and once more those whose additions were on their way when the last removal for the
address was handled.  So no endpoint is counted twice if and only if there were none. -/
theorem queue_exact (hsnap : subs.IsEntrySet entrySet)
    (hrun : run Registry.step (.joined nodeID subs entrySet) labels = some s)
    (hquiet : s.pending = []) (a : Bytes) {last : List EntryEvent}
    (hlast : Registry.behindLast a (.joined nodeID subs entrySet) [] labels = last) :
    (endpointsOf s.hz.localEndpoints a : Multiset ServerID) = held s.subs a + announced a last ∧
      ((∀ id, (endpointsOf s.hz.localEndpoints a).count id
          ≤ ((s.subs.get a).filter fun v => id = v.serverId).card) ↔
        ∀ v, .added a v ∉ last) := by
  have hjoined : Inv (Surplus fun _ => []) (Registry.joined nodeID subs entrySet).hz
      (Registry.joined nodeID subs entrySet).subs (Registry.joined nodeID subs entrySet).pending :=
    Inv.joined (fun a l => by rw [Surplus, announced_nil, add_zero]) hsnap nodeID
  have htally := (hjoined.run_surplus hrun).tally a (by simp [hquiet, NoRemoval])
  rw [hquiet, announced_nil, add_zero, Surplus, hlast] at htally
  refine ⟨htally, fun h v hv => ?_, fun h id => ?_⟩
  · have hcount := congrArg (Multiset.count v.serverId) htally
    have hone : 1 ≤ (announced a last).count v.serverId :=
      Multiset.one_le_count_iff_mem.2 (mem_announced.2 ⟨v, hv, rfl⟩)
    rw [Multiset.coe_count, Multiset.count_add, held, Multiset.count_map] at hcount
    have hmost := h v.serverId
    rw [hcount] at hmost
    exact absurd hmost (Nat.not_le.2 (Nat.lt_add_of_pos_right hone))
  · rw [announced_eq_zero h, add_zero] at htally
    have hcount := congrArg (Multiset.count id) htally
    rw [Multiset.coe_count, held, Multiset.count_map] at hcount
    exact hcount.le

/-- A consumer moves, and the removal is handled when it has moved already. -/
def seenTwice : List RegistryStep :=
  [.remove (bytes "orders") oldNode, .put (bytes "orders") newNode,
    .entryRemoved [newNode] [], .entryAdded]

/-- The queue has the new endpoint twice, and once when another one comes and goes. -/
theorem queue_exact_moved :
    (∃ s, run Registry.step (.joined [] (oneSub oldNode) [(bytes "orders", oldNode)]) seenTwice
        = some s ∧
      (endpointsOf s.hz.localEndpoints (bytes "orders") : Multiset ServerID)
        = held s.subs (bytes "orders")
          + announced (bytes "orders") [.added (bytes "orders") newNode]) ∧
    ∃ s, run Registry.step (.joined [] (oneSub oldNode) [(bytes "orders", oldNode)])
        (seenTwice ++ [.put (bytes "orders") oldNode, .entryAdded,
          .remove (bytes "orders") oldNode, .entryRemoved [newNode] []]) = some s ∧
      ∀ id, (endpointsOf s.hz.localEndpoints (bytes "orders")).count id
        ≤ ((s.subs.get (bytes "orders")).filter fun v => id = v.serverId).card := by
  have hsnap := isEntrySet_oneSub oldNode
  constructor
  · have hrun : run Registry.step (.joined [] (oneSub oldNode) [(bytes "orders", oldNode)])
        seenTwice = some _ := rfl
    obtain ⟨hqueue, -⟩ := queue_exact hsnap hrun rfl (bytes "orders") rfl
    exact ⟨_, hrun, hqueue⟩
  · have hrun : run Registry.step (.joined [] (oneSub oldNode) [(bytes "orders", oldNode)])
        (seenTwice ++ [.put (bytes "orders") oldNode, .entryAdded,
          .remove (bytes "orders") oldNode, .entryRemoved [newNode] []]) = some _ := rfl
    obtain ⟨-, hcounted⟩ := queue_exact hsnap hrun rfl (bytes "orders") rfl
    exact ⟨_, hrun, hcounted.2 fun v hv => absurd hv List.not_mem_nil⟩

end Runs

end VertxCpp
