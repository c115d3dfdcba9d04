/-
# A node joins

`join` of `src/vertx/hazelcast_cluster.cpp` beside changes of the multimap by other
nodes: it reads the entries, fills the table one entry after the other, installs the
listener and puts its entry in `haInfo`.  A change is sent to this node only if the
listener is there.

So a change that takes effect behind the snapshot and before the listener is seen by
neither (`change_between_lost`), and stays unseen until something is removed under its
address.  For an address without such a change a run ends with a table that holds what the
multimap holds (`join_loses_nothing`): what the snapshot has for it is still in the multimap
when the listener comes, and from there on the node is a `Registry`.
-/
import VertxCpp.Registry

namespace VertxCpp

open Machine

/-- How far `join` is. -/
inductive JoinPhase where
  | started
  /-- the entries are read, and these are not yet in the table -/
  | filling (rest : List (Bytes × ClusterNodeInfo))
  | listening
  | returned

/-- A node that joins. -/
structure Joining where
  registry : Registry
  phase : JoinPhase

/-- The steps of `join`, and what a registry can do: changes by other nodes at any time,
the handling of events, and the calls of the program when `join` has returned. -/
inductive JoinStep where
  | entrySet (entries : List (Bytes × ClusterNodeInfo))
  | fill
  | addEntryListener
  | putHaInfo
  | registry (label : RegistryStep)

/-- The listener is installed. -/
def JoinPhase.listens : JoinPhase → Bool
  | listening | returned => true
  | _ => false

/-- The program gets the cluster object from `join` when it has returned. -/
def JoinPhase.hasReturned : JoinPhase → Bool
  | returned => true
  | _ => false

/-- A call of the program. -/
def RegistryStep.isCall : RegistryStep → Bool
  | addSub _ _ _ | next _ => true
  | _ => false

namespace Joining

def start (nodeID : Bytes) (subs : Subs) : Joining :=
  ⟨⟨⟨nodeID, [], .empty⟩, subs, []⟩, .started⟩

def step (s : Joining) : JoinStep → Option Joining
  | .entrySet entries =>
    match s.phase with
    | .started => some { s with phase := .filling entries }
    | _ => none
  | .fill =>
    match s.phase with
    | .filling ((key, node) :: rest) =>
      let localEndpoints := pushEndpoint s.registry.hz.localEndpoints key node.serverId
      some ⟨{ s.registry with hz := { s.registry.hz with localEndpoints } }, .filling rest⟩
    | _ => none
  | .addEntryListener =>
    match s.phase with
    | .filling [] => some { s with phase := .listening }
    | _ => none
  | .putHaInfo =>
    match s.phase with
    | .listening => some { s with phase := .returned }
    | _ => none
  | .registry label =>
    if s.phase.hasReturned || !label.isCall then
      (s.registry.step label).map fun registry =>
        { s with registry := if s.phase.listens then registry else { registry with pending := [] } }
    else none

/-- What is assumed of the answer of `entrySet`: it is what the multimap holds. -/
def Snapshot (s : Joining) : JoinStep → Prop
  | .entrySet entries => s.registry.subs.IsEntrySet entries
  | _ => True

/-- Between `entrySet` and `addEntryListener`, no put and no removal for `a` takes effect. -/
def QuietGap (a : Bytes) (s : Joining) : JoinStep → Prop
  | .registry (.put key value) =>
    ∀ rest, s.phase = .filling rest → key = a → value ∈ s.registry.subs.get key
  | .registry (.remove key value) =>
    ∀ rest, s.phase = .filling rest → key = a → value ∉ s.registry.subs.get key
  | _ => True

/-! ### The invariant -/

/-- The table filled from a list of entries. -/
def filledFrom (entries : List (Bytes × ClusterNodeInfo)) : LocalEndpoints :=
  entries.foldl (fun t entry => pushEndpoint t entry.1 entry.2.serverId) .empty

/-- How table and multimap are related in each phase: what is read for `a` is still what the
multimap holds, and once the listener is there the table keeps up with it. -/
def Tracks (a : Bytes) (s : Joining) : Prop :=
  match s.phase with
  | .started => s.registry.pending = [] ∧ s.registry.hz.localEndpoints = .empty
  | .filling rest => s.registry.pending = [] ∧ ∃ (read : Subs) (done : _),
      read.IsEntrySet (done ++ rest) ∧ read.get a = s.registry.subs.get a ∧
        s.registry.hz.localEndpoints = filledFrom done
  | .listening | .returned => Inv (SameIds {a}) s.registry.hz s.registry.subs s.registry.pending

theorem tracks_start (a : Bytes) (nodeID : Bytes) (subs : Subs) : Tracks a (start nodeID subs) :=
  ⟨rfl, rfl⟩

/-- **The listener comes in time**: the table holds all entries that were read, and those of `a`
are still the entries of the multimap. -/
theorem inv_of_filled {a : Bytes} {hz : HazelcastCluster} {read subs : Subs}
    {entries : List (Bytes × ClusterNodeInfo)} (hsnap : read.IsEntrySet entries)
    (hsame : read.get a = subs.get a) (hfilled : hz.localEndpoints = filledFrom entries) :
    Inv (SameIds {a}) hz subs [] := by
  have hjoined : Inv (SameIds {a}) (HazelcastCluster.join hz.nodeID entries) read [] :=
    Inv.joined (fun _ _ _ _ => Iff.rfl) hsnap hz.nodeID
  have htable : hz.localEndpoints = (HazelcastCluster.join hz.nodeID entries).localEndpoints :=
    hfilled
  refine ⟨htable ▸ hjoined.noEmptyQueue, fun b hb hba id => ?_, fun b post hpost _ v hv => ?_⟩
  · obtain rfl : b = a := hba
    rw [held, ← hsame, ← held, htable]
    exact hjoined.tally b hb rfl id
  · obtain rfl : post = [] := List.suffix_nil.1 hpost
    exact absurd hv List.not_mem_nil

section Step

variable {a : Bytes} {s t : Joining}

/-- What can happen without a call and with no event to handle: a change by others. -/
theorem step_unheard {r r' : Registry} {label : RegistryStep} (hquiet : r.pending = [])
    (hcall : label.isCall = false) (hstep : r.step label = some r') :
    (∃ key value, label = .put key value ∧ r'.hz = r.hz ∧ r'.subs = (putSub r.subs key value).1) ∨
      ∃ key value, label = .remove key value ∧ r'.hz = r.hz ∧
        r'.subs = (removeSub r.subs key value).1 := by
  cases label with
  | put key value =>
    obtain rfl := Option.some.inj hstep
    exact Or.inl ⟨key, value, rfl, rfl, rfl⟩
  | remove key value =>
    obtain rfl := Option.some.inj hstep
    exact Or.inr ⟨key, value, rfl, rfl, rfl⟩
  | addSub address port host => cases hcall
  | next address => cases hcall
  | entryAdded => simp [Registry.step, hquiet] at hstep
  | entryRemoved values own => simp [Registry.step, hquiet] at hstep

/-- Before the listener is there, changes by others leave the table alone. -/
theorem hz_of_unheard {r r' : Registry} {label : RegistryStep} (hquiet : r.pending = [])
    (hcall : label.isCall = false) (hstep : r.step label = some r') : r'.hz = r.hz := by
  obtain ⟨-, -, -, hhz, -⟩ | ⟨-, -, -, hhz, -⟩ := step_unheard hquiet hcall hstep
  · exact hhz
  · exact hhz

/-- In a quiet gap the multimap stays as it is for `a`. -/
theorem get_of_quietGap {rest : List (Bytes × ClusterNodeInfo)} {r : Registry}
    {label : RegistryStep} (hphase : s.phase = .filling rest) (hquiet : s.registry.pending = [])
    (hcall : label.isCall = false) (hgap : QuietGap a s (.registry label))
    (hstep : s.registry.step label = some r) : r.subs.get a = s.registry.subs.get a := by
  obtain ⟨key, value, rfl, -, hsubs⟩ | ⟨key, value, rfl, -, hsubs⟩ :=
    step_unheard hquiet hcall hstep
  · rw [hsubs]
    by_cases hkey : key = a
    · rw [putSub_of_mem (hgap rest hphase hkey)]
    · rw [putSub, SetMultimap.get_put, if_neg (Ne.symm hkey)]
  · rw [hsubs]
    by_cases hkey : key = a
    · rw [removeSub_of_notMem (hgap rest hphase hkey)]
    · rw [removeSub, SetMultimap.get_remove, if_neg (Ne.symm hkey)]

/-- **One step of a node that joins.** -/
theorem Tracks.step (h : Tracks a s) {label : JoinStep} (hsnap : Snapshot s label)
    (hgap : QuietGap a s label) (hstep : s.step label = some t) : Tracks a t := by
  obtain ⟨r, phase⟩ := s
  cases label with
  | entrySet entries =>
    cases phase with
    | started =>
      obtain rfl := Option.some.inj hstep
      exact ⟨h.1, r.subs, [], hsnap, rfl, h.2⟩
    | filling rest => cases hstep
    | listening => cases hstep
    | returned => cases hstep
  | fill =>
    cases phase with
    | started => cases hstep
    | filling rest =>
      cases rest with
      | nil => cases hstep
      | cons entry rest =>
        obtain ⟨hquiet, read, done, hentries, hsame, hfilled⟩ := h
        obtain rfl := Option.some.inj hstep
        refine ⟨hquiet, read, done ++ [entry], ?_, hsame, ?_⟩
        · rw [List.append_assoc]
          exact hentries
        · show pushEndpoint r.hz.localEndpoints entry.1 entry.2.serverId = _
          rw [hfilled, filledFrom, filledFrom, List.foldl_append]
          rfl
    | listening => cases hstep
    | returned => cases hstep
  | addEntryListener =>
    cases phase with
    | started => cases hstep
    | filling rest =>
      cases rest with
      | nil =>
        obtain ⟨hquiet, read, done, hentries, hsame, hfilled⟩ := h
        obtain rfl := Option.some.inj hstep
        rw [List.append_nil] at hentries
        show Inv (SameIds {a}) r.hz r.subs r.pending
        rw [hquiet]
        exact inv_of_filled hentries hsame hfilled
      | cons entry rest => cases hstep
    | listening => cases hstep
    | returned => cases hstep
  | putHaInfo =>
    cases phase with
    | started => cases hstep
    | filling rest => cases hstep
    | listening =>
      obtain rfl := Option.some.inj hstep
      exact h
    | returned => cases hstep
  | registry label =>
    rw [Joining.step, Option.ite_none_right_eq_some] at hstep
    obtain ⟨hallowed, hstep⟩ := hstep
    obtain ⟨r', hr', rfl⟩ := Option.map_eq_some_iff.1 hstep
    cases phase with
    | started =>
      have hcall : label.isCall = false := by simpa [JoinPhase.hasReturned] using hallowed
      refine ⟨rfl, ?_⟩
      show r'.hz.localEndpoints = .empty
      rw [hz_of_unheard h.1 hcall hr']
      exact h.2
    | filling rest =>
      have hcall : label.isCall = false := by simpa [JoinPhase.hasReturned] using hallowed
      obtain ⟨hquiet, read, done, hentries, hsame, hfilled⟩ := h
      refine ⟨rfl, read, done, hentries, ?_, ?_⟩
      · exact hsame.trans (get_of_quietGap rfl hquiet hcall hgap hr').symm
      · show r'.hz.localEndpoints = _
        rw [hz_of_unheard hquiet hcall hr']
        exact hfilled
    | listening => exact h.step_sameIds hr'
    | returned => exact h.step_sameIds hr'

end Step

section Runs

variable {nodeID : Bytes} {subs : Subs} {labels : List JoinStep} {s : Joining}

/-- **A quiet join loses nothing.**  In every run in which no change for an address takes
effect between the snapshot and the listener, when `join` has returned and no event is on its
way, the table holds for this address the endpoints the multimap holds. -/
theorem join_loses_nothing {a : Bytes} (hsnap : Meets step Snapshot (start nodeID subs) labels)
    (hgap : Meets step (QuietGap a) (start nodeID subs) labels)
    (hrun : run step (start nodeID subs) labels = some s) (hreturned : s.phase = .returned)
    (hquiet : s.registry.pending = []) (id : ServerID) :
    id ∈ endpointsOf s.registry.hz.localEndpoints a ↔
      ∃ v ∈ s.registry.subs.get a, v.serverId = id := by
  have htracks : Tracks a s :=
    (hsnap.and hgap).invariant (fun _ _ _ h hok hstep => h.step hok.1 hok.2 hstep) hrun
      (tracks_start a nodeID subs)
  unfold Tracks at htracks
  rw [hreturned, hquiet] at htracks
  exact htracks.mem_endpointsOf rfl id

/-- The consumer of `orders` is there before, and another comes when the listener is there;
one of `billing` comes between the snapshot and the listener. -/
def twoComing : List JoinStep :=
  [.entrySet [(bytes "orders", oldNode)], .registry (.put (bytes "billing") newNode), .fill,
    .addEntryListener, .registry (.put (bytes "orders") newNode), .putHaInfo,
    .registry .entryAdded]

theorem join_loses_nothing_orders :
    ∃ s, run step (start [] (oneSub oldNode)) twoComing = some s ∧
      (newNode.serverId ∈ endpointsOf s.registry.hz.localEndpoints (bytes "orders") ↔
        ∃ v ∈ s.registry.subs.get (bytes "orders"), v.serverId = newNode.serverId) := by
  have hrun : ∃ s, run step (start [] (oneSub oldNode)) twoComing = some s ∧
      s.phase = .returned ∧ s.registry.pending = [] := ⟨_, rfl, rfl, rfl⟩
  obtain ⟨s, hs, hreturned, hquiet⟩ := hrun
  have hsnap : Meets step Snapshot (start [] (oneSub oldNode)) twoComing :=
    ⟨isEntrySet_oneSub _, fun _ _ => meets_of_forall (by simp [Snapshot])⟩
  have hgap : Meets step (QuietGap (bytes "orders")) (start [] (oneSub oldNode)) twoComing := by
    refine ⟨trivial, ?_⟩
    rintro _ ⟨⟩
    refine ⟨fun _ _ h => absurd h (by decide), ?_⟩
    rintro _ ⟨⟩
    refine ⟨trivial, ?_⟩
    rintro _ ⟨⟩
    refine ⟨trivial, ?_⟩
    rintro _ ⟨⟩
    refine ⟨?_, fun _ _ => ⟨trivial, fun _ _ => ⟨trivial, fun _ _ => trivial⟩⟩⟩
    rintro rest ⟨⟩
  exact ⟨s, hs, join_loses_nothing hsnap hgap hs hreturned hquiet _⟩

/-- A consumer that is registered between the snapshot and the listener is not in the
table. -/
theorem change_between_lost :
    ¬ ∀ (nodeID : Bytes) (subs : Subs) (labels : List JoinStep) (s : Joining),
      Meets step Snapshot (start nodeID subs) labels →
      run step (start nodeID subs) labels = some s → s.phase = .returned →
      s.registry.pending = [] → ∀ a id, id ∈ endpointsOf s.registry.hz.localEndpoints a ↔
        ∃ v ∈ s.registry.subs.get a, v.serverId = id := by
  intro h
  have hrun : run step (start [] .empty)
      [.entrySet [], .registry (.put (bytes "orders") newNode), .addEntryListener, .putHaInfo]
      = some _ := rfl
  have hsnap : Meets step Snapshot (start [] .empty)
      [.entrySet [], .registry (.put (bytes "orders") newNode), .addEntryListener, .putHaInfo] :=
    ⟨SetMultimap.isEntrySet_empty, fun _ _ => ⟨trivial, fun _ _ => ⟨trivial, fun _ _ =>
      ⟨trivial, fun _ _ => trivial⟩⟩⟩⟩
  have hlost := (h _ _ _ _ hsnap hrun rfl rfl (bytes "orders") newNode.serverId).2
    ⟨newNode, by decide, rfl⟩
  exact absurd hlost (by decide)

end Runs

end Joining

end VertxCpp
