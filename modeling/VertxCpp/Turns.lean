/-
# Whose turn it is

`next` and `entryAdded` of `src/vertx/hazelcast_cluster.cpp`, called in any order for
any addresses, with `entryRemoved` for other addresses in between.  What happens to
the queue of one address is what happens to a queue that is turned round
(`endpointsOf_turn`, `results_toOption`), so `next` gives out the endpoints of an
address in the order of its queue, and an endpoint that is added later has to wait for
all that were there (`next_in_turn`).
-/
import VertxCpp.Hazelcast
import VertxCpp.Library.RoundRobin

namespace VertxCpp

open RoundRobin

/-- A call of `next`, an `entryAdded` event, or an `entryRemoved` event with what
`_subs->get` returns. -/
inductive Turn where
  | next (address : Bytes)
  | entryAdded (key : Bytes) (value : ClusterNodeInfo)
  | entryRemoved (key : Bytes) (values : List ClusterNodeInfo)

namespace HazelcastCluster

/-- The table afterwards; a call of `next` that throws leaves it alone. -/
def turn (hz : HazelcastCluster) : Turn → HazelcastCluster
  | .next address =>
    match hz.next address with
    | .ok (_, hz) => hz
    | .error _ => hz
  | .entryAdded key value => hz.entryAdded key value
  | .entryRemoved key values => hz.rebuild key values

/-- What the calls `next(a)` of a sequence return. -/
def results (a : Bytes) : HazelcastCluster → List Turn → List (Except Fault ServerID)
  | _, [] => []
  | hz, .next address :: ts =>
    if address = a then (hz.next a).map Prod.fst :: results a (hz.turn (.next address)) ts
    else results a (hz.turn (.next address)) ts
  | hz, .entryAdded key value :: ts => results a (hz.turn (.entryAdded key value)) ts
  | hz, .entryRemoved key values :: ts => results a (hz.turn (.entryRemoved key values)) ts

/-- What a step means to the queue of `a`. -/
def opOf (a : Bytes) : Turn → Option (Op ServerID)
  | .next address => if address = a then some .turn else none
  | .entryAdded key value => if key = a then some (.push value.serverId) else none
  | .entryRemoved _ _ => none

section Queue

variable {hz : HazelcastCluster} {a : Bytes}

theorem next_toOption (hz : HazelcastCluster) (a : Bytes) :
    ((hz.next a).map Prod.fst).toOption = (endpointsOf hz.localEndpoints a).head? := by
  rw [next, endpointsOf]
  cases hz.localEndpoints.find a with
  | none => rfl
  | some queue => cases queue <;> rfl

/-- **`next` turns one queue round** and leaves the others. -/
theorem endpointsOf_next (hz : HazelcastCluster) (address a : Bytes) :
    endpointsOf (hz.turn (.next address)).localEndpoints a
      = if address = a then (endpointsOf hz.localEndpoints a).rotate 1
        else endpointsOf hz.localEndpoints a := by
  rw [turn, next]
  cases hfind : hz.localEndpoints.find address with
  | none =>
    split_ifs with ha
    · subst ha
      simp [endpointsOf, hfind]
    · rfl
  | some queue =>
    cases queue with
    | nil =>
      split_ifs with ha
      · subst ha
        simp [endpointsOf, hfind]
      · rfl
    | cons id queue =>
      dsimp only
      rw [endpointsOf, endpointsOf, Table.find_assign]
      split_ifs with h₁ h₂ h₂
      · subst h₁
        simp [hfind]
      · exact absurd h₁.symm h₂
      · exact absurd h₂.symm h₁
      · rfl

/-- **One step** on the queue of `a`. -/
theorem endpointsOf_turn (hz : HazelcastCluster) {t : Turn}
    (ht : ∀ values, t ≠ .entryRemoved a values) :
    endpointsOf (hz.turn t).localEndpoints a
      = (opOf a t).elim (endpointsOf hz.localEndpoints a)
          (Op.apply (endpointsOf hz.localEndpoints a)) := by
  cases t with
  | next address =>
    rw [endpointsOf_next, opOf]
    split_ifs <;> rfl
  | entryAdded key value =>
    rw [turn, entryAdded, endpointsOf_pushEndpoint, opOf]
    by_cases hkey : key = a
    · rw [if_pos hkey, if_pos hkey.symm]
      rfl
    · rw [if_neg hkey, if_neg (Ne.symm hkey), List.append_nil]
      rfl
  | entryRemoved key values =>
    have hkey : a ≠ key := fun h => ht values (by rw [h])
    rw [turn, endpointsOf_rebuild, if_neg hkey]
    rfl

/-- **A whole run** on the queue of `a`. -/
theorem endpointsOf_foldl_turn (hz : HazelcastCluster) {ts : List Turn}
    (hts : ∀ values, .entryRemoved a values ∉ ts) :
    endpointsOf (ts.foldl turn hz).localEndpoints a
      = (ts.filterMap (opOf a)).foldl Op.apply (endpointsOf hz.localEndpoints a) := by
  induction ts generalizing hz with
  | nil => rfl
  | cons t ts ih =>
    have hstep := endpointsOf_turn hz fun values h => hts values (h ▸ List.mem_cons_self)
    rw [List.foldl_cons, ih _ fun values h => hts values (List.mem_cons_of_mem _ h), hstep]
    cases hop : opOf a t with
    | none => rw [List.filterMap_cons_none hop, Option.elim]
    | some op => rw [List.filterMap_cons_some hop, List.foldl_cons, Option.elim]

/-- **What the calls return** is what the turns of the queue give out. -/
theorem results_toOption (hz : HazelcastCluster) {ts : List Turn}
    (hts : ∀ values, .entryRemoved a values ∉ ts) :
    (results a hz ts).map Except.toOption
      = given (endpointsOf hz.localEndpoints a) (ts.filterMap (opOf a)) := by
  induction ts generalizing hz with
  | nil => rfl
  | cons t ts ih =>
    have hstep := endpointsOf_turn hz fun values h => hts values (h ▸ List.mem_cons_self)
    have hrest := ih (hz.turn t) fun values h => hts values (List.mem_cons_of_mem _ h)
    rw [hstep] at hrest
    cases t with
    | next address =>
      rw [results]
      by_cases ha : address = a
      · have hop : opOf a (.next address) = some .turn := if_pos ha
        rw [hop] at hrest
        rw [if_pos ha, List.filterMap_cons_some hop, List.map_cons, hrest, next_toOption]
        rfl
      · have hop : opOf a (.next address) = none := if_neg ha
        rw [hop] at hrest
        rw [if_neg ha, List.filterMap_cons_none hop, hrest]
        rfl
    | entryAdded key value =>
      rw [results, hrest]
      by_cases ha : key = a
      · have hop : opOf a (.entryAdded key value) = some (.push value.serverId) := if_pos ha
        rw [List.filterMap_cons_some hop, hop]
        rfl
      · have hop : opOf a (.entryAdded key value) = none := if_neg ha
        rw [List.filterMap_cons_none hop, hop]
        rfl
    | entryRemoved key values =>
      rw [results, hrest]
      rfl

/-- No endpoint is pushed where no event adds one. -/
theorem opOf_eq_turn {t : Turn} (ht : ∀ value, t ≠ .entryAdded a value) {op : Op ServerID}
    (hop : opOf a t = some op) : op = .turn := by
  cases t with
  | next address =>
    rw [opOf] at hop
    split_ifs at hop
    exact (Option.some.inj hop).symm
  | entryAdded key value =>
    rw [opOf] at hop
    split_ifs at hop with hkey
    exact absurd (by rw [hkey]) (ht value)
  | entryRemoved key values => cases hop

/-- **Calls alone** turn the queue as often as there are calls. -/
theorem filterMap_opOf (hz : HazelcastCluster) {ts : List Turn}
    (hts : ∀ values, .entryRemoved a values ∉ ts) (hadd : ∀ value, .entryAdded a value ∉ ts) :
    ts.filterMap (opOf a) = List.replicate (results a hz ts).length .turn := by
  have hall : ts.filterMap (opOf a)
      = List.replicate (ts.filterMap (opOf a)).length Op.turn := by
    refine List.eq_replicate_iff.2 ⟨rfl, fun op hop => ?_⟩
    obtain ⟨t, ht, hop⟩ := List.mem_filterMap.1 hop
    exact opOf_eq_turn (fun value h => hadd value (h ▸ ht)) hop
  have hlen := congrArg List.length (results_toOption hz hts)
  rw [hall, given_replicate] at hlen
  simp only [List.length_map, List.length_range] at hlen
  rw [hlen]
  exact hall

/-- A call that gives out an endpoint returns it. -/
theorem getElem?_results {ts : List Turn} {k : ℕ} {id : ServerID}
    (h : ((results a hz ts).map Except.toOption)[k]? = some (some id)) :
    (results a hz ts)[k]? = some (.ok id) := by
  rw [List.getElem?_map, Option.map_eq_some_iff] at h
  obtain ⟨r, hr, hid⟩ := h
  cases r with
  | error e => cases hid
  | ok i =>
    obtain rfl := Option.some.inj hid
    exact hr

/-- `next` leaves the queues of all other addresses alone. -/
theorem find_next_of_ne (hz : HazelcastCluster) {a b : Bytes} (hb : b ≠ a) :
    (hz.turn (.next a)).localEndpoints.find b = hz.localEndpoints.find b := by
  rw [turn, next]
  cases hz.localEndpoints.find a with
  | none => rfl
  | some queue =>
    cases queue with
    | nil => rfl
    | cons id queue => exact Table.find_assign_of_ne _ _ hb

/-- **Everyone gets a turn, in the order of the queue.**  The call `next(a)` after `p`
others returns what stood at position `p` of the queue, whatever has been added
meanwhile.  Where nothing is added the calls go round the queue, and turn it by as many
places; and every single call keeps the endpoints of its address and the queues of all
others. -/
theorem next_in_turn {q : List ServerID} (hq : hz.localEndpoints.find a = some q)
    {ts : List Turn} (hts : ∀ values, .entryRemoved a values ∉ ts) :
    (∀ p id, q[p]? = some id → p < (results a hz ts).length →
      (results a hz ts)[p]? = some (.ok id)) ∧
    ((∀ value, .entryAdded a value ∉ ts) → q ≠ [] →
      (∀ k < (results a hz ts).length, ∃ id, q[k % q.length]? = some id ∧
        (results a hz ts)[k]? = some (.ok id)) ∧
      endpointsOf (ts.foldl turn hz).localEndpoints a
        = q.rotate ((results a hz ts).length % q.length)) ∧
    ∀ hz : HazelcastCluster,
      (endpointsOf (hz.turn (.next a)).localEndpoints a).Perm (endpointsOf hz.localEndpoints a) ∧
      ∀ b, b ≠ a → (hz.turn (.next a)).localEndpoints.find b = hz.localEndpoints.find b := by
  have hqueue : endpointsOf hz.localEndpoints a = q := by rw [endpointsOf, hq, Option.getD_some]
  have hgiven := results_toOption hz hts
  rw [hqueue] at hgiven
  refine ⟨fun p id hp hlt => ?_, fun hadd hne => ⟨fun k hk => ?_, ?_⟩,
    fun hz => ⟨?_, fun b hb => find_next_of_ne hz hb⟩⟩
  · obtain ⟨hpq, -⟩ := List.getElem?_eq_some_iff.1 hp
    have hfirst := given_initial q [] (ts.filterMap (opOf a))
    rw [List.append_nil, ← hgiven] at hfirst
    have hget := List.prefix_iff_getElem?.1 hfirst p (by simp; omega)
    rw [List.getElem?_map, hp, Option.map_some] at hget
    refine getElem?_results ?_
    rw [List.getElem?_eq_getElem (by simpa using hlt), hget, List.getElem_take]
  · rw [filterMap_opOf hz hts hadd, given_replicate] at hgiven
    have hlt : k % q.length < q.length := Nat.mod_lt _ (List.length_pos_iff.2 hne)
    refine ⟨q[k % q.length], List.getElem?_eq_getElem hlt, getElem?_results ?_⟩
    rw [hgiven, List.getElem?_map, List.getElem?_range hk, Option.map_some,
      List.getElem?_eq_getElem hlt]
  · rw [endpointsOf_foldl_turn hz hts, filterMap_opOf hz hts hadd, foldl_replicate, hqueue,
      List.rotate_mod]
  · rw [endpointsOf_next, if_pos rfl]
    exact List.rotate_perm _ _

end Queue

/-- A table with three endpoints for `orders`. -/
def threeOrders : HazelcastCluster where
  nodeID := bytes "n1"
  localSubs := []
  localEndpoints := Table.empty.assign (bytes "orders")
    [⟨15701, bytes "10.0.0.1"⟩, ⟨15702, bytes "10.0.0.2"⟩, ⟨15703, bytes "10.0.0.3"⟩]

theorem next_in_turn_three :
    (results (bytes "orders") threeOrders
      [.next (bytes "orders"), .entryAdded (bytes "orders") ⟨bytes "n4", ⟨15704, bytes "10.0.0.4"⟩⟩,
        .next (bytes "billing"), .next (bytes "orders"), .next (bytes "orders")])[2]?
      = some (.ok ⟨15703, bytes "10.0.0.3"⟩) :=
  (@next_in_turn threeOrders _ _ (Table.find_assign_self _ _ _) _ (by simp)).1 2 _ rfl (by decide)

end HazelcastCluster

end VertxCpp
