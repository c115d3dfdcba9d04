/-
# Queues that are turned round

A queue whose front is given out and goes to the back, and which grows at the back
in between.  `Op` is one thing done to it, `Op.apply` the queue afterwards, and
`given` what the turns of a whole sequence gave out.

Everything present at first is given out first and in order, however the queue
grows in between (`given_initial`), because what is pushed goes behind it and so
does what has been given out.  A queue that does not grow goes round and round
(`given_replicate`, `foldl_replicate`).
-/
import Mathlib

namespace RoundRobin

variable {α : Type*}

/-- The front is given out and goes to the back, or something is put there. -/
inductive Op (α : Type*) where
  | turn
  | push (x : α)

/-- The queue afterwards. -/
def Op.apply (q : List α) : Op α → List α
  | .turn => q.rotate 1
  | .push x => q ++ [x]

/-- What the turns of a sequence give out, `none` where the queue is empty. -/
def given : List α → List (Op α) → List (Option α)
  | _, [] => []
  | q, .turn :: ops => q.head? :: given (Op.apply q .turn) ops
  | q, .push x :: ops => given (Op.apply q (.push x)) ops

/-- **First come, first given out.**  Of a queue that begins with `q`, the turns give out
`q` first, as far as they go. -/
theorem given_initial (q s : List α) (ops : List (Op α)) :
    (given (q ++ s) ops).take q.length <+: q.map some := by
  induction ops generalizing q s with
  | nil => simp [given]
  | cons op ops ih =>
    cases op with
    | turn =>
      cases q with
      | nil => simp
      | cons x q =>
        have hturned : Op.apply (x :: q ++ s) .turn = q ++ (s ++ [x]) := by
          simp [Op.apply]
        rw [given, hturned, List.length_cons, List.cons_append, List.head?_cons,
          List.take_succ_cons, List.map_cons, List.prefix_cons_inj]
        exact ih q (s ++ [x])
    | push x =>
      have hpushed : Op.apply (q ++ s) (.push x) = q ++ (s ++ [x]) := by
        simp [Op.apply]
      rw [given, hpushed]
      exact ih q (s ++ [x])

/-- The queue after `k` turns. -/
theorem foldl_replicate (q : List α) (k : ℕ) :
    (List.replicate k Op.turn).foldl Op.apply q = q.rotate k := by
  induction k generalizing q with
  | zero => simp
  | succ k ih => rw [List.replicate_succ, List.foldl_cons, ih, Op.apply, List.rotate_rotate,
      Nat.add_comm]

/-- **Round and round.**  Of a queue that does not grow, the `i`-th turn gives out what
stands `i` places behind the front, counted round. -/
theorem given_replicate (q : List α) (k : ℕ) :
    given q (List.replicate k .turn) = (List.range k).map fun i => q[i % q.length]? := by
  induction k generalizing q with
  | zero => rfl
  | succ k ih =>
    rw [List.replicate_succ, given, ih, List.range_succ_eq_map, List.map_cons, List.map_map,
      Op.apply, List.length_rotate]
    congr 1
    · rw [Nat.zero_mod, List.head?_eq_getElem?]
    · refine List.map_congr_left fun i _ => ?_
      rcases Nat.eq_zero_or_pos q.length with hq | hq
      · rw [List.length_eq_zero_iff.1 hq]
        simp
      · rw [List.getElem?_rotate (Nat.mod_lt _ hq), Function.comp_apply, Nat.mod_add_mod]

end RoundRobin
