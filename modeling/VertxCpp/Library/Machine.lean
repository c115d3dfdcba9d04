/-
# Labelled machines and their runs

A machine is a partial step function `σ → α → Option σ`: a label names what
happens next, by whom and with which outcome of everything the environment
decides, and the step is `none` where that cannot happen.  An interleaving of
actors is then a list of labels, and a statement about every interleaving is a
statement about every list (`run`).

Two induction rules carry a property of one step to all runs: `run_invariant` for
a property that every step preserves, and `Meets.invariant` for one that only the
steps taken where a condition holds preserve.  `run_history` is for what the past of a
run says of its state.  `spent_le` bounds what a run may
spend, and `exists_run_to_rest` leads a machine to where it stops, by steps that lower a
rank.
-/
import Mathlib

namespace Machine

variable {σ α : Type*}

/-- The state after the labels of a list, `none` where one of them is not
possible. -/
def run (step : σ → α → Option σ) : σ → List α → Option σ
  | s, [] => some s
  | s, a :: as => (step s a).bind fun t => run step t as

/-- Every step of the run is taken in a state and by a label that `ok` allows. -/
def Meets (step : σ → α → Option σ) (ok : σ → α → Prop) : σ → List α → Prop
  | _, [] => True
  | s, a :: as => ok s a ∧ ∀ t, step s a = some t → Meets step ok t as

variable {step : σ → α → Option σ} {ok : σ → α → Prop} {I : σ → Prop} {s t : σ} {a : α}
  {as : List α}

theorem run_cons_eq_some :
    run step s (a :: as) = some t ↔ ∃ r, step s a = some r ∧ run step r as = some t :=
  Option.bind_eq_some_iff

/-- **The guarded induction rule.**  What every allowed step preserves holds at the
end of a run all of whose steps are allowed. -/
theorem Meets.invariant (hok : Meets step ok s as)
    (hstep : ∀ s a t, I s → ok s a → step s a = some t → I t) (hrun : run step s as = some t)
    (hs : I s) : I t := by
  induction as generalizing s with
  | nil =>
    obtain rfl : s = t := Option.some.inj hrun
    exact hs
  | cons a as ih =>
    obtain ⟨r, hr, hrt⟩ := run_cons_eq_some.1 hrun
    exact ih (hok.2 r hr) hrt (hstep s a r hs hok.1 hr)

theorem run_append_eq_some {bs : List α} :
    run step s (as ++ bs) = some t ↔ ∃ r, run step s as = some r ∧ run step r bs = some t := by
  induction as generalizing s with
  | nil => simp [run]
  | cons a as ih =>
    rw [List.cons_append, run_cons_eq_some]
    constructor
    · rintro ⟨r, hr, hrt⟩
      obtain ⟨r', hr', hrt'⟩ := ih.1 hrt
      exact ⟨r', run_cons_eq_some.2 ⟨r, hr, hr'⟩, hrt'⟩
    · rintro ⟨r', hr', hrt'⟩
      obtain ⟨r, hr, hrr⟩ := run_cons_eq_some.1 hr'
      exact ⟨r, hr, ih.2 ⟨r', hrr, hrt'⟩⟩

/-- **A run can be stopped at each of its labels**: before it, behind it, and what is
left. -/
theorem exists_step_of_mem (hrun : run step s as = some t) (ha : a ∈ as) :
    ∃ before r r' after, run step s before = some r ∧ step r a = some r' ∧
      run step r' after = some t := by
  obtain ⟨before, after, rfl⟩ := List.append_of_mem ha
  obtain ⟨r, hr, hrt⟩ := run_append_eq_some.1 hrun
  obtain ⟨r', hr', hrt'⟩ := run_cons_eq_some.1 hrt
  exact ⟨before, r, r', after, hr, hr', hrt'⟩

theorem Meets.and {ok' : σ → α → Prop} (h : Meets step ok s as) (h' : Meets step ok' s as) :
    Meets step (fun s a => ok s a ∧ ok' s a) s as := by
  induction as generalizing s with
  | nil => trivial
  | cons a as ih => exact ⟨⟨h.1, h'.1⟩, fun t ht => ih (h.2 t ht) (h'.2 t ht)⟩

/-- What is allowed goes on behind what is allowed. -/
theorem Meets.append {bs : List α} (h : Meets step ok s as)
    (hbs : ∀ t, run step s as = some t → Meets step ok t bs) : Meets step ok s (as ++ bs) := by
  induction as generalizing s with
  | nil => exact hbs s rfl
  | cons a as ih =>
    refine ⟨h.1, fun r hr => ih (h.2 r hr) fun t ht => hbs t ?_⟩
    exact run_cons_eq_some.2 ⟨r, hr, ht⟩

/-- What is allowed is allowed in front and behind. -/
theorem Meets.of_append {bs : List α} (h : Meets step ok s (as ++ bs)) :
    Meets step ok s as ∧ ∀ t, run step s as = some t → Meets step ok t bs := by
  induction as generalizing s with
  | nil =>
    refine ⟨trivial, fun t ht => ?_⟩
    obtain rfl := Option.some.inj ht
    exact h
  | cons a as ih =>
    refine ⟨⟨h.1, fun r hr => (ih (h.2 r hr)).1⟩, fun t ht => ?_⟩
    obtain ⟨r, hr, hrt⟩ := run_cons_eq_some.1 ht
    exact (ih (h.2 r hr)).2 t hrt

/-- What a run meets, label by label. -/
theorem meets_iff_split : Meets step ok s as ↔
    ∀ before a after, as = before ++ a :: after → ∀ r, run step s before = some r → ok r a := by
  constructor
  · rintro h before a after rfl r hr
    exact (h.of_append.2 r hr).1
  · intro h
    induction as generalizing s with
    | nil => trivial
    | cons a as ih =>
      refine ⟨h [] a as rfl s rfl, fun r hr => ih fun before b after has q hq => ?_⟩
      refine h (a :: before) b after (by rw [has, List.cons_append]) q ?_
      exact run_cons_eq_some.2 ⟨r, hr, hq⟩

/-- What is allowed in every state is allowed along a run. -/
theorem meets_of_forall (h : ∀ a ∈ as, ∀ s, ok s a) : Meets step ok s as := by
  induction as generalizing s with
  | nil => trivial
  | cons a as ih =>
    exact ⟨h a List.mem_cons_self s, fun t _ => ih fun b hb => h b (List.mem_cons_of_mem a hb)⟩

theorem meets_true (s : σ) (as : List α) : Meets step (fun _ _ => True) s as :=
  meets_of_forall fun _ _ _ => trivial

/-- **The induction rule.**  What every step preserves holds after every run. -/
theorem run_invariant (hstep : ∀ s a t, I s → step s a = some t → I t)
    (hrun : run step s as = some t) (hs : I s) : I t :=
  (meets_true s as).invariant (fun s a t h _ ht => hstep s a t h ht) hrun hs

/-- **The rule of the past.**  What each step carries over from the labels before it to the labels
with it holds of the labels of a run and its last state. -/
theorem run_history {P : List α → σ → Prop}
    (hstep : ∀ as s a t, P as s → step s a = some t → P (as ++ [a]) t)
    (hrun : run step s as = some t) (hs : P [] s) : P as t := by
  induction as using List.reverseRecOn generalizing t with
  | nil =>
    obtain rfl := Option.some.inj hrun
    exact hs
  | append_singleton as a ih =>
    obtain ⟨r, hr, hrt⟩ := run_append_eq_some.1 hrun
    obtain ⟨t', ht, hlast⟩ := run_cons_eq_some.1 hrt
    obtain rfl := Option.some.inj hlast
    exact hstep as r a t' (ih hr) ht

/-- **The rule of a budget.**  Where every step pays what it spends out of its rank, or out of
what it adds to the budget, so does a run. -/
theorem spent_le (rank budget : σ → ℕ) (spent : α → ℕ)
    (hstep : ∀ s a t, I s → step s a = some t →
      I t ∧ rank t + spent a + budget s ≤ rank s + budget t)
    (hrun : run step s as = some t) (hs : I s) :
    rank t + (as.map spent).sum + budget s ≤ rank s + budget t := by
  induction as generalizing s with
  | nil =>
    obtain rfl : s = t := Option.some.inj hrun
    simp
  | cons a as ih =>
    obtain ⟨r, hr, hrt⟩ := run_cons_eq_some.1 hrun
    obtain ⟨hI, hfirst⟩ := hstep s a r hs hr
    have hrest := ih hrt hI
    rw [List.map_cons, List.sum_cons]
    omega

section Rest

variable {rank : σ → ℕ} {inner : α → Prop} {resting : σ → Prop}
  (hdown : ∀ s a t, I s → inner a → step s a = some t → I t ∧ rank t < rank s)
include hdown

/-- Steps that each lower the rank are no more than the rank. -/
theorem length_le_rank (hs : I s) (hinner : ∀ a ∈ as, inner a) (hrun : run step s as = some t) :
    as.length + rank t ≤ rank s := by
  induction as generalizing s with
  | nil =>
    obtain rfl := Option.some.inj hrun
    simp
  | cons a as ih =>
    obtain ⟨r, hr, hrt⟩ := run_cons_eq_some.1 hrun
    obtain ⟨hI, hlower⟩ := hdown s a r hs (hinner a List.mem_cons_self) hr
    have hrest := ih hI (fun b hb => hinner b (List.mem_cons_of_mem _ hb)) hrt
    rw [List.length_cons]
    omega

/-- **A machine runs down.**  Where one of these steps is possible as long as it is not at rest,
they lead to rest. -/
theorem exists_run_to_rest
    (hgo : ∀ s, I s → ¬ resting s → ∃ a t, inner a ∧ step s a = some t) (hs : I s) :
    ∃ as t, (∀ a ∈ as, inner a) ∧ run step s as = some t ∧ I t ∧ resting t := by
  induction hrank : rank s using Nat.strong_induction_on generalizing s with
  | h n ih =>
    by_cases hrest : resting s
    · exact ⟨[], s, by simp, rfl, hs, hrest⟩
    · obtain ⟨a, r, ha, hr⟩ := hgo s hs hrest
      obtain ⟨hI, hlower⟩ := hdown s a r hs ha hr
      obtain ⟨as, t, hinner, hrun, ht⟩ := ih (rank r) (hrank ▸ hlower) hI rfl
      exact ⟨a :: as, t, List.forall_mem_cons.2 ⟨ha, hinner⟩, run_cons_eq_some.2 ⟨r, hr, hrun⟩, ht⟩

end Rest

/-- Taking the element at index `k` out of a pool, whose elements have no order. -/
def pick {β : Type*} (l : List β) (k : ℕ) : Option (β × List β) :=
  l[k]?.map fun b => (b, l.eraseIdx k)

/-- **What is taken out and what stays** make up the pool. -/
theorem perm_of_pick {β : Type*} {l rest : List β} {k : ℕ} {b : β} (h : pick l k = some (b, rest)) :
    l.Perm (b :: rest) := by
  induction l generalizing k rest with
  | nil => simp [pick] at h
  | cons x l ih =>
    cases k with
    | zero =>
      obtain ⟨rfl, rfl⟩ : x = b ∧ l = rest := by simpa [pick] using h
      exact List.Perm.refl _
    | succ k =>
      obtain ⟨hb, rfl⟩ : l[k]? = some b ∧ x :: l.eraseIdx k = rest := by simpa [pick] using h
      have hrest : l.Perm (b :: l.eraseIdx k) := ih (k := k) (by simp [pick, hb])
      exact (hrest.cons x).trans (List.Perm.swap b x _)

/-- **One actor changes**: what all of them make up together changes by what it does. -/
theorem sum_of_one_changed {ι M : Type*} [Fintype ι] [DecidableEq ι] [AddCommMonoid M] {f g : ι → M}
    {i : ι} (h : ∀ j, j ≠ i → g j = f j) : ∑ j, g j + f i = ∑ j, f j + g i := by
  have hrest : ∑ j ∈ Finset.univ.erase i, g j = ∑ j ∈ Finset.univ.erase i, f j :=
    Finset.sum_congr rfl fun j hj => h j (Finset.ne_of_mem_erase hj)
  rw [← Finset.add_sum_erase _ g (Finset.mem_univ i),
    ← Finset.add_sum_erase _ f (Finset.mem_univ i), hrest]
  abel

end Machine
