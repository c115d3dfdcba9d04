/-
# Closures that interleave are closures in a row

The closures of a bus interleave at every access to its tables (`VertxCpp.Loops`).  What they
come to is nevertheless what the same closures come to one after another, in the order in
which they took effect: the same results, the same calls and frames, and the same tables where
all loops are idle (`serializable`).  That order keeps the order of closures that do not
overlap.

`_resp_mutex` alone does not give this, since a request is in two sections of it.  Between
them its key is in `_publishers`, and a reply to the key finds the function there before the
request does.  What is needed besides is that nobody else uses the key of a request that is
under way (`Apart`), which is what the uuid is for.

The proof keeps the bus of the loops beside the bus of the closures in a row.  They differ at
the keys of closures under way, and at each of them in a known way (`Follows`).
-/
import VertxCpp.Footprint

namespace VertxCpp

open EventBus Machine

/-! ### Closures in a row -/

/-- Closures one after another: the bus they leave, and what came of each. -/
def serial {F : Type} (encode : ClusteredMessage → Except Fault F) (b : EventBus) :
    List (Job F) → EventBus × List (Ended F)
  | [] => (b, [])
  | job :: jobs =>
    let run := exec (job.action encode) ⟨b, []⟩
    let rest := serial encode run.2.bus jobs
    (rest.1, (job, run.1, run.2.effects) :: rest.2)

theorem serial_append_singleton {F : Type} (encode : ClusteredMessage → Except Fault F)
    (b : EventBus) (jobs : List (Job F)) (job : Job F) :
    serial encode b (jobs ++ [job])
      = let before := serial encode b jobs
        let run := exec (job.action encode) ⟨before.1, []⟩
        (run.2.bus, before.2 ++ [(job, run.1, run.2.effects)]) := by
  induction jobs generalizing b with
  | nil => rfl
  | cons first jobs ih =>
    rw [List.cons_append, serial, serial, ih]
    rfl

namespace Loops

variable {ι F : Type}

/-- What comes of the closure of a loop, if it has taken effect. -/
def owed (encode : ClusteredMessage → Except Fault F) (b : EventBus) :
    Option (Job F × Point F) → Multiset (Ended F)
  | some (job, point) =>
    if point.settled then
      {(job, (job.finish encode b point).1, (job.finish encode b point).2.effects)}
    else 0
  | none => 0

/-- The closure of a loop, if it has not. -/
def pending : Option (Job F × Point F) → Multiset (Job F)
  | some (job, point) => if point.settled then 0 else {job}
  | none => 0

/-- Nobody else uses the key of a request: a closure begins only if none with its key is under
way, unless both are messages that came in. -/
def Apart (s : Loops ι F) : LoopStep ι F → Prop
  | .begin _ job => ∀ j job' point, s.running j = some (job', point) → job'.key = job.key →
      job.asks = false ∧ job'.asks = false
  | .turn _ => True

/-- How the tables of the bus `b` follow those of the bus `a`, on which each closure runs when
it takes effect. -/
structure Follows (encode : ClusteredMessage → Except Fault F)
    (running : ι → Option (Job F × Point F)) (a b : EventBus) : Prop where
  consumers : a.consumers = b.consumers
  elsewhere : ∀ k, (∀ i job point, running i = some (job, point) → job.key = k →
    job.asks = false ∧ point.settled = false) → a.publishers.find k = b.publishers.find k
  asked : ∀ i job point, running i = some (job, point) → job.asks = true →
    point.settled = false →
    (job.listed a point).publishers.find job.key = b.publishers.find job.key
  settled : ∀ i job point, running i = some (job, point) → point.settled = true →
    a.publishers.find job.key = (job.finish encode b point).2.bus.publishers.find job.key

/-- **The loops follow their closures in a row.** -/
structure Sim [Fintype ι] (encode : ClusteredMessage → Except Fault F) (b₀ : EventBus)
    (s : Loops ι F) : Prop where
  guarded : Guarded s
  apart : ∀ i j job job' point point', s.running i = some (job, point) →
    s.running j = some (job', point') → i ≠ j → job.key = job'.key → job.asks = false
  inHand : ∀ i job point, s.running i = some (job, point) → job.InHand point
  asAlone : ∀ i job point, s.running i = some (job, point) → point.settled = false →
    job.AsAlone encode b₀ point
  options : s.bus.options = b₀.options ∧ (serial encode b₀ s.order).1.options = b₀.options
  consumersLocal : s.bus.consumersLocal = b₀.consumersLocal ∧
    (serial encode b₀ s.order).1.consumersLocal = b₀.consumersLocal
  follows : Follows encode s.running (serial encode b₀ s.order).1 s.bus
  outcomes : (s.finished : Multiset (Ended F)) + ∑ i, owed encode s.bus (s.running i)
    = (serial encode b₀ s.order).2
  begun : (s.order : Multiset (Job F)) + ∑ i, pending (s.running i) = s.begun

theorem sim_start [Fintype ι] (encode : ClusteredMessage → Except Fault F) (b₀ : EventBus) :
    Sim encode b₀ (start b₀ : Loops ι F) where
  guarded := guarded_start b₀
  apart _ _ _ _ _ _ h := by cases h
  inHand _ _ _ h := by cases h
  asAlone _ _ _ h := by cases h
  options := ⟨rfl, rfl⟩
  consumersLocal := ⟨rfl, rfl⟩
  follows := ⟨rfl, fun _ _ => rfl, fun _ _ _ h => (by cases h), fun _ _ _ h => (by cases h)⟩
  outcomes := by simp [start, owed, serial]
  begun := by simp [start, pending]

section Steps

variable {encode : ClusteredMessage → Except Fault F} {b₀ a a' b b' : EventBus}
  {running : ι → Option (Job F × Point F)} {s t : Loops ι F} {i j : ι} {job job' : Job F}
  {point point' : Point F}

/-- **One loop goes on**: what the tables of all loops need of it. -/
theorem Follows.update [DecidableEq ι] (h : Follows encode running a b)
    (hrunning : running i = some (job, point))
    (hinHand : ∀ i job point, running i = some (job, point) → job.InHand point)
    (ha : Within false job.key a a') (hb : Within false job.key b b')
    (hconsumers : a'.consumers = b'.consumers)
    (hothers : ∀ j job' point', j ≠ i → running j = some (job', point') →
      point'.settled = true ∨ job'.asks = true → job'.key = job.key → a' = a ∧ b' = b)
    {next : Option (Job F × Point F)}
    (helsewhere : (∀ j job' point', j ≠ i → running j = some (job', point') →
        job'.key = job.key → job'.asks = false ∧ point'.settled = false) →
      (∀ point', next = some (job, point') → job.asks = false ∧ point'.settled = false) →
      a'.publishers.find job.key = b'.publishers.find job.key)
    (hself : ∀ job' point', next = some (job', point') → job' = job ∧
      (job.asks = true → point'.settled = false →
        (job.listed a' point').publishers.find job.key = b'.publishers.find job.key) ∧
      (point'.settled = true → a'.publishers.find job.key
        = (job.finish encode b' point').2.bus.publishers.find job.key)) :
    Follows encode (Function.update running i next) a' b' where
  consumers := hconsumers
  elsewhere k hk := by
    by_cases hkey : k = job.key
    · subst hkey
      refine helsewhere (fun j job' point' hj hj' => hk j job' point' ?_) fun point' hnext =>
        hk i job point' ?_ rfl
      · rwa [Function.update_of_ne hj]
      · rwa [Function.update_self]
    · rw [ha.publishers k hkey, hb.publishers k hkey]
      refine h.elsewhere k fun j job' point' hj hj' => hk j job' point' ?_ hj'
      have hji : j ≠ i := by
        rintro rfl
        rw [hrunning] at hj
        cases hj
        exact hkey hj'.symm
      rwa [Function.update_of_ne hji]
  asked j job' point' hj hasks hsettled := by
    by_cases hji : j = i
    · subst hji
      rw [Function.update_self] at hj
      obtain ⟨rfl, hasked, -⟩ := hself job' point' hj
      exact hasked hasks hsettled
    · rw [Function.update_of_ne hji] at hj
      by_cases hkey : job'.key = job.key
      · obtain ⟨rfl, rfl⟩ := hothers j job' point' hji hj (Or.inr hasks) hkey
        exact h.asked j job' point' hj hasks hsettled
      · rw [Job.listed_alike (ha.alike hkey), hb.publishers _ hkey]
        exact h.asked j job' point' hj hasks hsettled
  settled j job' point' hj hsettled := by
    by_cases hji : j = i
    · subst hji
      rw [Function.update_self] at hj
      obtain ⟨rfl, -, hself⟩ := hself job' point' hj
      exact hself hsettled
    · rw [Function.update_of_ne hji] at hj
      by_cases hkey : job'.key = job.key
      · obtain ⟨rfl, rfl⟩ := hothers j job' point' hji hj (Or.inl hsettled) hkey
        exact h.settled j job' point' hj hsettled
      · have halike : Alike point'.settled job'.key b b' := by
          rw [hsettled]
          exact hb.alike hkey
        obtain ⟨-, -, hfinish⟩ :=
          Job.finish_alike encode (hinHand j job' point' hj) halike
        rw [ha.publishers _ hkey, hfinish.entry]
        exact h.settled j job' point' hj hsettled

variable [Fintype ι]

/-- A loop whose closure has taken effect, or is that of a request, stands in no other's way. -/
theorem Sim.others (h : Sim encode b₀ s) (hrunning : s.running i = some (job, point)) (hji : j ≠ i)
    (hj : s.running j = some (job', point')) (hat : point'.settled = true ∨ job'.asks = true)
    (hkey : job'.key = job.key) :
    job.asks = false ∧ point.settled = false ∧
      (job.advance encode s.bus point).2.settled = false := by
  have hasks := h.apart i j job job' point point' hrunning hj hji.symm hkey.symm
  have hasks' := h.apart j i job' job point' point hj hrunning hji hkey
  have hin := h.inHand i job point hrunning
  have hsettled' : point'.settled = true := hat.resolve_right (by rw [hasks']; simp)
  obtain ⟨hholds', hmark⟩ := Job.holds_of_settled (h.inHand j job' point' hj) hsettled' hasks'
  have hfree : point.holds ≠ true := fun hholds => hji <| Option.some.inj <|
    ((h.guarded j).2 ⟨job', point', hj, hholds'⟩).symm.trans
      ((h.guarded i).2 ⟨job, point, hrunning, hholds⟩)
  have hsettled : point.settled = false := by
    by_contra hsettled
    exact hfree (Job.holds_of_settled hin (by simpa using hsettled) hasks).1
  refine ⟨hasks, hsettled, ?_⟩
  by_contra heffect
  rcases Job.holds_of_effect hin hsettled hasks (by simpa using heffect) with hholds | hno
  · exact hfree hholds
  · exact hno (hkey ▸ hmark)

/-- **A closure that has not taken effect** finds what it would find in a row, where no other
with its key has taken effect. -/
theorem Sim.alike (h : Sim encode b₀ s) (hrunning : s.running i = some (job, point))
    (hsettled : point.settled = false)
    (hquiet : job.asks = false → ∀ j job' point', j ≠ i → s.running j = some (job', point') →
      job'.key = job.key → point'.settled = false) :
    Alike false job.key s.bus (job.listed (serial encode b₀ s.order).1 point) := by
  have hin := h.inHand i job point hrunning
  have hlisted := Job.listed_within true job (serial encode b₀ s.order).1 point
  refine ⟨hlisted.options.trans (h.options.2.trans h.options.1.symm),
    hlisted.consumersLocal.trans (h.consumersLocal.2.trans h.consumersLocal.1.symm),
    fun _ => (hlisted.consumers rfl).trans h.follows.consumers, ?_⟩
  cases hasks : job.asks with
  | true => exact h.follows.asked i job point hrunning hasks hsettled
  | false =>
    rw [Job.listed_of_not_asks hin hasks]
    refine h.follows.elsewhere _ fun j job' point' hj hkey => ?_
    by_cases hji : j = i
    · subst hji
      rw [hrunning] at hj
      cases hj
      exact ⟨hasks, hsettled⟩
    · exact ⟨h.apart j i job' job point' point hj hrunning hji hkey,
        hquiet hasks j job' point' hji hj hkey⟩

/-- Where a turn leaves the loop. -/
def next (job : Job F) : Progress F → Option (Job F × Point F)
  | .go point => some (job, point)
  | .stop _ _ => none

variable {progress : Progress F}

/-- A turn behind the one that took effect changes the tables alone. -/
theorem Sim.follows_settled [DecidableEq ι] (h : Sim encode b₀ s)
    (hrunning : s.running i = some (job, point))
    (hadvance : job.advance encode s.bus point = (b', progress)) (hsettled : point.settled = true) :
    Follows encode (Function.update s.running i (next job progress))
      (serial encode b₀ s.order).1 b' := by
  have hin := h.inHand i job point hrunning
  have hwithin := Job.advance_within encode (b := s.bus) hin
  have howed := h.follows.settled i job point hrunning hsettled
  rw [hadvance, hsettled] at hwithin
  rw [Job.finish_eq, hadvance] at howed
  refine h.follows.update hrunning h.inHand (.refl _ _ _) hwithin.loosen
    (h.follows.consumers.trans (hwithin.consumers rfl).symm)
    (fun j job' point' hji hj hat hkey => ?_) (fun _ hnext => ?_) fun job' point' hnext => ?_
  · obtain ⟨-, hno, -⟩ := h.others hrunning hji hj hat hkey
    rw [hsettled] at hno
    cases hno
  · cases progress with
    | stop r es => exact howed
    | go point' =>
      have hgo := Job.settled_of_advance hsettled (congrArg Prod.snd hadvance)
      rw [(hnext point' rfl).2] at hgo
      cases hgo
  · cases progress with
    | stop r es => cases hnext
    | go point' =>
      cases hnext
      refine ⟨rfl, fun _ hno => ?_, fun _ => howed⟩
      have hgo := Job.settled_of_advance hsettled (congrArg Prod.snd hadvance)
      rw [hno] at hgo
      cases hgo

/-- So does a turn in front of it. -/
theorem Sim.follows_quiet [DecidableEq ι] (h : Sim encode b₀ s)
    (hrunning : s.running i = some (job, point))
    (hadvance : job.advance encode s.bus point = (b', .go point'))
    (hsettled : point.settled = false) (hsettled' : point'.settled = false) :
    Follows encode (Function.update s.running i (some (job, point')))
      (serial encode b₀ s.order).1 b' := by
  have hin := h.inHand i job point hrunning
  have hgo : (job.advance encode s.bus point).2 = .go point' := congrArg Prod.snd hadvance
  have hwithin := Job.advance_within encode (b := s.bus) hin
  obtain ⟨hconsumers, hquiet⟩ := Job.advance_quiet hin hgo hsettled'
  rw [hadvance] at hwithin hconsumers hquiet
  rw [hsettled] at hwithin
  refine h.follows.update hrunning h.inHand (.refl _ _ _) hwithin
    (h.follows.consumers.trans hconsumers.symm)
    (fun j job' point' hji hj hat hkey => ?_) (fun hothers hnext => ?_) fun job' point'' hnext => ?_
  · exact ⟨rfl, hquiet (h.others hrunning hji hj hat hkey).1⟩
  · have hasks := (hnext point' rfl).1
    rw [hquiet hasks]
    refine h.follows.elsewhere _ fun j job' point' hj hkey => ?_
    by_cases hji : j = i
    · subst hji
      rw [hrunning] at hj
      cases hj
      exact ⟨hasks, hsettled⟩
    · exact hothers j job' point' hji hj hkey
  · cases hnext
    refine ⟨rfl, fun hasks _ => ?_, fun hno => ?_⟩
    · have halike := h.alike hrunning hsettled fun hno => by rw [hasks] at hno; cases hno
      have hturn := (Job.advance_alike encode hin (hsettled ▸ halike)).2
      rw [hadvance, Job.advance_listed hin (h.options.2.trans h.options.1.symm)
        (h.consumersLocal.2.trans h.consumersLocal.1.symm) hgo hsettled'] at hturn
      exact hturn.entry
    · rw [hsettled'] at hno
      cases hno

/-- **With the turn that takes effect**, what the loop has left to do is what the closure does in
a row. -/
theorem Sim.finish_effect (h : Sim encode b₀ s) (hrunning : s.running i = some (job, point))
    (hsettled : point.settled = false)
    (heffect : (job.advance encode s.bus point).2.settled = true) :
    (exec (job.action encode) ⟨(serial encode b₀ s.order).1, []⟩).1
        = (job.finish encode s.bus point).1 ∧
      (exec (job.action encode) ⟨(serial encode b₀ s.order).1, []⟩).2.effects
        = (job.finish encode s.bus point).2.effects ∧
      Alike false job.key (job.finish encode s.bus point).2.bus
        (exec (job.action encode) ⟨(serial encode b₀ s.order).1, []⟩).2.bus ∧
      Within false job.key (serial encode b₀ s.order).1
        (exec (job.action encode) ⟨(serial encode b₀ s.order).1, []⟩).2.bus := by
  have hin := h.inHand i job point hrunning
  have halike := h.alike hrunning hsettled fun _ j job' point' hji hj hkey => by
    by_contra hno
    have hquiet := (h.others hrunning hji hj (Or.inl (by simpa using hno)) hkey).2.2
    rw [heffect] at hquiet
    cases hquiet
  obtain ⟨hresult, heffects, hfinal⟩ :=
    Job.finish_alike encode hin (hsettled ▸ halike)
  rw [h.asAlone i job point hrunning hsettled _ h.options.2 h.consumersLocal.2]
  refine ⟨hresult, heffects, hsettled ▸ hfinal, ?_⟩
  have hrest := Job.finish_within encode
    (b := job.listed (serial encode b₀ s.order).1 point) hin
  rw [hsettled] at hrest
  exact (Job.listed_within false job _ point).trans hrest

theorem Sim.follows_effect [DecidableEq ι] (h : Sim encode b₀ s)
    (hrunning : s.running i = some (job, point))
    (hadvance : job.advance encode s.bus point = (b', progress))
    (hsettled : point.settled = false) (heffect : progress.settled = true) :
    Follows encode (Function.update s.running i (next job progress))
      (exec (job.action encode) ⟨(serial encode b₀ s.order).1, []⟩).2.bus b' := by
  have hin := h.inHand i job point hrunning
  have hwithin := Job.advance_within encode (b := s.bus) hin
  have heffect' : (job.advance encode s.bus point).2.settled = true := by
    rw [hadvance]
    exact heffect
  obtain ⟨-, -, halike, ha⟩ := h.finish_effect hrunning hsettled heffect'
  rw [hadvance, hsettled] at hwithin
  rw [Job.finish_eq, hadvance] at halike
  refine h.follows.update hrunning h.inHand ha hwithin ?_
    (fun j job' point' hji hj hat hkey => ?_) (fun _ hnext => ?_) fun job' point' hnext => ?_
  · rw [halike.consumers rfl]
    cases progress with
    | stop r es => rfl
    | go point' =>
      have hin' := hin.advance (congrArg Prod.snd hadvance)
      exact (Job.finish_within encode (b := b') hin').consumers heffect
  · have hquiet := (h.others hrunning hji hj hat hkey).2.2
    rw [heffect'] at hquiet
    cases hquiet
  · cases progress with
    | stop r es => exact halike.entry
    | go point' =>
      have hno : point'.settled = true := heffect
      rw [(hnext point' rfl).2] at hno
      cases hno
  · cases progress with
    | stop r es => cases hnext
    | go point' =>
      cases hnext
      refine ⟨rfl, fun _ hno => ?_, fun _ => halike.entry⟩
      have hyes : point'.settled = true := heffect
      rw [hno] at hyes
      cases hyes

/-- What the other loops owe does not change in a turn. -/
theorem Sim.owed_turn [DecidableEq ι] (h : Sim encode b₀ s)
    (hrunning : s.running i = some (job, point))
    (hadvance : job.advance encode s.bus point = (b', progress)) :
    ∑ j, owed encode b' (Function.update s.running i (next job progress) j)
        + owed encode s.bus (some (job, point))
      = ∑ j, owed encode s.bus (s.running j) + owed encode b' (next job progress) := by
  have hin := h.inHand i job point hrunning
  have hwithin := Job.advance_within encode (b := s.bus) hin
  rw [hadvance] at hwithin
  have hsum := sum_of_one_changed (f := fun j => owed encode s.bus (s.running j))
    (g := fun j => owed encode b' (Function.update s.running i (next job progress) j)) (i := i)
    fun j hji => ?_
  · simpa [hrunning] using hsum
  rw [Function.update_of_ne hji]
  cases hj : s.running j with
  | none => rfl
  | some closure =>
    obtain ⟨job', point'⟩ := closure
    rw [owed, owed]
    cases hsettled' : point'.settled with
    | false => rfl
    | true =>
      have halike : Alike point'.settled job'.key s.bus b' := by
        rw [hsettled']
        by_cases hkey : job'.key = job.key
        · obtain ⟨hasks, -, hno⟩ := h.others hrunning hji hj (Or.inl hsettled') hkey
          rw [hadvance] at hno
          cases progress with
          | stop r es => cases hno
          | go point'' =>
            have hsame := (Job.advance_quiet hin (congrArg Prod.snd hadvance) hno).2 hasks
            rw [hadvance] at hsame
            obtain rfl : b' = s.bus := hsame
            exact ⟨rfl, rfl, fun _ => rfl, rfl⟩
        · exact hwithin.alike hkey
      obtain ⟨hresult, heffects, -⟩ :=
        Job.finish_alike encode (h.inHand j job' point' hj) halike
      rw [hresult, heffects]

omit [Fintype ι] in
theorem pending_turn [Fintype ι] [DecidableEq ι] (running : ι → Option (Job F × Point F)) (i : ι)
    (x : Option (Job F × Point F)) :
    ∑ j, pending (Function.update running i x j) + pending (running i)
      = ∑ j, pending (running j) + pending x := by
  have h := sum_of_one_changed (f := fun j => pending (running j))
    (g := fun j => pending (Function.update running i x j)) (i := i)
    fun j hj => by rw [Function.update_of_ne hj]
  simpa using h

omit [Fintype ι] in
/-- After a turn every loop runs the closure it ran. -/
theorem running_of_turn [DecidableEq ι] (hrunning : s.running i = some (job, point))
    (hj : Function.update s.running i (next job progress) j = some (job', point')) :
    ∃ before, s.running j = some (job', before) ∧
      ((j = i ∧ job' = job ∧ progress = .go point') ∨ (j ≠ i ∧ before = point')) := by
  by_cases hji : j = i
  · subst hji
    rw [Function.update_self] at hj
    cases progress with
    | stop r es => cases hj
    | go point'' =>
      cases hj
      exact ⟨point, hrunning, Or.inl ⟨rfl, rfl, rfl⟩⟩
  · rw [Function.update_of_ne hji] at hj
    exact ⟨point', hj, Or.inr ⟨hji, rfl⟩⟩

/-- What comes of a closure with a turn. -/
def ended (job : Job F) : Progress F → List (Ended F)
  | .go _ => []
  | .stop r es => [(job, r, es)]

section AfterTurn

omit [Fintype ι]
variable [DecidableEq ι] (s : Loops ι F) (i : ι) (job : Job F) (point : Point F) (b' : EventBus)
  (progress : Progress F)

theorem running_afterTurn : (s.afterTurn i job point (b', progress)).running
    = Function.update s.running i (next job progress) := by
  cases progress <;> rfl

theorem bus_afterTurn : (s.afterTurn i job point (b', progress)).bus = b' := by
  cases progress <;> rfl

theorem begun_afterTurn : (s.afterTurn i job point (b', progress)).begun = s.begun := by
  cases progress <;> rfl

theorem finished_afterTurn :
    (s.afterTurn i job point (b', progress)).finished = s.finished ++ ended job progress := by
  cases progress with
  | go point' => exact (List.append_nil _).symm
  | stop r es => rfl

theorem order_afterTurn : (s.afterTurn i job point (b', progress)).order
    = if takesEffect point progress then s.order ++ [job] else s.order := by
  cases progress <;> rfl

end AfterTurn

omit [Fintype ι] in
/-- What a closure comes to from here on is what comes of it, or what it owes after the turn. -/
theorem ended_add_owed (hadvance : job.advance encode b point = (b', progress))
    (heffect : progress.settled = true) :
    (ended job progress : Multiset (Ended F)) + owed encode b' (next job progress)
      = {(job, (job.finish encode b point).1, (job.finish encode b point).2.effects)} := by
  rw [Job.finish_eq, hadvance]
  cases progress with
  | stop r es => rfl
  | go point' =>
    have hsettled : point'.settled = true := heffect
    rw [next, owed, if_pos hsettled, ended, Multiset.coe_nil, zero_add]
    rfl

/-- **A turn**, with what is to be shown of each kind of it. -/
theorem Sim.of_turn [DecidableEq ι] (h : Sim encode b₀ s)
    (hrunning : s.running i = some (job, point))
    (hadvance : job.advance encode s.bus point = (b', progress))
    (hguarded : Guarded (s.afterTurn i job point (b', progress))) (order : List (Job F))
    (horder : (s.afterTurn i job point (b', progress)).order = order)
    (ha : Within false job.key (serial encode b₀ s.order).1 (serial encode b₀ order).1)
    (hfollows : Follows encode (Function.update s.running i (next job progress))
      (serial encode b₀ order).1 b')
    (houtcomes : (ended job progress : Multiset (Ended F)) + owed encode b' (next job progress)
        + (serial encode b₀ s.order).2
      = (serial encode b₀ order).2 + owed encode s.bus (some (job, point)))
    (hbegun : (order : Multiset (Job F)) + pending (next job progress)
      = s.order + pending (some (job, point))) :
    Sim encode b₀ (s.afterTurn i job point (b', progress)) where
  guarded := hguarded
  apart j j' job₁ job₂ p₁ p₂ hj hj' hne hkey := by
    rw [running_afterTurn] at hj hj'
    obtain ⟨q₁, hq₁, -⟩ := running_of_turn hrunning hj
    obtain ⟨q₂, hq₂, -⟩ := running_of_turn hrunning hj'
    exact h.apart j j' job₁ job₂ q₁ q₂ hq₁ hq₂ hne hkey
  inHand j job' point' hj := by
    rw [running_afterTurn] at hj
    obtain ⟨before, hbefore, ⟨rfl, rfl, rfl⟩ | ⟨-, rfl⟩⟩ := running_of_turn hrunning hj
    · exact (h.inHand j _ point hrunning).advance (congrArg Prod.snd hadvance)
    · exact h.inHand j job' before hbefore
  asAlone j job' point' hj hsettled' := by
    rw [running_afterTurn] at hj
    obtain ⟨before, hbefore, ⟨rfl, rfl, rfl⟩ | ⟨-, rfl⟩⟩ := running_of_turn hrunning hj
    · have hgo := congrArg Prod.snd hadvance
      have hsettled : point.settled = false := by
        by_contra hyes
        have hyes' := Job.settled_of_advance (by simpa using hyes) hgo
        rw [hsettled'] at hyes'
        cases hyes'
      exact (h.asAlone j _ point hrunning hsettled).advance (h.inHand j _ point hrunning)
        h.options.1 h.consumersLocal.1 hgo hsettled'
    · exact h.asAlone j job' before hbefore hsettled'
  options := by
    have hb := Job.advance_within encode (b := s.bus) (h.inHand i job point hrunning)
    rw [hadvance] at hb
    rw [bus_afterTurn, horder]
    exact ⟨hb.options.trans h.options.1, ha.options.trans h.options.2⟩
  consumersLocal := by
    have hb := Job.advance_within encode (b := s.bus) (h.inHand i job point hrunning)
    rw [hadvance] at hb
    rw [bus_afterTurn, horder]
    exact ⟨hb.consumersLocal.trans h.consumersLocal.1,
      ha.consumersLocal.trans h.consumersLocal.2⟩
  follows := by
    rw [running_afterTurn, bus_afterTurn, horder]
    exact hfollows
  outcomes := by
    have hsum := h.owed_turn hrunning hadvance
    rw [running_afterTurn, bus_afterTurn, finished_afterTurn, horder, ← Multiset.coe_add]
    refine add_right_cancel (b := owed encode s.bus (some (job, point))) ?_
    rw [add_assoc, hsum, ← houtcomes, ← h.outcomes]
    abel
  begun := by
    have hsum := pending_turn s.running i (next job progress)
    rw [hrunning] at hsum
    rw [running_afterTurn, begun_afterTurn, horder, ← h.begun]
    refine add_right_cancel (b := pending (some (job, point))) ?_
    rw [add_assoc, hsum, add_comm (∑ j, pending (s.running j)), ← add_assoc, hbegun]
    abel

theorem Sim.turn [DecidableEq ι] (h : Sim encode b₀ s)
    (hrunning : s.running i = some (job, point))
    (hadvance : job.advance encode s.bus point = (b', progress))
    (hguarded : Guarded (s.afterTurn i job point (b', progress))) :
    Sim encode b₀ (s.afterTurn i job point (b', progress)) := by
  have horder := order_afterTurn s i job point b' progress
  cases hsettled : point.settled with
  | true =>
    have heffect : progress.settled = true := by
      cases progress with
      | stop r es => rfl
      | go point' => exact Job.settled_of_advance hsettled (congrArg Prod.snd hadvance)
    rw [takesEffect, hsettled] at horder
    refine h.of_turn hrunning hadvance hguarded s.order horder (.refl _ _ _)
      (h.follows_settled hrunning hadvance hsettled) ?_ ?_
    · rw [ended_add_owed hadvance heffect, owed, if_pos hsettled, add_comm]
    · have hnext : pending (next job progress) = 0 := by
        cases progress with
        | stop r es => rfl
        | go point' => exact if_pos heffect
      rw [hnext, pending, if_pos hsettled]
  | false =>
    have hnone : owed encode s.bus (some (job, point)) = 0 := if_neg (by simp [hsettled])
    have hself : pending (some (job, point)) = {job} := if_neg (by simp [hsettled])
    cases heffect : progress.settled with
    | true =>
      rw [takesEffect, hsettled, heffect] at horder
      have heffect' : (job.advance encode s.bus point).2.settled = true := by
        rw [hadvance]
        exact heffect
      obtain ⟨hresult, heffects, -, ha⟩ := h.finish_effect hrunning hsettled heffect'
      refine h.of_turn hrunning hadvance hguarded (s.order ++ [job]) horder ?_ ?_ ?_ ?_
      · rw [serial_append_singleton]
        exact ha
      · rw [serial_append_singleton]
        exact h.follows_effect hrunning hadvance hsettled heffect
      · rw [serial_append_singleton, ended_add_owed hadvance heffect, hnone]
        dsimp only
        rw [hresult, heffects, ← Multiset.coe_add, add_comm, add_zero]
        rfl
      · have hnext : pending (next job progress) = 0 := by
          cases progress with
          | stop r es => rfl
          | go point' => exact if_pos heffect
        rw [hnext, hself, ← Multiset.coe_add, add_zero]
        rfl
    | false =>
      cases progress with
      | stop r es => cases heffect
      | go point' =>
        have hsettled' : point'.settled = false := heffect
        rw [takesEffect, hsettled, heffect] at horder
        refine h.of_turn hrunning hadvance hguarded s.order horder (.refl _ _ _)
          (h.follows_quiet hrunning hadvance hsettled hsettled') ?_ ?_
        · rw [hnone, next, owed, if_neg (by simp [hsettled'])]
          simp [ended]
        · rw [hself, next, pending, if_neg (by simp [hsettled'])]

omit [Fintype ι] in
theorem running_of_begin [DecidableEq ι]
    (hj : Function.update s.running i (some (job, .begun)) j = some (job', point')) :
    (j = i ∧ job' = job ∧ point' = .begun) ∨ (j ≠ i ∧ s.running j = some (job', point')) := by
  by_cases hji : j = i
  · subst hji
    rw [Function.update_self] at hj
    cases hj
    exact Or.inl ⟨rfl, rfl, rfl⟩
  · rw [Function.update_of_ne hji] at hj
    exact Or.inr ⟨hji, hj⟩

/-- **A closure begins.** -/
theorem Sim.begin [DecidableEq ι] (h : Sim encode b₀ s) (hidle : s.running i = none)
    (hapart : s.Apart (.begin i job))
    (hguarded : Guarded { s with running := Function.update s.running i (some (job, .begun)),
                                 begun := s.begun ++ [job] }) :
    Sim encode b₀ { s with running := Function.update s.running i (some (job, .begun)),
                           begun := s.begun ++ [job] } where
  guarded := hguarded
  apart j j' job₁ job₂ p₁ p₂ hj hj' hne hkey := by
    rcases running_of_begin hj with ⟨rfl, rfl, rfl⟩ | ⟨-, hold⟩ <;>
      rcases running_of_begin hj' with ⟨rfl, rfl, rfl⟩ | ⟨-, hold'⟩
    · exact absurd rfl hne
    · exact (hapart j' job₂ p₂ hold' hkey.symm).1
    · exact (hapart j job₁ p₁ hold hkey).2
    · exact h.apart j j' job₁ job₂ p₁ p₂ hold hold' hne hkey
  inHand j job' point' hj := by
    rcases running_of_begin hj with ⟨rfl, rfl, rfl⟩ | ⟨-, hj⟩
    · trivial
    · exact h.inHand j job' point' hj
  asAlone j job' point' hj hsettled' := by
    rcases running_of_begin hj with ⟨rfl, rfl, rfl⟩ | ⟨-, hj⟩
    · exact Job.asAlone_begun job' b₀
    · exact h.asAlone j job' point' hj hsettled'
  options := h.options
  consumersLocal := h.consumersLocal
  follows := by
    have hrunning : ∀ j job' point', s.running j = some (job', point') →
        Function.update s.running i (some (job, .begun)) j = some (job', point') := by
      intro j job' point' hj
      rw [Function.update_of_ne, hj]
      rintro rfl
      rw [hidle] at hj
      cases hj
    refine ⟨h.follows.consumers, fun k hk => ?_, fun j job' point' hj hasks hsettled => ?_,
      fun j job' point' hj hsettled => ?_⟩
    · exact h.follows.elsewhere k fun j job' point' hj => hk j job' point' (hrunning j _ _ hj)
    · rcases running_of_begin hj with ⟨rfl, rfl, rfl⟩ | ⟨-, hj⟩
      · refine h.follows.elsewhere _ fun j' job'' point' hj' hkey => ?_
        have hno := (hapart j' job'' point' hj' hkey).1
        rw [hasks] at hno
        cases hno
      · exact h.follows.asked j job' point' hj hasks hsettled
    · rcases running_of_begin hj with ⟨rfl, rfl, rfl⟩ | ⟨-, hj⟩
      · cases hsettled
      · exact h.follows.settled j job' point' hj hsettled
  outcomes := by
    have hsum := sum_of_one_changed (f := fun j => owed encode s.bus (s.running j))
      (g := fun j => owed encode s.bus (Function.update s.running i (some (job, .begun)) j))
      (i := i) fun j hji => by rw [Function.update_of_ne hji]
    simp only [hidle, Function.update_self] at hsum
    rw [← h.outcomes]
    exact congrArg _ (by simpa [owed, Point.settled] using hsum)
  begun := by
    have hsum := pending_turn s.running i (some (job, .begun))
    rw [hidle] at hsum
    rw [← Multiset.coe_add, ← h.begun, add_assoc]
    exact congrArg _ (by simpa [pending, Point.settled] using hsum)

/-- **One step.** -/
theorem Sim.step [DecidableEq ι] (h : Sim encode b₀ s) (label : LoopStep ι F)
    (hapart : s.Apart label) (hstep : s.step encode label = some t) : Sim encode b₀ t := by
  have hguarded := h.guarded.step hstep
  cases does_of_step hstep with
  | begin i job hidle => exact h.begin hidle hapart hguarded
  | go i job point point' b hrunning hadvance hfree => exact h.turn hrunning hadvance hguarded
  | stop i job point b r es hrunning hadvance => exact h.turn hrunning hadvance hguarded

end Steps

/-! ### Runs -/

section Runs

variable [DecidableEq ι] {encode : ClusteredMessage → Except Fault F} {bus : EventBus}
  {s t r : Loops ι F}

/-- The order in which closures took effect only grows. -/
theorem order_prefix_of_step {label : LoopStep ι F} (hstep : s.step encode label = some t) :
    s.order <+: t.order := by
  cases does_of_step hstep with
  | begin i job hidle => exact List.prefix_refl _
  | go i job point point' b hrunning hadvance hfree =>
    rw [order_afterTurn]
    split_ifs
    · exact List.prefix_append _ _
    · exact List.prefix_refl _
  | stop i job point b result es hrunning hadvance =>
    rw [order_afterTurn]
    split_ifs
    · exact List.prefix_append _ _
    · exact List.prefix_refl _

/-- What is part of a sum of pools is in the whole. -/
theorem subperm_of_add_eq {α : Type*} {l m : List α} {x : Multiset α}
    (h : (l : Multiset α) + x = m) : l.Subperm m := by
  rw [← Multiset.coe_le, ← h]
  exact Multiset.le_add_right _ _

/-- **Closures that interleave come to what they come to in a row.**  In every run where nobody
else uses the key of a request that is under way, what has come of closures by any time is what
comes of them one after another, in the order in which they took effect; closures begun later
come later in it.  Where all loops are idle the bus is the one that all closures begun leave in
this order. -/
theorem serializable [Fintype ι] {before after : List (LoopStep ι F)}
    (hapart : Meets (Loops.step encode) Apart (start bus) (before ++ after))
    (hbefore : Machine.run (Loops.step encode) (start bus) before = some r)
    (hafter : Machine.run (Loops.step encode) r after = some s) :
    r.finished.Subperm (serial encode bus r.order).2 ∧ r.order.Subperm r.begun ∧
      r.order <+: s.order ∧
      ((∀ i, s.running i = none) → s.bus = (serial encode bus s.order).1 ∧
        s.finished.Perm (serial encode bus s.order).2 ∧ s.order.Perm s.begun) := by
  obtain ⟨hapartBefore, hapartAfter⟩ := hapart.of_append
  have hstep : ∀ (s : Loops ι F) label t, Sim encode bus s → s.Apart label →
      s.step encode label = some t → Sim encode bus t :=
    fun _ label _ h hapart hstep => h.step label hapart hstep
  have hr := hapartBefore.invariant hstep hbefore (sim_start encode bus)
  have hs := (hapartAfter r hbefore).invariant hstep hafter hr
  refine ⟨subperm_of_add_eq hr.outcomes, subperm_of_add_eq hr.begun, ?_, fun hidle => ?_⟩
  · exact run_invariant (I := fun t : Loops ι F => r.order <+: t.order)
      (fun _ _ _ h hstep => h.trans (order_prefix_of_step hstep)) hafter (List.prefix_refl _)
  · have houtcomes := hs.outcomes
    have hbegun := hs.begun
    simp only [hidle, owed, pending, Finset.sum_const_zero, add_zero, Multiset.coe_eq_coe]
      at houtcomes hbegun
    refine ⟨?_, houtcomes, hbegun⟩
    have hpublishers : (serial encode bus s.order).1.publishers = s.bus.publishers := by
      ext1
      funext k
      exact hs.follows.elsewhere k fun i job point hi => by rw [hidle i] at hi; cases hi
    have hoptions := hs.options.1.trans hs.options.2.symm
    have hlocal := hs.consumersLocal.1.trans hs.consumersLocal.2.symm
    have hconsumers := hs.follows.consumers
    cases hbus : s.bus
    cases hrow : (serial encode bus s.order).1
    rw [hbus, hrow] at hpublishers hoptions hlocal hconsumers
    cases hpublishers
    cases hoptions
    cases hlocal
    cases hconsumers
    rfl

/-- A request for another node, and a message for the consumer of this one that comes in while
the request is in its section of `_resp_mutex`. -/
theorem serializable_overlap :
    ∃ s, Machine.run (Loops.step .ok) (start ordersBus)
        [.begin false ordersRequest, .turn false, .turn false, .begin true ordersMessage,
          .turn true, .turn false, .turn true, .turn false] = some s ∧
      s.finished.Perm (serial .ok ordersBus s.order).2 := by
  have hstart : Machine.run (Loops.step .ok) (start ordersBus : Loops Bool ClusteredMessage) []
      = some (start ordersBus) := rfl
  have hrun : Machine.run (Loops.step .ok) (start ordersBus : Loops Bool ClusteredMessage)
      [.begin false ordersRequest, .turn false, .turn false, .begin true ordersMessage,
        .turn true, .turn false, .turn true, .turn false] = some _ := rfl
  refine ⟨_, hrun, ((serializable ?_ hstart hrun).2.2.2 ?_).2.1⟩
  · refine ⟨fun _ _ _ h => (by cases h), ?_⟩
    rintro _ ⟨⟩
    refine ⟨trivial, ?_⟩
    rintro _ ⟨⟩
    refine ⟨trivial, ?_⟩
    rintro _ ⟨⟩
    refine ⟨?_, fun _ _ => meets_of_forall ?_⟩
    · rintro (_ | _) job point ⟨⟩ hkey
      cases hkey
    · simp [Apart]
  · rintro (_ | _) <;> rfl

/-- A request for the consumer of this node. -/
def ownRequest : Job ClusteredMessage := { ordersRequest with next := .ok ⟨1, bytes "a"⟩ }

/-- A message to the reply address of that request. -/
def ownReply : Job ClusteredMessage :=
  { ordersMessage with
    task := .onMessage (requestMessage (replyAddress [1]) [] 2 (bytes "b") .empty) }

/-- A reply that comes in before the consumer has answered.  Neither closure throws, which they
do not come to in a row. -/
example :
    ∃ s, Machine.run (Loops.step .ok) (start ordersBus)
        (.begin false ownRequest :: List.replicate 4 (.turn false) ++
          .begin true ownReply :: List.replicate 6 (.turn true) ++
          List.replicate 2 (.turn false)) = some s ∧
      s.finished.map (fun ended => ended.2.1) = [.ok (), .ok ()] ∧
      (serial .ok ordersBus [ownRequest, ownReply]).2.map (fun ended => ended.2.1)
        = [.ok (), .error .badFunctionCall] ∧
      (serial .ok ordersBus [ownReply, ownRequest]).2.map (fun ended => ended.2.1)
        = [.error .badFunctionCall, .error .badFunctionCall] :=
  ⟨_, rfl, rfl, rfl, rfl⟩

end Runs

end Loops

end VertxCpp
