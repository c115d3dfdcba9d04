/-
# What a program leaves alone

Programs that change a state and may end in an exception.  A program respects a relation
if the state it ends in, whichever way it ends, is related to the one it started in.  A
preorder goes through the whole of a program if it goes through each of its steps: it
need only be asked of what changes the state (`respects_modify`), and is carried along
the binds (`Respects.bind`).
-/
import Mathlib

namespace Program

universe u

variable {σ ε α β : Type u} {R : σ → σ → Prop}

/-- From whatever state the program starts, it ends in a related one. -/
def Respects (R : σ → σ → Prop) (x : ExceptT ε (StateM σ) α) : Prop := ∀ s, R s (x.run s).2

/-- **One program behind another.**  If the first throws, the second does not run. -/
theorem Respects.bind [IsTrans σ R] {x : ExceptT ε (StateM σ) α} {f : α → ExceptT ε (StateM σ) β}
    (hx : Respects R x) (hf : ∀ a, Respects R (f a)) : Respects R (x >>= f) := by
  intro s
  have hs := hx s
  show R s (ExceptT.bindCont f (x.run s).1 (x.run s).2).2
  revert hs
  obtain ⟨r, s'⟩ := x.run s
  cases r with
  | error e => exact fun hs => hs
  | ok a => exact fun hs => IsTrans.trans _ _ _ hs (hf a _)

theorem respects_pure [Std.Refl R] (a : α) : Respects R (pure a : ExceptT ε (StateM σ) α) :=
  fun s => refl s

theorem respects_throw [Std.Refl R] (e : ε) : Respects R (throw e : ExceptT ε (StateM σ) α) :=
  fun s => refl s

theorem respects_get [Std.Refl R] : Respects R (get : ExceptT ε (StateM σ) σ) := fun s => refl s

theorem respects_modify {f : σ → σ} (hf : ∀ s, R s (f s)) :
    Respects R (modify f : ExceptT ε (StateM σ) PUnit) := hf

end Program
