/-
# Readers that take what was written

A reader takes bytes from the front of its input and leaves the rest, or fails.  `Reads r bs out`
says what it comes to on input that begins with `bs`, whatever is behind: it takes these bytes
and no other, or fails.  The rules compose along `do` (`Reads.bind`) and repeat
(`Reads.many`), so that a reader is proved right piece by piece, as it is written.
-/
import Mathlib

/-- Takes bytes from the front of the input. -/
abbrev Reader (ε α : Type) := StateT (List UInt8) (Except ε) α

namespace Reader

variable {ε α β : Type}

/-- On input that begins with `bs` the reader comes to `out`, and has taken `bs` if it returns. -/
def Reads (r : Reader ε α) (bs : List UInt8) (out : Except ε α) : Prop :=
  ∀ rest, r.run (bs ++ rest) = out.map fun a => (a, rest)

theorem Reads.pure (a : α) : Reads (pure a : Reader ε α) [] (.ok a) := fun _ => rfl

theorem Reads.throw (e : ε) : Reads (throw e : Reader ε α) [] (.error e) := fun _ => rfl

/-- **One reader, then another.** -/
theorem Reads.bind {r : Reader ε α} {f : α → Reader ε β} {bs cs : List UInt8} {a : α}
    {out : Except ε β} (hr : Reads r bs (.ok a)) (hf : Reads (f a) cs out) :
    Reads (r >>= f) (bs ++ cs) out := by
  intro rest
  rw [StateT.run_bind, List.append_assoc, hr (cs ++ rest)]
  exact hf rest

/-- What fails takes the rest with it. -/
theorem Reads.bind_error {r : Reader ε α} {bs : List UInt8} {e : ε} (hr : Reads r bs (.error e))
    (f : α → Reader ε β) (cs : List UInt8) : Reads (r >>= f) (bs ++ cs) (.error e) := by
  intro rest
  rw [StateT.run_bind, List.append_assoc, hr (cs ++ rest)]
  rfl

/-- What is made of the value read. -/
theorem Reads.map {r : Reader ε α} {bs : List UInt8} {out : Except ε α} (hr : Reads r bs out)
    (f : α → β) : Reads (r >>= fun a => Pure.pure (f a)) bs (out.map f) := by
  intro rest
  rw [StateT.run_bind, hr rest]
  cases out <;> rfl

/-- The reader, so many times. -/
def many (r : Reader ε α) : ℕ → Reader ε (List α)
  | 0 => pure []
  | n + 1 => do
    let a ← r
    let as ← many r n
    return a :: as

/-- **So many values** come back in their order, up to the first that fails. -/
theorem Reads.many {r : Reader ε α} {write : β → List UInt8} {f : β → Except ε α} :
    ∀ {l : List β}, (∀ b ∈ l, Reads r (write b) (f b)) →
      Reads (many r l.length) (l.flatMap write) (l.mapM f)
  | [], _ => Reads.pure []
  | b :: l, h => by
    have hfirst := h b List.mem_cons_self
    have hrest := Reads.many fun b hb => h b (List.mem_cons_of_mem _ hb)
    rw [List.flatMap_cons, List.length_cons, List.mapM_cons]
    cases hb : f b with
    | error e =>
      rw [hb] at hfirst
      exact hfirst.bind_error _ _
    | ok a =>
      rw [hb] at hfirst
      have h := hfirst.bind
        (f := fun a => Reader.many r l.length >>= fun as => Pure.pure (a :: as))
        (hrest.map (a :: ·))
      cases hl : l.mapM f with
      | error e =>
        rw [hl] at h
        exact h
      | ok as =>
        rw [hl] at h
        exact h

end Reader
