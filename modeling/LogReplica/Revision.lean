import LogReplica.Segment.Id
import LogReplica.Power

namespace LogReplica

structure Revision where
  segment : SegmentId
  offset : Nat
  /-- Counts the records up to here from wherever the reader began, below `eventLimit`. -/
  event : Nat := 0
deriving DecidableEq

namespace Revision

/-- Ordinals are words of 64 bits. -/
def eventLimit : Nat := 2 ^ 64

def nextEvent? (event : Nat) : Option Nat := if event + 1 < eventLimit then some (event + 1) else none

def toString (r : Revision) : String := s!"{r.segment}:{r.offset}:{r.event}"

instance : ToString Revision := ⟨toString⟩

/-- The same position, whatever the ordinals. -/
def SamePosition (a b : Revision) : Prop := a.segment = b.segment ∧ a.offset = b.offset

instance (a b : Revision) : Decidable (SamePosition a b) :=
  inferInstanceAs (Decidable (_ ∧ _))

instance : Hashable Revision := ⟨fun r => mixHash (hash r.segment) (hash r.offset)⟩

theorem hash_eq_of_samePosition {a b : Revision} (h : a.SamePosition b) : hash a = hash b := by
  show mixHash _ _ = mixHash _ _
  rw [h.1, h.2]

def order? (a b : Revision) : Option Ordering :=
  if a.segment = b.segment then some (compare a.offset b.offset) else none

def isNewerThan (a b : Revision) : Bool := a.order? b == some .gt

def isOlderThan (a b : Revision) : Bool := a.order? b == some .lt

def isAtMost (a b : Revision) : Bool := a.order? b == some .lt || a.order? b == some .eq

theorem isNewerThan_iff {a b : Revision} :
    a.isNewerThan b = true ↔ a.segment = b.segment ∧ b.offset < a.offset := by
  unfold isNewerThan order?
  split <;> simp_all [Nat.compare_eq_gt]

end Revision

/-- A state with the position of the last record folded into it. -/
structure Revisioned (S : Type) where
  state : S
  revision : Revision

end LogReplica
