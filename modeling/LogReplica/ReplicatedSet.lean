import LogReplica.Model.MemberSet
import LogReplica.Replica

namespace LogReplica

structure SetError where
  cause : CoreError
deriving DecidableEq

def SetError.message? (e : SetError) : Option String :=
  e.cause.message?.map ("synchronizer error: " ++ ·)

def SetError.isRetryable (e : SetError) : Bool := e.cause.isRetryable

namespace ReplicatedSet

variable {α : Type} [Ord α] [Std.TransOrd α] [Std.LawfulEqOrd α] {R : Type}

abbrev Copy (α : Type) [Ord α] [Std.TransOrd α] [Std.LawfulEqOrd α] := Replica (Model.memberSet α)

/-- After so many removals a set compacts its history. -/
def removalsBeforeCompaction : Nat := 5

def openOrCreate (r : Copy α) : Attempt (Model.memberSet α) R Bool := do
  r.client.establish
  r.establishIfAbsent .empty

def update (r : Copy α) : Attempt (Model.memberSet α) R Unit := r.fetchUpdates

def contains (r : Copy α) (value : α) : Attempt (Model.memberSet α) R Bool := do
  let s ← r.getState
  pure (s.members.contains value)

def currentValues (r : Copy α) : Attempt (Model.memberSet α) R (SortedSet α) := do
  let s ← r.getState
  pure s.members

def currentSize (r : Copy α) : Attempt (Model.memberSet α) R Nat := do
  let s ← r.getState
  pure s.members.size

def addition (value : α) (s : MemberSet α) : List (SetUpdate α) :=
  if s.members.contains value then [] else [.add value]

def removal (value : α) (s : MemberSet α) : List (SetUpdate α) :=
  if s.members.contains value then [.remove value] else []

def clearance (s : MemberSet α) : List (SetUpdate α) := if s.members.isEmpty then [] else [.clear]

def add (r : Copy α) (value : α) : Attempt (Model.memberSet α) R Unit :=
  r.updateBy fun s => pure (addition value s, ())

def compact (r : Copy α) : Attempt (Model.memberSet α) R Unit := r.compactBy fun s => pure s.members

/-- Counts a removal, and compacts when none is left; only a compaction that succeeds sets the
count back. -/
def countRemoval (r : Copy α) : Attempt (Model.memberSet α) R Unit := do
  let left ← Attempt.touch .removalsLeft
  Attempt.touch (.setRemovalsLeft (left - 1))
  if left - 1 = 0 then
    compact r
    Attempt.touch (.setRemovalsLeft removalsBeforeCompaction)

def remove (r : Copy α) (value : α) : Attempt (Model.memberSet α) R Unit := do
  r.updateBy fun s => pure (removal value s, ())
  Attempt.touch .lockRemovals
  let counted ← ExceptT.lift (countRemoval r).run
  Attempt.touch .unlockRemovals
  match counted with
  | .ok () => pure ()
  | .error cause => throw cause

def clear (r : Copy α) : Attempt (Model.memberSet α) R Unit := do
  r.updateBy fun s => pure (clearance s, ())
  compact r

def freshMemory : Memory (MemberSet α) := { removalsLeft := removalsBeforeCompaction }

end ReplicatedSet

end LogReplica
