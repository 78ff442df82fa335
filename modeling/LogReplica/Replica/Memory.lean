import LogReplica.Duration
import LogReplica.Record

namespace LogReplica

structure Stats where
  recordsReplayed : Nat := 0
  updatesWritten : Nat := 0
  conflicts : Nat := 0
  compactions : Nat := 0
  truncations : Nat := 0
  truncationRecoveries : Nat := 0
deriving DecidableEq

inductive Tally where
  | replayed (records : Nat)
  | written
  | conflict
  | compaction
  | truncation
  | recovery

def Stats.count (s : Stats) : Tally → Stats
  | .replayed records => { s with recordsReplayed := s.recordsReplayed + records }
  | .written => { s with updatesWritten := s.updatesWritten + 1 }
  | .conflict => { s with conflicts := s.conflicts + 1 }
  | .compaction => { s with compactions := s.compactions + 1 }
  | .truncation => { s with truncations := s.truncations + 1 }
  | .recovery => { s with truncationRecoveries := s.truncationRecoveries + 1 }

structure Memory (S : Type) where
  cache : Option (Revisioned S) := none
  stats : Stats := {}
  closed : Bool := false
  /-- Whether some call holds the lock of the cache. -/
  cacheLocked : Bool := false
  /-- How many more removals a set takes before it compacts. -/
  removalsLeft : Nat := 0
  /-- Whether some call holds the lock of that count. -/
  removalsLocked : Bool := false

inductive Touch (S : Type) where
  | isClosed
  | close
  | lockCache
  | unlockCache
  | cached
  | remember (c : Option (Revisioned S))
  | tally (t : Tally)
  | sleep (d : Duration)
  | lockRemovals
  | unlockRemovals
  | removalsLeft
  | setRemovalsLeft (n : Nat)

namespace Touch

variable {S : Type}

@[reducible] def Answer : Touch S → Type
  | isClosed => Bool
  | cached => Option (Revisioned S)
  | removalsLeft => Nat
  | _ => Unit

/-- A step that takes a lock waits until the lock is free. -/
def Enabled (m : Memory S) : Touch S → Prop
  | lockCache => m.cacheLocked = false
  | lockRemovals => m.removalsLocked = false
  | _ => True

def run (m : Memory S) : (t : Touch S) → t.Answer × Memory S
  | isClosed => (m.closed, m)
  | close => ((), { m with closed := true })
  | lockCache => ((), { m with cacheLocked := true })
  | unlockCache => ((), { m with cacheLocked := false })
  | cached => (m.cache, m)
  | remember c => ((), { m with cache := c })
  | tally t => ((), { m with stats := m.stats.count t })
  | sleep _ => ((), m)
  | lockRemovals => ((), { m with removalsLocked := true })
  | unlockRemovals => ((), { m with removalsLocked := false })
  | removalsLeft => (m.removalsLeft, m)
  | setRemovalsLeft n => ((), { m with removalsLeft := n })

end Touch

end LogReplica
