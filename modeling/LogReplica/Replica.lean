import LogReplica.Client

namespace LogReplica

structure Replica (M : Model) where
  client : Client M.Record
  retry : RetryPolicy

structure WriteOutcome (β : Type) where
  result : β
  /-- The expected and the new position of the write that landed, if one was made. -/
  written : Option (Revision × Revision)

namespace Replica

variable {M : Model} {R β : Type}

abbrev Cached (M : Model) := Option (Revisioned M.State)

def segment (r : Replica M) : SegmentId := r.client.segment

def name (r : Replica M) : String := r.segment.scopedStreamName

def applyRecord (r : Replica M) (record : M.Record) (state : Option M.State) (revision : Revision) :
    Except CoreError (Revisioned M.State) :=
  (record.apply state r.name revision).map fun state => ⟨state, revision⟩

structure Progress (M : Model) where
  slot : Cached M
  replayed : Nat

/-- Folds one record, unless the copy is already at or past it. -/
def replayRecord (r : Replica M) (p : Progress M) (item : Revision × M.Record) :
    Except CoreError (Progress M) :=
  if p.slot.any fun current => !item.1.isNewerThan current.revision then .ok p
  else (r.applyRecord item.2 (p.slot.map (·.state)) item.1).map fun next => ⟨some next, p.replayed + 1⟩

def replayRecords (r : Replica M) (slot : Cached M) (records : Reader M.Record) :
    Procedure M R (Except CoreError Unit × Cached M) := do
  let (ending, progress) ← records.fold (replayRecord r) (records.bound + 1) ⟨slot, 0⟩
  let result ← ending.settle
  if progress.replayed ≠ 0 then Procedure.touch (.tally (.replayed progress.replayed))
  pure (result, progress.slot)

/-- Where a reader without a usable copy starts: the mark, or else the oldest position. -/
def freshStart (r : Replica M) : Attempt M R Revision := do
  match ← r.client.getMark with
  | some mark => pure mark
  | none => r.client.fetchOldest

def replayFrom (r : Replica M) (slot : Cached M) (start : Revision) : Attempt M R Unit := do
  let records ← r.client.readFrom start
  let (result, slot) ← ExceptT.lift (r.replayRecords slot records)
  Attempt.touch (.remember slot)
  match result with
  | .ok () => pure ()
  | .error cause => throw cause

/-- Rebuilds the copy from the snapshot where fresh readers start, after the records that the old
copy needed were truncated. The cache changes only if all of it succeeds, and without a snapshot
there the answer is `truncated`. -/
def recover (r : Replica M) (truncated : CoreError) : Attempt M R Unit := do
  let restart ← r.freshStart
  let records ← r.client.readFrom restart
  let (first, records) ← ExceptT.lift records.next
  match first with
  | .failed cause => throw cause
  | .uncounted => Attempt.abort
  | .finished => throw truncated
  | .record _ (.updates _) => throw truncated
  | .record revision (.init snapshot) => do
    let state := M.create snapshot r.name revision
    Attempt.touch (.tally (.replayed 1))
    let (result, slot) ← ExceptT.lift (r.replayRecords (some ⟨state, revision⟩) records)
    match result with
    | .error cause => throw cause
    | .ok () => do
      Attempt.touch (.tally .recovery)
      Attempt.touch (.remember slot)

def catchUp (r : Replica M) : Attempt M R Unit := do
  let slot ← Attempt.touch .cached
  let start ←
    match slot with
    | some current => pure current.revision
    | none => r.freshStart
  match ← ExceptT.lift (r.replayFrom slot start).run with
  | .ok () => pure ()
  | .error cause => if cause.isTruncated then r.recover cause else throw cause

def fetchUpdates (r : Replica M) : Attempt M R Unit := Attempt.locked r.catchUp

def getRevisionedState (r : Replica M) : Attempt M R (Revisioned M.State) :=
  Attempt.locked do
    r.catchUp
    match ← Attempt.touch .cached with
    | some current => pure current
    | none => throw (.notInitialized r.segment)

def getState (r : Replica M) : Attempt M R M.State := do
  let current ← r.getRevisionedState
  pure current.state

def writeInitial (r : Replica M) (latest : Revision) (snapshot : M.Snapshot) : Attempt M R Bool := do
  match ← r.client.writeConditionally latest (.init snapshot) with
  | none => pure false
  | some revision => do
    Attempt.touch (.remember (some ⟨M.create snapshot r.name revision, revision⟩))
    pure true

/-- Writes the very first record; fails if there is any history. -/
def establish (r : Replica M) (snapshot : M.Snapshot) : Attempt M R Unit :=
  Attempt.locked do
    let oldest ← r.client.fetchOldest
    let latest ← r.client.fetchLatest
    if ¬ latest.SamePosition oldest then throw (.alreadyInitialized r.segment)
    if !(← r.writeInitial latest snapshot) then throw (.alreadyInitialized r.segment)

/-- Writes the very first record unless there is any history, and says whether it did. -/
def establishIfAbsent (r : Replica M) (snapshot : M.Snapshot) : Attempt M R Bool :=
  Attempt.locked do
    let oldest ← r.client.fetchOldest
    let latest ← r.client.fetchLatest
    let written ← if latest.SamePosition oldest then r.writeInitial oldest snapshot else pure false
    if written then pure true
    else do
      r.catchUp
      pure false

/-- Folds a record that this replica has just written. If the cache has moved since, the log is
read instead; a failure there leaves the cache behind and is nobody's error. -/
def applyWritten (r : Replica M) (expected revision : Revision) (record : M.Record) : Procedure M R Unit := do
  let _ ← (Attempt.locked do
    match ← Attempt.touch .cached with
    | some current =>
      if current.revision.SamePosition expected then
        match r.applyRecord record (some current.state) revision with
        | .ok next => Attempt.touch (.remember (some next))
        | .error cause => throw cause
      else r.catchUp
    | none => r.catchUp : Attempt M R Unit).run

/-- Waits before the attempt of that number; a wait that cannot be counted ends the call. -/
def pause (r : Replica M) (attempt : Nat) : Procedure M R Unit :=
  match r.retry.delay? attempt with
  | none => Procedure.abort
  | some d => if d = .zero then pure () else Procedure.touch (.sleep d)

/-- Attempts are counted in words of 32 bits. -/
def attemptLimit : Nat := 2 ^ 32 - 1

/-- Writes what `propose` makes of the current state, until a write lands, nothing is proposed or
the retry policy gives up. `attempts` have been made and `left` more can be counted. -/
def writeLoop (r : Replica M) (propose : M.State → Procedure M R (Option M.Record × β)) :
    (left attempts : Nat) → Attempt M R (WriteOutcome β)
  | 0, _ => Attempt.abort
  | left + 1, attempts => do
    ExceptT.lift (r.pause attempts)
    let snapshot ← r.getRevisionedState
    let (record, result) ← ExceptT.lift (propose snapshot.state)
    match record with
    | none => pure ⟨result, none⟩
    | some record => do
      match ← r.client.writeConditionally snapshot.revision record with
      | some revision => do
        ExceptT.lift (r.applyWritten snapshot.revision revision record)
        pure ⟨result, some (snapshot.revision, revision)⟩
      | none => do
        Attempt.touch (.tally .conflict)
        if r.retry.allows (attempts + 1) then writeLoop r propose left (attempts + 1)
        else throw (.retriesExhausted (attempts + 1))

def writeWithRetry (r : Replica M) (propose : M.State → Procedure M R (Option M.Record × β)) :
    Attempt M R (WriteOutcome β) :=
  r.writeLoop propose attemptLimit 0

/-- Writes the batch that `batch` makes of the current state; an empty one writes nothing. The
answer is the value that came with the batch of the attempt that ended the call. -/
def updateBy (r : Replica M) (batch : M.State → Procedure M R (List M.Update × β)) : Attempt M R β := do
  let outcome ← r.writeWithRetry fun state => do
    let (updates, result) ← batch state
    pure (if updates.isEmpty then none else some (.updates updates), result)
  if outcome.written.isSome then Attempt.touch (.tally .written)
  pure outcome.result

def updateStateWithResult (r : Replica M) : Attempt M R R :=
  r.updateBy fun state => Procedure.perform (.generate state)

def updateState (r : Replica M) : Attempt M R Unit := do
  let _ ← r.updateStateWithResult

/-- Moves the mark to a snapshot and truncates the log there. If another mark is as new, or another
compaction wins the race for the mark, the log stays as it is. -/
def advanceMark (r : Replica M) (target : Revision) : Attempt M R Unit := do
  let old ← r.client.getMark
  if old.any fun old => !target.isNewerThan old then pure ()
  else if ← r.client.compareAndSetMark old (some target) then
    r.client.truncateTo target
    Attempt.touch (.tally .truncation)

def compactBy (r : Replica M) (summary : M.State → Procedure M R M.Snapshot) : Attempt M R Unit := do
  let outcome ← r.writeWithRetry fun state => do
    let snapshot ← summary state
    pure (some (.init snapshot), ())
  match outcome.written with
  | none => pure ()
  | some (compactedAt, _) => do
    Attempt.touch (.tally .compaction)
    r.advanceMark compactedAt

def compact (r : Replica M) : Attempt M R Unit :=
  r.compactBy fun state => Procedure.perform (.summarize state)

def bytesSinceCompaction (r : Replica M) : Attempt M R Nat := do
  let start ← r.freshStart
  let latest ← r.client.fetchLatest
  pure (latest.offset - start.offset)

def close : Procedure M R Unit := Client.close

end Replica

end LogReplica
