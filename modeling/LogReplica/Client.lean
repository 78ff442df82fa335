import LogReplica.Codec.Basic
import LogReplica.Procedure
import LogReplica.Retry

namespace LogReplica

structure Client (T : Type) where
  segment : SegmentId
  readBuffer : Nat
  codec : Codec T

/-- A reading that ends at the tail seen when it began. -/
structure Reader (T : Type) where
  client : Client T
  /-- Where the next entry to fetch begins. -/
  nextOffset : Nat
  endOffset : Nat
  ordinal : Nat
  buffer : List Entry := []
  finished : Bool := false

namespace Reader

variable {T : Type} {M : Model} {R : Type}

def refill (r : Reader T) : Attempt M R (Reader T) := do
  let entries ← Attempt.ask r.client.segment (.readAt r.nextOffset r.client.readBuffer)
  let buffer := entries.takeWhile fun entry => entry.offset < r.endOffset
  let nextOffset :=
    match buffer.getLast? with
    | some last => last.endOffset
    | none => r.nextOffset
  pure { r with buffer := buffer, nextOffset := nextOffset }

inductive Pulled (T : Type) where
  | record (revision : Revision) (value : T)
  | finished
  | failed (cause : CoreError)
  /-- There is a record, but no ordinal is left for it. -/
  | uncounted

def pop (r : Reader T) : Pulled T × Reader T :=
  match r.buffer with
  | [] => (.finished, { r with finished := true })
  | entry :: rest =>
    match r.client.codec.decode entry.data with
    | .error cause => (.failed (.encoding cause), { r with buffer := rest, finished := true })
    | .ok value =>
      match Revision.nextEvent? r.ordinal with
      | some ordinal =>
        (.record ⟨r.client.segment, entry.endOffset, ordinal⟩ value, { r with buffer := rest, ordinal := ordinal })
      | none => (.uncounted, { r with buffer := rest })

def next (r : Reader T) : Procedure M R (Pulled T × Reader T) :=
  if r.finished then pure (.finished, r)
  else if !r.buffer.isEmpty then pure r.pop
  else if r.endOffset ≤ r.nextOffset then pure (.finished, { r with finished := true })
  else do
    match ← (refill r).run with
    | .ok r => pure r.pop
    | .error cause => pure (.failed cause, { r with finished := true })

/-- As many records as are left at most, since each one takes at least a byte. -/
def bound (r : Reader T) : Nat := r.buffer.length + (r.endOffset - r.nextOffset)

inductive Ending where
  | complete
  | failed (cause : CoreError)
  /-- The ordinals are used up before the records are. -/
  | uncounted

def Ending.settle : Ending → Procedure M R (Except CoreError Unit)
  | complete => pure (.ok ())
  | failed cause => pure (.error cause)
  | uncounted => Procedure.abort

def fold {σ : Type} (f : σ → Revision × T → Except CoreError σ) :
    (fuel : Nat) → Reader T → σ → Procedure M R (Ending × σ)
  | 0, _, s => pure (.complete, s)
  | fuel + 1, r, s => do
    match ← r.next with
    | (.finished, _) => pure (.complete, s)
    | (.failed cause, _) => pure (.failed cause, s)
    | (.uncounted, _) => pure (.uncounted, s)
    | (.record revision value, r) =>
      match f s (revision, value) with
      | .ok s => fold f fuel r s
      | .error cause => pure (.failed cause, s)

def rest (r : Reader T) : Procedure M R (List (Revision × T) × Ending) := do
  let (ending, latestFirst) ← fold (fun items item => .ok (item :: items)) (r.bound + 1) r []
  pure (latestFirst.reverse, ending)

end Reader

namespace Client

variable {T : Type} {M : Model} {R : Type}

def ask (c : Client T) (request : Request) : Attempt M R request.Answer := Attempt.ask c.segment request

def ensureOpen : Attempt M R Unit := do
  if ← Attempt.touch .isClosed then throw .closed

def checkSegment (c : Client T) (revision : Revision) : Attempt M R Unit :=
  if revision.segment = c.segment then pure () else throw (.segmentMismatch c.segment revision.segment)

def encode (c : Client T) (value : T) : Attempt M R Bytes :=
  match c.codec.encode value with
  | .ok bytes => pure bytes
  | .error cause => throw (.encoding cause)

def establish (c : Client T) : Attempt M R Unit := do
  let _ ← c.ask .createSegment

/-- Begins to read the records after `start`; records appended from now on do not belong. -/
def readFrom (c : Client T) (start : Revision) : Attempt M R (Reader T) := do
  ensureOpen
  c.checkSegment start
  let oldest ← c.ask .oldestOffset
  if start.offset < oldest then throw (.dataTruncated c.segment start.offset oldest)
  let tail ← c.ask .tailOffset
  pure { client := c, nextOffset := start.offset, endOffset := tail, ordinal := start.event }

/-- Appends if the tail is still at `latest`; losing the race gives no revision and no error. After
the last ordinal the record lands all the same, but there is no revision to answer with. -/
def writeConditionally (c : Client T) (latest : Revision) (value : T) : Attempt M R (Option Revision) := do
  ensureOpen
  c.checkSegment latest
  let bytes ← c.encode value
  match ← c.ask (.append (some latest.offset) bytes) with
  | .appended _ endOffset =>
    match Revision.nextEvent? latest.event with
    | some event => pure (some ⟨c.segment, endOffset, event⟩)
    | none => Attempt.abort
  | .conflict _ => pure none

def writeUnconditionally (c : Client T) (value : T) : Attempt M R Revision := do
  ensureOpen
  let bytes ← c.encode value
  match ← c.ask (.append none bytes) with
  | .appended _ endOffset => pure ⟨c.segment, endOffset, 0⟩
  | .conflict tail => throw (.unexpectedConflict tail)

def fetchLatest (c : Client T) : Attempt M R Revision := do
  ensureOpen
  let tail ← c.ask .tailOffset
  pure ⟨c.segment, tail, 0⟩

def fetchOldest (c : Client T) : Attempt M R Revision := do
  ensureOpen
  let oldest ← c.ask .oldestOffset
  pure ⟨c.segment, oldest, 0⟩

def getMark (c : Client T) : Attempt M R (Option Revision) := do
  ensureOpen
  match ← c.ask (.getAttribute .mark) with
  | none => pure none
  | some (.ofNat offset) => pure (some ⟨c.segment, offset, 0⟩)
  | some (.negSucc n) => throw (.negativeMark (.negSucc n))

def regresses : (expected new : Option Nat) → Bool
  | some _, none => true
  | some current, some requested => requested < current
  | none, _ => false

/-- Attributes are signed words of 64 bits. -/
def markValue (offset : Nat) : Except CoreError Int :=
  if offset < 2 ^ 63 then .ok offset else .error (.attributeRange offset)

def markValue? : Option Nat → Attempt M R (Option Int)
  | none => pure none
  | some offset =>
    match markValue offset with
    | .ok value => pure (some value)
    | .error cause => throw cause

def checkSegment? (c : Client T) : Option Revision → Attempt M R Unit
  | some revision => c.checkSegment revision
  | none => pure ()

def compareAndSetMark (c : Client T) (expected new : Option Revision) : Attempt M R Bool := do
  ensureOpen
  c.checkSegment? expected
  c.checkSegment? new
  let current := expected.map (·.offset)
  let requested := new.map (·.offset)
  if regresses current requested then throw (.markRegression current requested)
  let current ← markValue? current
  let requested ← markValue? requested
  c.ask (.compareAndSetAttribute .mark current requested)

def truncateTo (c : Client T) (start : Revision) : Attempt M R Unit := do
  ensureOpen
  c.checkSegment start
  c.ask (.truncateBefore start.offset)

def close : Procedure M R Unit := Procedure.touch .close

end Client

end LogReplica
