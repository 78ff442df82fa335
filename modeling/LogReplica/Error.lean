import LogReplica.Codec.Error
import LogReplica.Revision
import LogReplica.Segment.Error

namespace LogReplica

inductive CoreError where
  | service (cause : SegmentError)
  | encoding (cause : CodecError)
  | dataTruncated (segment : SegmentId) (requested oldest : Nat)
  | segmentMismatch (expected actual : SegmentId)
  | alreadyInitialized (segment : SegmentId)
  | notInitialized (segment : SegmentId)
  | orphanUpdates (revision : Revision)
  | negativeMark (value : Int)
  | attributeRange (offset : Nat)
  | unexpectedConflict (tail : Nat)
  | retriesExhausted (attempts : Nat)
  | markRegression (current requested : Option Nat)
  | closed
  | taskFailed
deriving DecidableEq

namespace CoreError

/-- A truncation keeps its own name, so that a reader can start again from the mark. -/
def ofSegment : SegmentError → CoreError
  | .truncated segment offset oldest => dataTruncated segment offset oldest
  | cause => service cause

def isTruncated : CoreError → Bool
  | dataTruncated .. => true
  | _ => false

def isRetryable : CoreError → Bool
  | service cause => cause.isRetryable
  | _ => false

def offsetText : Option Nat → String
  | some n => s!"Some({n})"
  | none => "None"

def message? : CoreError → Option String
  | service cause => some ("segment error: " ++ cause.message)
  | encoding cause => cause.message?.map ("codec error: " ++ ·)
  | dataTruncated segment requested oldest =>
    some s!"data truncated on {segment}: offset {requested} precedes oldest retained offset {oldest}"
  | segmentMismatch expected actual => some s!"revision belongs to segment {actual}, expected {expected}"
  | alreadyInitialized segment => some s!"segment {segment} is already initialized"
  | notInitialized segment => some s!"state for {segment} has not been initialized"
  | orphanUpdates revision =>
    some s!"corrupted log: update batch at {revision} precedes any initial update"
  | negativeMark value => some s!"corrupted log: negative mark offset {value}"
  | attributeRange offset => some s!"corrupted log: offset {offset} exceeds attribute range"
  | unexpectedConflict tail =>
    some (s!"corrupted log: service reported a conflict for an unconditional append at tail {tail}")
  | retriesExhausted attempts => some s!"gave up after {attempts} conflicting attempts"
  | markRegression current requested =>
    some ("mark cannot move backwards from " ++ offsetText current ++ " to " ++ offsetText requested)
  | closed => some "client is closed"
  | taskFailed => none

end CoreError

def Revision.compare (a b : Revision) : Except CoreError Ordering :=
  match a.order? b with
  | some order => .ok order
  | none => .error (.segmentMismatch a.segment b.segment)

end LogReplica
