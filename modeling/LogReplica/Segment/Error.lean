import LogReplica.Segment.Id

namespace LogReplica

inductive SegmentError where
  | noSuchSegment (segment : SegmentId)
  | truncated (segment : SegmentId) (offset oldest : Nat)
  | invalidOffset (segment : SegmentId) (offset tail : Nat)
  | entryTooLarge (size : Nat)
  | corrupted (detail : String)
  | transport (detail : String) (retryable : Bool)
deriving DecidableEq

namespace SegmentError

def message : SegmentError → String
  | noSuchSegment segment => s!"no such segment: {segment}"
  | truncated segment offset oldest =>
    s!"segment {segment} truncated: offset {offset} precedes oldest retained offset {oldest}"
  | invalidOffset segment offset tail => s!"invalid offset {offset} for segment {segment} (tail {tail})"
  | entryTooLarge size => s!"entry of {size} bytes exceeds the maximum entry size"
  | corrupted detail => s!"segment corrupted: {detail}"
  | transport detail _ => s!"transport error: {detail}"

/-- Only a transport failure can be cured by asking again. -/
def isRetryable : SegmentError → Bool
  | transport _ retryable => retryable
  | _ => false

end SegmentError

end LogReplica
