import LogReplica.Segment.Error

namespace LogReplica

abbrev Bytes := List UInt8

/-- A stored record: its first position, the position after it, and its payload. -/
structure Entry where
  offset : Nat
  endOffset : Nat
  data : Bytes
deriving DecidableEq

inductive AppendOutcome where
  | appended (offset endOffset : Nat)
  | conflict (tail : Nat)
deriving DecidableEq

def AppendOutcome.endOffset? : AppendOutcome → Option Nat
  | appended _ endOffset => some endOffset
  | conflict _ => none

inductive Request where
  | createSegment
  | append (expected : Option Nat) (data : Bytes)
  | readAt (offset budget : Nat)
  | tailOffset
  | oldestOffset
  | getAttribute (key : AttributeKey)
  | compareAndSetAttribute (key : AttributeKey) (expected new : Option Int)
  | truncateBefore (offset : Nat)

@[reducible] def Request.Answer : Request → Type
  | createSegment => Bool
  | append .. => AppendOutcome
  | readAt .. => List Entry
  | tailOffset => Nat
  | oldestOffset => Nat
  | getAttribute _ => Option Int
  | compareAndSetAttribute .. => Bool
  | truncateBefore _ => Unit

abbrev Reply (q : Request) := Except SegmentError q.Answer

end LogReplica
