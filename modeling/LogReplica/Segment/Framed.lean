import LogReplica.Segment.Service
import LogReplica.BigEndian
import LogReplica.Table

namespace LogReplica

structure Framed where
  /-- The position of the first retained byte. -/
  start : Nat := 0
  bytes : Array UInt8 := #[]
  /-- The positions where retained entries begin, ascending. -/
  index : Array Nat := #[]
  attributes : Table AttributeKey Int := Table.empty

namespace Framed

def headerSize : Nat := 4

/-- Payloads are shorter than this, as their length has to fit into the header. -/
def payloadLimit : Nat := 256 ^ headerSize

def tail (f : Framed) : Nat := f.start + f.bytes.size

def bisect (index : Array Nat) (position : Nat) : (fuel low high : Nat) → Option Nat
  | 0, _, _ => none
  | fuel + 1, low, high =>
    if low < high then
      let middle := low + (high - low) / 2
      match index[middle]? with
      | none => none
      | some found =>
        if found = position then some middle
        else if found < position then bisect index position fuel (middle + 1) high
        else bisect index position fuel low middle
    else none

def entryIndex? (f : Framed) (position : Nat) : Option Nat :=
  bisect f.index position (f.index.size + 1) 0 f.index.size

def slice? (bytes : Array UInt8) (first count : Nat) : Option Bytes :=
  if first + count ≤ bytes.size then some (bytes.extract first (first + count)).toList else none

def entryAt (f : Framed) (position : Nat) : Except SegmentError Entry :=
  let first := position - f.start
  match slice? f.bytes first headerSize with
  | none => throw (.corrupted s!"short header at offset {position}")
  | some header =>
    let length := BigEndian.ofBytes header
    match slice? f.bytes (first + headerSize) length with
    | none => throw (.corrupted s!"short entry at offset {position}")
    | some data => pure ⟨position, position + headerSize + length, data⟩

/-- Adds an entry without looking at the tail; the payload is shorter than `payloadLimit`. -/
def push (f : Framed) (data : Bytes) : Framed :=
  { f with
    bytes := (f.bytes ++ BigEndian.toBytes headerSize data.length) ++ data
    index := f.index.push f.tail }

def append (expected : Option Nat) (data : Bytes) (f : Framed) : AppendOutcome × Framed :=
  let tail := f.tail
  if expected.all (· = tail) then
    let f := f.push data
    (.appended tail f.tail, f)
  else (.conflict tail, f)

/-- The entries at `positions` while they fit into the budget; the first one always fits. -/
def gather (f : Framed) (budget : Nat) : (positions : List Nat) → (used : Nat) → Except SegmentError (List Entry)
  | [], _ => pure []
  | position :: rest, used => do
    let entry ← f.entryAt position
    let size := entry.endOffset - entry.offset
    if used ≠ 0 ∧ budget < used + size then pure []
    else
      let entries ← f.gather budget rest (used + size)
      pure (entry :: entries)

def readAt (segment : SegmentId) (f : Framed) (offset budget : Nat) : Except SegmentError (List Entry) :=
  if offset < f.start then throw (.truncated segment offset f.start)
  else if offset = f.tail then pure []
  else
    match f.entryIndex? offset with
    | none => throw (.invalidOffset segment offset f.tail)
    | some first => f.gather budget (f.index.extract first f.index.size).toList 0

/-- Swaps only if the attribute is as expected; `none` stands for an absent attribute. -/
def compareAndSet (key : AttributeKey) (expected new : Option Int) (f : Framed) : Bool × Framed :=
  if f.attributes.get? key = expected then
    let attributes :=
      match new with
      | some value => f.attributes.insert key value
      | none => f.attributes.erase key
    (true, { f with attributes := attributes })
  else (false, f)

/-- Drops what precedes `offset`, which has to be the tail or the beginning of an entry. -/
def truncateBefore (segment : SegmentId) (offset : Nat) (f : Framed) : Except SegmentError Unit × Framed :=
  if offset ≤ f.start then (pure (), f)
  else if offset = f.tail ∨ (f.entryIndex? offset).isSome then
    (pure (), { f with
      start := offset
      bytes := f.bytes.extract (offset - f.start) f.bytes.size
      index := f.index.filter (offset ≤ ·) })
  else (throw (.invalidOffset segment offset f.tail), f)

end Framed

end LogReplica
