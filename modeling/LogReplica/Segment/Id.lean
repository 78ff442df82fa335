namespace LogReplica

structure SegmentId where
  scope : String
  stream : String
  number : Nat
deriving DecidableEq, Hashable

namespace SegmentId

def toString (s : SegmentId) : String := s.scope ++ "/" ++ s.stream ++ "/" ++ Nat.repr s.number

instance : ToString SegmentId := ⟨toString⟩

/-- The name that the segments of one stream share. -/
def scopedStreamName (s : SegmentId) : String := s.scope ++ "/" ++ s.stream

def compare (a b : SegmentId) : Ordering :=
  (Ord.compare a.scope b.scope).then
    ((Ord.compare a.stream b.stream).then (Ord.compare a.number b.number))

instance : Ord SegmentId := ⟨compare⟩

end SegmentId

structure AttributeKey where
  value : Nat
deriving DecidableEq

namespace AttributeKey

def mark : AttributeKey := ⟨0x535441544553594e4300000000000001⟩

def hexDigit (n : Nat) : Char := (n % 16).digitChar

def hexDigits : Nat → Nat → List Char
  | 0, _ => []
  | width + 1, n => hexDigits width (n / 16) ++ [hexDigit n]

def hex (k : AttributeKey) : String := String.ofList (hexDigits 32 k.value)

def toString (k : AttributeKey) : String :=
  let digits := hexDigits 32 k.value
  let group (skip length : Nat) := String.ofList ((digits.drop skip).take length)
  "attr:" ++ "-".intercalate [group 0 8, group 8 4, group 12 4, group 16 4, group 20 12]

instance : ToString AttributeKey := ⟨toString⟩

end AttributeKey

end LogReplica
