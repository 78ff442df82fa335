import LogReplica.Codec.Error
import LogReplica.Segment.Service

namespace LogReplica

structure Codec (α : Type) where
  encode : α → Except CodecError Bytes
  decode : Bytes → Except CodecError α

namespace Codec

def raw : Codec Bytes := ⟨pure, pure⟩

/-- What has an encoding is read back from it. -/
def RoundTrips {α : Type} (c : Codec α) : Prop :=
  ∀ value bytes, c.encode value = .ok bytes → c.decode bytes = .ok value

theorem raw_roundTrips : raw.RoundTrips := by
  rintro value _ ⟨⟩
  rfl

end Codec

namespace Utf8

def encode (s : String) : Bytes := s.toUTF8.data.toList

def decode? (bytes : Bytes) : Option String := String.fromUTF8? ⟨bytes.toArray⟩

theorem decode?_encode (s : String) : decode? (encode s) = some s := by
  unfold decode? encode
  simp only [Array.toArray_toList]
  unfold String.fromUTF8?
  simp [String.toUTF8, String.fromUTF8, s.isValidUTF8]

end Utf8

end LogReplica
