import LogReplica.BigEndian
import LogReplica.Codec.Basic
import LogReplica.Record

namespace LogReplica.Frame

def snapshotTag : UInt8 := 0

def batchTag : UInt8 := 1

def limit : Nat := 256 ^ 4

def writeLength (n : Nat) : Except CodecError Bytes :=
  if n < limit then .ok (BigEndian.toBytes 4 n) else .error .encodingFailed

variable {U I : Type}

def writeUpdates (write : U → Except CodecError Bytes) : List U → Except CodecError Bytes
  | [] => .ok []
  | u :: rest => do
    let payload ← write u
    let length ← writeLength payload.length
    let more ← writeUpdates write rest
    .ok (length ++ payload ++ more)

def write (updates : Codec U) (snapshots : Codec I) : Record U I → Except CodecError Bytes
  | .init snapshot => do
    let payload ← snapshots.encode snapshot
    .ok (snapshotTag :: payload)
  | .updates batch => do
    let count ← writeLength batch.length
    let payloads ← writeUpdates updates.encode batch
    .ok (batchTag :: (count ++ payloads))

def take (n : Nat) (bytes : Bytes) : Except CodecError (Bytes × Bytes) :=
  let part := bytes.take n
  if part.length = n then .ok (part, bytes.drop n) else .error (.unexpectedEnd (n - part.length))

def readLength (bytes : Bytes) : Except CodecError (Nat × Bytes) := do
  let (digits, rest) ← take 4 bytes
  .ok (BigEndian.ofBytes digits, rest)

/-- Reads exactly `n` updates and returns what follows them; the first defect decides the error. -/
def readUpdates (read : Bytes → Except CodecError U) : (n : Nat) → Bytes → Except CodecError (List U × Bytes)
  | 0, bytes => .ok ([], bytes)
  | n + 1, bytes => do
    let (length, rest) ← readLength bytes
    let (payload, rest) ← take length rest
    let u ← read payload
    let (more, rest) ← readUpdates read n rest
    .ok (u :: more, rest)

def read (updates : Codec U) (snapshots : Codec I) : Bytes → Except CodecError (Record U I)
  | [] => .error (.unexpectedEnd 1)
  | tag :: rest =>
    if tag = snapshotTag then do
      let snapshot ← snapshots.decode rest
      .ok (.init snapshot)
    else if tag = batchTag then do
      let (count, rest) ← readLength rest
      let (batch, rest) ← readUpdates updates.decode count rest
      if rest.isEmpty then .ok (.updates batch) else .error (.trailingBytes rest.length)
    else .error (.unknownTag tag)

def codec (updates : Codec U) (snapshots : Codec I) : Codec (Record U I) :=
  ⟨write updates snapshots, read updates snapshots⟩

end LogReplica.Frame
