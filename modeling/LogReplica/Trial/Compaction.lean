import LogReplica.Alone
import LogReplica.Model.Counter

namespace LogReplica.Trial.Compaction

structure Setup where
  initial : Int64
  history : List (List CounterOp)
  compactAfter : Nat
  readBuffer : Nat

structure Row where
  writer : Int64
  follower : Int64
  fresh : Int64
  replayed : Nat
  entries : Nat
  mark : Option Int
  expected : Int64

structure Report where
  rows : List Row
  records : List Bytes
  recoveries : Nat

def segment : SegmentId := ⟨"trial", "compaction", 0⟩

def openSite (setup : Setup) : Run (Site .counter) := do
  let client : Client Model.counter.Record := ⟨segment, max setup.readBuffer 1, Counter.cbor⟩
  let site : Site .counter := { replica := ⟨client, .unbounded⟩ }
  let (_, site) ← site.call id client.establish
  pure site

def framed : Run Framed := do pure (((← get).get? segment).getD {})

def step (setup : Setup) (batch : List CounterOp) (index : Nat) (expected : Int64)
    (writer follower : Site .counter) : Run (Row × Site .counter × Site .counter) := do
  let writer ←
    if index = setup.compactAfter then do
      let (_, writer) ← writer.call id writer.replica.compact
      pure writer
    else pure writer
  let writer ← writer.update batch id
  let fresh ← openSite setup
  let (freshValue, fresh) ← fresh.call id fresh.replica.getState
  let (writerValue, writer) ← writer.call id writer.replica.getState
  let (followerValue, follower) ← follower.call id follower.replica.getState
  let f ← framed
  pure (⟨writerValue, followerValue, freshValue, fresh.memory.stats.recordsReplayed, f.index.size,
    f.attributes.get? .mark, CounterOp.replay expected [batch]⟩, writer, follower)

def steps (setup : Setup) : (batches : List (List CounterOp)) → (index : Nat) → (expected : Int64) →
    (writer follower : Site .counter) → Run (List Row × Site .counter)
  | [], _, _, _, follower => pure ([], follower)
  | batch :: rest, index, expected, writer, follower => do
    let (row, writer, follower) ← step setup batch index expected writer follower
    let (rows, follower) ← steps setup rest (index + 1) row.expected writer follower
    pure (row :: rows, follower)

def report (setup : Setup) : Run Report := do
  let writer ← openSite setup
  let (_, writer) ← writer.call id (writer.replica.establish setup.initial)
  let follower ← openSite setup
  let (rows, follower) ← steps setup setup.history 0 setup.initial writer follower
  let f ← framed
  let entries := (f.gather f.bytes.size f.index.toList 0).toOption.getD []
  pure ⟨rows, entries.map (·.data), follower.memory.stats.truncationRecoveries⟩

def run (setup : Setup) : Except CoreError Report := ((report setup).run.run .empty).1

end LogReplica.Trial.Compaction
