import LogReplica.Alone
import LogReplica.ReplicatedSet

namespace LogReplica.Trial.SetDemo

structure Report where
  sizeBeforeClear : Nat
  finalValues : List String
  mark : Option Int
  oldest : Nat
  tail : Nat
  writers : List Stats

abbrev Writer := Site (Model.memberSet String)

def segment : SegmentId := ⟨"demo", "members", 0⟩

def members (s : MemberSet String) : SortedSet String := s.members

def openWriter : Run Writer := do
  let client : Client (Model.memberSet String).Record :=
    ⟨segment, Config.default.readBuffer, MemberSet.cbor Cbor.text⟩
  let writer : Writer := { replica := ⟨client, .unbounded⟩, memory := ReplicatedSet.freshMemory }
  let (_, writer) ← writer.call members (ReplicatedSet.openOrCreate writer.replica)
  pure writer

def openWriters : (count : Nat) → Run (List Writer)
  | 0 => pure []
  | count + 1 => do
    let writer ← openWriter
    pure (writer :: (← openWriters count))

def add (value : String) (writer : Writer) : Run Writer := do
  let (_, writer) ← writer.call members (ReplicatedSet.add writer.replica value)
  pure writer

def addItems (number items : Nat) (writer : Writer) : Run Writer :=
  (List.range items).foldlM (fun writer item => add s!"writer{number}-item{item}" writer) writer

def addAll (items : Nat) : (number : Nat) → List Writer → Run (List Writer)
  | _, [] => pure []
  | number, writer :: rest => do
    let writer ← addItems number items writer
    pure (writer :: (← addAll items (number + 1) rest))

def addLast : (number : Nat) → List Writer → Run (List Writer)
  | _, [] => pure []
  | number, writer :: rest => do
    let writer ← add s!"writer{number}-after-clear" writer
    pure (writer :: (← addLast (number + 1) rest))

def first {α : Type} (call : Writer → Run (α × Writer)) : List Writer → Run (Option α × List Writer)
  | [] => pure (none, [])
  | writer :: rest => do
    let (a, writer) ← call writer
    pure (some a, writer :: rest)

def report (count items : Nat) : Run Report := do
  let writers ← openWriters count
  let writers ← addAll items 0 writers
  let (size, writers) ← first (fun w => w.call members (ReplicatedSet.currentSize w.replica)) writers
  let (_, writers) ← first (fun w => w.call members (ReplicatedSet.clear w.replica)) writers
  let writers ← addLast 0 writers
  let (values, latestFirst) ←
    first (fun w => w.call members (ReplicatedSet.currentValues w.replica)) writers.reverse
  let f := ((← get).get? segment).getD {}
  pure ⟨size.getD 0, (values.map (·.toList)).getD [], f.attributes.get? .mark, f.start, f.tail,
    latestFirst.reverse.map (·.memory.stats)⟩

def run (count items : Nat) : Except CoreError Report := ((report count items).run.run .empty).1

end LogReplica.Trial.SetDemo
