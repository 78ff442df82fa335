import LogReplica.Scenario.Kind

namespace LogReplica.Scenario

inductive RevisionRef where
  | saved (name : String)
  | position (segment : Option SegmentId) (offset event : Nat)

inductive HookPoint where
  | createSegment
  | append
  | appendDone
  | readAt
  | tailOffset
  | oldestOffset
  | getAttribute
  | casAttribute
  | truncateBefore
deriving DecidableEq

inductive HookReply where
  | failure (cause : SegmentError)
  | value (n : Nat)

inductive ServiceSpec where
  | memory
  | faulty (behind : String)
  | contending (behind : String) (record : Bytes)
  | hooked (behind : String)

inductive ObjectKind where
  | client (kind : ValueKind)
  | replica (kind : ModelKind)
  | set (item : ItemKind)

structure OpenSpec where
  name : String
  kind : ObjectKind
  service : String
  segment : SegmentId
  create : Bool
  async : Bool
  config : Config
  payloads : PayloadForm

inductive FaultCommand where
  | failAppends (n : Nat)
  | failReads (n : Nat)
  | failAttributeWrites (n : Nat)
  | setRetryable (value : Bool)
  | reset
  | injected

inductive ContentionCommand where
  | contend (n : Nat)
  | conditionalAppends
  | conflicts

inductive ServiceCommand where
  | request (segment : SegmentId) (request : Request)
  | entryCount (segment : SegmentId)
  | segmentCount
  | faults (command : FaultCommand)
  | contention (command : ContentionCommand)

inductive ClientCommand where
  | segment
  | read (start : RevisionRef)
  | iter (name : String) (start : RevisionRef)
  | writeConditionally (latest : RevisionRef) (value : (k : ValueKind) → Option k.Value)
  | writeUnconditionally (value : (k : ValueKind) → Option k.Value)
  | fetchLatest
  | fetchOldest
  | getMark
  | compareAndSetMark (expected new : Option RevisionRef)
  | truncateTo (start : RevisionRef)
  | close
  | isClosed
  | debug

inductive ReaderCommand where
  | next (count : Nat)
  | endOffset

inductive ReplicaCommand where
  | initialState (value : (k : ModelKind) → Option k.model.Snapshot)
  | initialStateIfAbsent (value : (k : ModelKind) → Option k.model.Snapshot)
  | fetchUpdates
  | getState
  | getRevisionedState
  | revision
  | bytesSinceCompaction
  | stats

inductive SetCommand where
  | update
  | contains (value : (i : ItemKind) → Option i.Item)
  | add (value : (i : ItemKind) → Option i.Item)
  | remove (value : (i : ItemKind) → Option i.Item)
  | currentValues
  | currentSize
  | clear

/-- What the caller's function yields at each attempt; past the end the last item repeats. -/
inductive Generator where
  | updates (withResult : Bool) (batches : (k : ModelKind) → Option (List (k.model.State → List k.model.Update)))
  | snapshots (values : (k : ModelKind) → Option (List (k.model.State → k.model.Snapshot)))

mutual

structure Step where
  target : String
  save : Option String
  command : Command

inductive Command where
  | declare (name : String) (spec : ServiceSpec)
  | openObject (spec : OpenSpec)
  | service (command : ServiceCommand)
  | arm (point : HookPoint) (skip : Nat) (steps : Option (List Step)) (reply : Option HookReply)
  | client (command : ClientCommand)
  | clientOf (command : ClientCommand)
  | reader (command : ReaderCommand)
  | replica (command : ReplicaCommand)
  | generate (generator : Generator) (during : List (Option (List Step))) (panicOn : Option Nat)
  | set (command : SetCommand)

end

mutual

def Step.count : Step → Nat
  | ⟨_, _, command⟩ => command.count + 1

def Command.count : Command → Nat
  | .arm _ _ steps _ =>
    match steps with
    | some steps => countSteps steps
    | none => 0
  | .generate _ during _ => countDuring during
  | _ => 0

def countSteps : List Step → Nat
  | [] => 0
  | step :: rest => step.count + countSteps rest

def countDuring : List (Option (List Step)) → Nat
  | [] => 0
  | some steps :: rest => countSteps steps + countDuring rest
  | none :: rest => countDuring rest

end

end LogReplica.Scenario
