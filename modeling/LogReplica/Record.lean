import LogReplica.Error

namespace LogReplica

/-- A kind of shared state: how a snapshot starts one and how an update changes it. -/
structure Model where
  State : Type
  Update : Type
  Snapshot : Type
  apply : Update → State → Revision → State
  /-- A snapshot also learns the name that the segments of its stream share. -/
  create : Snapshot → String → Revision → State

inductive Record (U I : Type) where
  | init (snapshot : I)
  | updates (batch : List U)

abbrev Model.Record (M : Model) := LogReplica.Record M.Update M.Snapshot

namespace Record

def isInit {U I : Type} : Record U I → Bool
  | init _ => true
  | updates _ => false

variable {M : Model}

def foldUpdates (batch : List M.Update) (state : M.State) (revision : Revision) : M.State :=
  batch.foldl (fun state update => M.apply update state revision) state

/-- A snapshot replaces the state; a batch needs one to change, and an empty batch keeps it. -/
def apply (record : M.Record) (state : Option M.State) (name : String) (revision : Revision) :
    Except CoreError M.State :=
  match record, state with
  | .init snapshot, _ => .ok (M.create snapshot name revision)
  | .updates batch, some state => .ok (foldUpdates batch state revision)
  | .updates _, none => .error (.orphanUpdates revision)

end Record

end LogReplica
