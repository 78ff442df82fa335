import LogReplica.Scenario.Step

namespace LogReplica.Scenario

inductive Shown where
  | nothing
  | flag (value : Bool)
  | number (n : Nat)
  | text (s : String)
  | attribute (value : Option Int)
  | appended (outcome : AppendOutcome)
  | entries (entries : List Entry)
  | revision (revision : Option Revision)
  | stats (stats : Stats)
  | state (kind : ModelKind) (state : kind.model.State)
  | revisioned (kind : ModelKind) (current : Revisioned kind.model.State)
  | members (item : ItemKind) (members : SortedSet item.Item)
  | records (kind : ValueKind) (items : List (Except CoreError (Option (Revision × kind.Value))))

inductive Failure where
  | service (cause : SegmentError)
  | core (cause : CoreError)
  | set (cause : SetError)
  | panic
  | badInput

structure LogView where
  oldest : Nat
  tail : Nat
  entries : Nat
  mark : Option Int

inductive ObjectView where
  | client (log : Option LogView)
  | replica (log : Option LogView) (revision : Option Revision) (stats : Stats)
  | set (log : Option LogView) (stats : Stats)
  | reader

mutual

structure Answer where
  result : Except Failure Shown
  view : Option ObjectView
  attempts : Option (List GeneratorCall)
  hooks : List HookReport

structure GeneratorCall where
  kind : ModelKind
  saw : kind.model.State
  during : Option (List Answer)

structure HookReport where
  point : HookPoint
  steps : List Answer

end

end LogReplica.Scenario
