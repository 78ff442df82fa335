import LogReplica.Model.Counter
import LogReplica.Model.Journal
import LogReplica.ReplicatedSet

namespace LogReplica.Scenario

inductive ItemKind where
  | text
  | whole
deriving DecidableEq

namespace ItemKind

@[reducible] def Item : ItemKind → Type
  | text => String
  | whole => Int64

instance (i : ItemKind) : Ord i.Item :=
  match i with
  | text => inferInstanceAs (Ord String)
  | whole => inferInstanceAs (Ord Int64)

instance (i : ItemKind) : Std.TransOrd i.Item :=
  match i with
  | text => inferInstanceAs (Std.TransOrd String)
  | whole => inferInstanceAs (Std.TransOrd Int64)

instance (i : ItemKind) : Std.LawfulEqOrd i.Item :=
  match i with
  | text => inferInstanceAs (Std.LawfulEqOrd String)
  | whole => inferInstanceAs (Std.LawfulEqOrd Int64)

def cbor : (i : ItemKind) → Cbor.Format i.Item
  | text => Cbor.text
  | whole => Cbor.signed64

def json : (i : ItemKind) → Json.Format i.Item
  | text => Json.text
  | whole => Json.signed64

end ItemKind

inductive PayloadForm where
  | cbor
  | json

inductive ModelKind where
  | counter
  | journal
  | members (item : ItemKind)
deriving DecidableEq

namespace ModelKind

@[reducible] def model : ModelKind → Model
  | counter => .counter
  | journal => .journal
  | members item => .memberSet item.Item

def codec : (k : ModelKind) → PayloadForm → Codec k.model.Record
  | counter, .cbor => Counter.cbor
  | counter, .json => Counter.json
  | journal, .cbor => Journal.cbor
  | journal, .json => Journal.json
  | members item, .cbor => MemberSet.cbor item.cbor
  | members item, .json => MemberSet.json item.json

def copy : (k : ModelKind) → k.model.State → k.model.Snapshot
  | counter, value => value
  | journal, lines => lines
  | members _, s => s.members

end ModelKind

inductive ValueKind where
  | bytes
  | records (kind : ModelKind)
deriving DecidableEq

@[reducible] def ValueKind.Value : ValueKind → Type
  | bytes => Bytes
  | records kind => kind.model.Record

end LogReplica.Scenario
