import LogReplica.Codec.Cbor
import LogReplica.Codec.Json
import LogReplica.Codec.Frame
import LogReplica.SortedSet

namespace LogReplica

structure MemberSet (α : Type) [Ord α] where
  name : String
  members : SortedSet α

inductive SetUpdate (α : Type) where
  | add (value : α)
  | remove (value : α)
  | clear
deriving DecidableEq

namespace SetUpdate

variable {α : Type}

def apply [Ord α] [Std.TransOrd α] [Std.LawfulEqOrd α] (update : SetUpdate α) (s : MemberSet α) :
    MemberSet α :=
  match update with
  | add value => { s with members := s.members.insert value }
  | remove value => { s with members := s.members.erase value }
  | clear => { s with members := .empty }

def cbor (item : Cbor.Format α) : Cbor.Format (SetUpdate α) where
  write
    | add value => Cbor.writeCase "Add" (item.write value)
    | remove value => Cbor.writeCase "Remove" (item.write value)
    | clear => Cbor.writeBareCase "Clear"
  read bytes := do
    let (name, rest) ← Cbor.readCase bytes
    match name with
    | "Add" => (item.read rest).map fun (value, rest) => (add value, rest)
    | "Remove" => (item.read rest).map fun (value, rest) => (remove value, rest)
    | "Clear" => some (clear, rest)
    | _ => none

def json (item : Json.Format α) : Json.Format (SetUpdate α) where
  write
    | add value => Json.writeCase "Add" (item.write value)
    | remove value => Json.writeCase "Remove" (item.write value)
    | clear => Json.writeBareCase "Clear"
  read := Json.readCase
    (fun name cs =>
      match name with
      | "Add" => (item.read cs).map fun (value, rest) => (add value, rest)
      | "Remove" => (item.read cs).map fun (value, rest) => (remove value, rest)
      | _ => none)
    (fun name => if name = "Clear" then some clear else none)

end SetUpdate

namespace MemberSet

variable {α : Type} [Ord α] [Std.TransOrd α] [Std.LawfulEqOrd α]

/-- A snapshot lists the members in ascending order; a reader takes any order and repetitions. -/
def snapshotCbor (item : Cbor.Format α) : Cbor.Format (SortedSet α) where
  write s := (Cbor.list item).write s.toList
  read bytes := ((Cbor.list item).read bytes).map fun (as, rest) => (SortedSet.ofList as, rest)

def snapshotJson (item : Json.Format α) : Json.Format (SortedSet α) where
  write s := (Json.list item).write s.toList
  read cs := ((Json.list item).read cs).map fun (as, rest) => (SortedSet.ofList as, rest)

end MemberSet

@[reducible] def Model.memberSet (α : Type) [Ord α] [Std.TransOrd α] [Std.LawfulEqOrd α] : Model where
  State := MemberSet α
  Update := SetUpdate α
  Snapshot := SortedSet α
  apply update s _ := update.apply s
  create members name _ := ⟨name, members⟩

namespace MemberSet

variable {α : Type} [Ord α] [Std.TransOrd α] [Std.LawfulEqOrd α]

def cbor (item : Cbor.Format α) : Codec (Model.memberSet α).Record :=
  Frame.codec (Cbor.codec (SetUpdate.cbor item)) (Cbor.codec (snapshotCbor item))

def json (item : Json.Format α) : Codec (Model.memberSet α).Record :=
  Frame.codec (Json.codec (SetUpdate.json item)) (Json.codec (snapshotJson item))

end MemberSet

end LogReplica
