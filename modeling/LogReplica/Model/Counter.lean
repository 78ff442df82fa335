import LogReplica.Codec.Cbor
import LogReplica.Codec.Json
import LogReplica.Codec.Frame

namespace LogReplica

inductive CounterOp where
  | add (amount : Int64)
  | mul (factor : Int64)
  | set (value : Int64)
deriving DecidableEq

namespace CounterOp

def apply : CounterOp → Int64 → Int64
  | add n, value => value + n
  | mul n, value => value * n
  | set n, _ => n

def replay (initial : Int64) (batches : List (List CounterOp)) : Int64 :=
  batches.flatten.foldl (fun value op => op.apply value) initial

def cbor : Cbor.Format CounterOp where
  write
    | add n => Cbor.writeCase "Add" (Cbor.signed64.write n)
    | mul n => Cbor.writeCase "Mul" (Cbor.signed64.write n)
    | set n => Cbor.writeCase "Set" (Cbor.signed64.write n)
  read bytes := do
    let (name, rest) ← Cbor.readCase bytes
    match name with
    | "Add" => (Cbor.signed64.read rest).map fun (n, rest) => (add n, rest)
    | "Mul" => (Cbor.signed64.read rest).map fun (n, rest) => (mul n, rest)
    | "Set" => (Cbor.signed64.read rest).map fun (n, rest) => (set n, rest)
    | _ => none

def json : Json.Format CounterOp where
  write
    | add n => Json.writeCase "Add" (Json.signed64.write n)
    | mul n => Json.writeCase "Mul" (Json.signed64.write n)
    | set n => Json.writeCase "Set" (Json.signed64.write n)
  read := Json.readCase
    (fun name cs =>
      match name with
      | "Add" => (Json.signed64.read cs).map fun (n, rest) => (add n, rest)
      | "Mul" => (Json.signed64.read cs).map fun (n, rest) => (mul n, rest)
      | "Set" => (Json.signed64.read cs).map fun (n, rest) => (set n, rest)
      | _ => none)
    (fun _ => none)

end CounterOp

/-- The counter takes no notice of revisions and names; its snapshot is the value. -/
@[reducible] def Model.counter : Model where
  State := Int64
  Update := CounterOp
  Snapshot := Int64
  apply op value _ := op.apply value
  create value _ _ := value

namespace Counter

def cbor : Codec Model.counter.Record := Frame.codec (Cbor.codec CounterOp.cbor) (Cbor.codec Cbor.signed64)

def json : Codec Model.counter.Record := Frame.codec (Json.codec CounterOp.json) (Json.codec Json.signed64)

end Counter

end LogReplica
