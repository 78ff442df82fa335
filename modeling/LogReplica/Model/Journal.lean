import LogReplica.Codec.Cbor
import LogReplica.Codec.Json
import LogReplica.Codec.Frame

namespace LogReplica

def Journal.stamp (text : String) (revision : Revision) : String := s!"{text}@{revision}"

/-- An update adds its stamped text; a snapshot starts with the stamped stream name and keeps its lines. -/
@[reducible] def Model.journal : Model where
  State := List String
  Update := String
  Snapshot := List String
  apply text lines revision := lines ++ [Journal.stamp text revision]
  create lines name revision := Journal.stamp name revision :: lines

namespace Journal

def cbor : Codec Model.journal.Record :=
  Frame.codec (Cbor.codec Cbor.text) (Cbor.codec (Cbor.list Cbor.text))

def json : Codec Model.journal.Record :=
  Frame.codec (Json.codec Json.text) (Json.codec (Json.list Json.text))

end Journal

end LogReplica
