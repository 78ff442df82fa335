import LogReplica.Replica
import LogReplica.Decimal.Shortest
import LogReplica.Text.Hidden

namespace LogReplica.Describe

def quotedChar (c : Char) : List Char :=
  match c with
  | '"' => ['\\', '"']
  | '\\' => ['\\', '\\']
  | '\n' => ['\\', 'n']
  | '\r' => ['\\', 'r']
  | '\t' => ['\\', 't']
  | '\x00' => ['\\', '0']
  | c =>
    if Text.isHidden c then ['\\', 'u', '\x7b'] ++ Nat.toDigits 16 c.toNat ++ ['\x7d']
    else [c]

def quoted (s : String) : String := "\"" ++ String.ofList (s.toList.flatMap quotedChar) ++ "\""

def fields (name : String) (items : List (String × String)) : String :=
  name ++ " \x7b " ++ ", ".intercalate (items.map fun (key, value) => key ++ ": " ++ value) ++ " \x7d"

def flag (b : Bool) : String := if b then "true" else "false"

def segment (s : SegmentId) : String :=
  fields "SegmentId" [("scope", quoted s.scope), ("stream", quoted s.stream), ("number", Nat.repr s.number)]

def client {T : Type} (c : Client T) (closed : Bool) : String :=
  fields "RevisionedStreamClient"
    [("segment", segment c.segment), ("read_buffer_size", Nat.repr c.readBuffer), ("closed", flag closed)]

def reader {T : Type} (r : Reader T) : String :=
  fields "RevisionIterator"
    [("segment", segment r.client.segment), ("next_offset", Nat.repr r.nextOffset),
      ("end_offset", Nat.repr r.endOffset), ("buffered", Nat.repr r.buffer.length)]

def optional : Option Nat → String
  | some n => s!"Some({n})"
  | none => "None"

/-- Numbers from 10^-4 up to 10^16 are written in positions, with at least one decimal. -/
def multiplierStyle : Decimal.Style := ⟨-4, 16, .awayFromZero⟩

def retry (p : RetryPolicy) : String :=
  fields "RetryConfig"
    [("max_attempts", optional p.maxAttempts), ("initial_delay", p.initialDelay.toString),
      ("max_delay", p.maxDelay.toString), ("backoff_multiplier", multiplierStyle.render p.multiplier),
      ("add_jitter", flag p.jitter)]

def replica {M : Model} (r : Replica M) : String :=
  "StateSynchronizer \x7b segment: " ++ segment r.segment ++ ", retry: " ++ retry r.retry ++ ", .. \x7d"

end LogReplica.Describe
