import LogReplica.Decimal.Shortest
import LogReplica.Duration
import LogReplica.Codec.Json
import LogReplica.Trial.SetDemo
import LogReplica.Trial.Stress

namespace LogReplica.CommandLine

inductive Item where
  | number (digits : String)
  | text (s : String)
  | null
  | list (items : List Item)
  | record (fields : List (String × Item))

namespace Item

def nat (n : Nat) : Item := .number (Nat.repr n)

def int (n : Int) : Item := .number (toString n)

def margin (depth : Nat) : String := String.ofList (List.replicate (2 * depth) ' ')

def quoted (s : String) : String := String.ofList (Json.writeText s)

def block (opening closing : String) (depth : Nat) (lines : List String) : String :=
  if lines.isEmpty then opening ++ closing
  else
    opening ++ "\n" ++ ",\n".intercalate (lines.map (margin (depth + 1) ++ ·)) ++ "\n" ++ margin depth ++ closing

mutual

def render (depth : Nat) : Item → String
  | .number digits => digits
  | .text s => quoted s
  | .null => "null"
  | .list items => block "[" "]" depth (renderItems (depth + 1) items)
  | .record fields => block "\x7b" "\x7d" depth (renderFields (depth + 1) fields)

def renderItems (depth : Nat) : List Item → List String
  | [] => []
  | item :: rest => item.render depth :: renderItems depth rest

def renderFields (depth : Nat) : List (String × Item) → List String
  | [] => []
  | (name, item) :: rest => (quoted name ++ ": " ++ item.render depth) :: renderFields depth rest

end

end Item

/-- Numbers from 10^-5 up to 10^16 are written in positions, with at least one decimal. -/
def numberStyle : Decimal.Style := ⟨-5, 16, .toEven⟩

def hundredths (x : Float) : String :=
  let b := Decimal.Binary.ofFloat x
  let n :=
    if 1075 ≤ b.exponent then b.mantissa * 2 ^ (b.exponent - 1075) * 100
    else Duration.divideToEven (b.mantissa * 100) (2 ^ (1075 - b.exponent))
  let places := Nat.toDigits 10 (n % 100)
  Nat.repr (n / 100) ++ "." ++ String.ofList (List.replicate (2 - places.length) '0' ++ places)

def unlines (lines : List String) : String := String.join (lines.map (· ++ "\n"))

namespace SetDemo

open Trial.SetDemo

def writerItem (number : Nat) (s : Stats) : Item :=
  .record [("writer", .nat number), ("records_replayed", .nat s.recordsReplayed),
    ("updates_written", .nat s.updatesWritten), ("conflicts", .nat s.conflicts),
    ("compactions", .nat s.compactions), ("truncation_recoveries", .nat s.truncationRecoveries)]

def numbered {α : Type} (as : List α) : List (Nat × α) := (List.range as.length).zip as

def item (r : Report) : Item :=
  .record [("size_before_clear", .nat r.sizeBeforeClear), ("final_values", .list (r.finalValues.map .text)),
    ("mark", (r.mark.map .int).getD .null), ("oldest_offset", .nat r.oldest), ("tail_offset", .nat r.tail),
    ("writers", .list ((numbered r.writers).map fun (number, s) => writerItem number s))]

def writerLine (number : Nat) (s : Stats) : String :=
  s!"  writer {number}: replayed {s.recordsReplayed}, wrote {s.updatesWritten}, " ++
    s!"conflicts {s.conflicts}, compactions {s.compactions}, recoveries {s.truncationRecoveries}"

def lines (r : Report) : List String :=
  [s!"Members before clear: {r.sizeBeforeClear}", s!"Members now: {r.finalValues.length}"] ++
    r.finalValues.map ("  " ++ ·) ++
    ["Mark: " ++ (r.mark.map toString).getD "unset",
      s!"Retained log: {r.oldest}..{r.tail} ({r.tail - r.oldest} bytes)"] ++
    (numbered r.writers).map fun (number, s) => writerLine number s

end SetDemo

namespace Contention

open Trial.Stress

def milliseconds (elapsed : Duration) : Float := elapsed.toFloat * 1000

def item (r : Report) (elapsed : Duration) : Item :=
  .record [("threads", .nat r.setup.writers), ("updates_per_thread", .nat r.setup.updatesPerWriter),
    ("successful_updates", .nat r.tally.successful), ("failed_updates", .nat r.tally.failed),
    ("generator_calls", .nat r.tally.generatorCalls), ("conflicts", .nat r.tally.conflicts),
    ("final_value", .int r.final.toInt),
    ("duration_ms", .number (numberStyle.render (milliseconds elapsed))),
    ("ops_per_second", .number (numberStyle.render (r.successPerSecond elapsed)))]

def lines (r : Report) (elapsed : Duration) : List String :=
  ["", "=== Counter contention ===",
    s!"Writers: {r.setup.writers} x {r.setup.updatesPerWriter} increments",
    s!"Successful: {r.tally.successful}", s!"Failed: {r.tally.failed}",
    s!"Generator calls: {r.tally.generatorCalls}", s!"Conflicts: {r.tally.conflicts}",
    s!"Final value: {r.final}",
    "Duration: " ++ hundredths (milliseconds elapsed) ++ " ms",
    "Throughput: " ++ hundredths (r.successPerSecond elapsed) ++ " ops/sec"]

end Contention

end LogReplica.CommandLine
