import LogReplica.Alone
import LogReplica.Model.Counter

namespace LogReplica.Trial.Stress

structure Setup where
  writers : Nat := 4
  updatesPerWriter : Nat := 100
  retry : RetryPolicy := .unbounded

structure Tally where
  successful : Nat := 0
  failed : Nat := 0
  generatorCalls : Nat := 0
  conflicts : Nat := 0

structure Report where
  setup : Setup
  tally : Tally
  final : Int64

namespace Report

/-- No increment that landed was lost or counted twice. -/
def isConsistent (r : Report) : Bool := r.tally.successful < 2 ^ 63 && r.final.toInt == r.tally.successful

def successPerSecond (r : Report) (elapsed : Duration) : Float :=
  let seconds := elapsed.toFloat
  if seconds > 0 then (UInt64.ofNat r.tally.successful).toFloat / seconds else 0

end Report

def segment : SegmentId := ⟨"trial", "stress", 0⟩

def openSite (setup : Setup) : Run (Site .counter) := do
  let client : Client Model.counter.Record := ⟨segment, Config.default.readBuffer, Counter.cbor⟩
  let site : Site .counter := { replica := ⟨client, setup.retry⟩ }
  let (_, site) ← site.call id client.establish
  pure site

/-- Increments that give up are counted, and the writer carries on. -/
def increments : (count : Nat) → Site .counter → Tally → Run (Site .counter × Tally)
  | 0, site, tally => pure (site, tally)
  | count + 1, site, tally => do
    let (result, site) ← ExceptT.lift (site.updateWith (fun _ => [.add 1]) id)
    match result with
    | .ok () => increments count site { tally with successful := tally.successful + 1 }
    | .error (.retriesExhausted _) => increments count site { tally with failed := tally.failed + 1 }
    | .error cause => throw cause

def writers (setup : Setup) : (count : Nat) → Tally → Run Tally
  | 0, tally => pure tally
  | count + 1, tally => do
    let site ← openSite setup
    let (site, tally) ← increments setup.updatesPerWriter site tally
    writers setup count { tally with
      generatorCalls := tally.generatorCalls + site.calls
      conflicts := tally.conflicts + site.memory.stats.conflicts }

def report (setup : Setup) : Run Report := do
  let first ← openSite setup
  let _ ← first.call id (first.replica.establish 0)
  let tally ← writers setup setup.writers {}
  let last ← openSite setup
  let (final, _) ← last.call id last.replica.getState
  pure ⟨setup, tally, final⟩

def run (setup : Setup) : Except CoreError Report := ((report setup).run.run .empty).1

end LogReplica.Trial.Stress
