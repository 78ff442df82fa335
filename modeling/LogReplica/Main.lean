import LogReplica.CommandLine.Run

open LogReplica LogReplica.CommandLine

def main (args : List String) : IO UInt32 := do
  let started ← IO.monoNanosNow
  let outcome ← IO.lazyPure fun _ => run args
  let finished ← IO.monoNanosNow
  let ending := outcome.ending ⟨finished - started⟩
  IO.print ending.stdout
  IO.eprint ending.stderr
  pure ending.exit
