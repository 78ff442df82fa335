import LogReplica.Segment.Store

namespace LogReplica

structure Faults where
  appends : Nat := 0
  reads : Nat := 0
  attributeWrites : Nat := 0
  retryable : Bool := true
  injected : Nat := 0

namespace Faults

def disarm (f : Faults) : Faults := { f with appends := 0, reads := 0, attributeWrites := 0 }

def failure (f : Faults) (detail : String) : Option SegmentError × Faults :=
  (some (.transport ("injected " ++ detail ++ " failure") f.retryable), { f with injected := f.injected + 1 })

def meet (f : Faults) : Request → Option SegmentError × Faults
  | .append .. => if f.appends = 0 then (none, f) else { f with appends := f.appends - 1 }.failure "append"
  | .readAt .. => if f.reads = 0 then (none, f) else { f with reads := f.reads - 1 }.failure "read"
  | .compareAndSetAttribute .. =>
    if f.attributeWrites = 0 then (none, f)
    else { f with attributeWrites := f.attributeWrites - 1 }.failure "attribute write"
  | _ => (none, f)

end Faults

/-- A competing record that goes in front of the next conditional appends. -/
structure Contention where
  record : Bytes
  pending : Nat := 0
  conditionalAppends : Nat := 0
  conflicts : Nat := 0

namespace Contention

def arrive (c : Contention) (expected : Option Nat) : Bool × Contention :=
  if expected.isNone then (false, c)
  else (c.pending ≠ 0, { c with
    conditionalAppends := c.conditionalAppends + 1
    pending := c.pending - 1 })

def settle (c : Contention) : Reply (.append expected data) → Contention
  | .ok (.conflict _) => { c with conflicts := c.conflicts + 1 }
  | _ => c

variable {m : Type → Type} [Monad m]

def serve (read : m Contention) (write : Contention → m Unit)
    (behind : SegmentId → (q : Request) → m (Reply q)) (segment : SegmentId) :
    (q : Request) → m (Reply q)
  | .append expected data => do
    let (interferes, c) := (← read).arrive expected
    write c
    let competing ←
      if interferes then (·.map fun _ => ()) <$> behind segment (.append none c.record)
      else pure (.ok ())
    match competing with
    | .error cause => pure (.error cause)
    | .ok () => do
      let reply ← behind segment (.append expected data)
      write ((← read).settle reply)
      pure reply
  | request => behind segment request

end Contention

end LogReplica
