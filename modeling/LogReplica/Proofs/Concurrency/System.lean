import LogReplica.ReplicatedSet
import LogReplica.Segment.Store
import Mathlib.Logic.Function.Basic
import Mathlib.Logic.Relation

namespace LogReplica

inductive Lock where
  | cache
  | removals
deriving DecidableEq

def Touch.takes? {S : Type} : Touch S → Option Lock
  | lockCache => some .cache
  | lockRemovals => some .removals
  | _ => none

def Touch.gives? {S : Type} : Touch S → Option Lock
  | unlockCache => some .cache
  | unlockRemovals => some .removals
  | _ => none

def Touch.needs? {S : Type} : Touch S → Option Lock
  | unlockCache | remember _ => some .cache
  | unlockRemovals | setRemovalsLeft _ => some .removals
  | _ => none

/-- A call under a number of its own, the place of its memory, and what it is to do there. -/
structure Caller (O : Type) where
  call : Nat
  place : Nat
  operation : O
deriving DecidableEq

/-- What a call does in one step. -/
inductive Deed (M : Model) (R : Type) where
  | called
  | acted (action : Action M R) (answer : action.Answer)
  /-- The request was not served, and had no effect. -/
  | failed (segment : SegmentId) (request : Request) (cause : SegmentError)
  /-- The call ended without a result of its own. -/
  | gaveUp

structure Event (M : Model) (R O : Type) where
  caller : Caller O
  deed : Deed M R

abbrev Trace (M : Model) (R O : Type) := List (Event M R O)

/-- What calls share. -/
structure World (M : Model) where
  store : Store
  memories : Nat → Memory M.State
  holders : Nat → Lock → Option Nat

namespace World

variable {M : Model} {R O : Type}

def fresh : World M where
  store := .empty
  memories _ := { removalsLeft := ReplicatedSet.removalsBeforeCompaction }
  holders _ _ := none

def touch (w : World M) (caller : Caller O) (t : Touch M.State) : World M where
  store := w.store
  memories := Function.update w.memories caller.place (t.run (w.memories caller.place)).2
  holders place lock :=
    if place = caller.place ∧ t.takes? = some lock then some caller.call
    else if place = caller.place ∧ t.gives? = some lock then none
    else w.holders place lock

def release (w : World M) (call : Nat) : World M where
  store := w.store
  memories place := { w.memories place with
    cacheLocked := (w.memories place).cacheLocked && w.holders place .cache != some call
    removalsLocked := (w.memories place).removalsLocked && w.holders place .removals != some call }
  holders place lock := if w.holders place lock = some call then none else w.holders place lock

def note (w : World M) (e : Event M R O) : World M :=
  match e.deed with
  | .called => w
  | .acted (.ask segment request) _ => { w with store := (Store.serve segment request w.store).2 }
  | .acted (.touch t) _ => w.touch e.caller t
  | .acted _ _ => w
  | .failed .. => w
  | .gaveUp => w.release e.caller.call

/-- What is left when all these events have happened, in this order. -/
def after (trace : Trace M R O) : World M := trace.foldl note fresh

end World

variable {M : Model} {R O α : Type}

/-- Whether an event can be the next one: the store answers truly, and a lock is waited for. -/
def Event.Fits (w : World M) (e : Event M R O) : Prop :=
  match e.deed with
  | .acted (.ask segment request) answer => answer = (Store.serve segment request w.store).1
  | .acted (.touch t) answer =>
    t.Enabled (w.memories e.caller.place) ∧ answer = (t.run (w.memories e.caller.place)).1
  | _ => True

inductive Outcome : (action : Action M R) → action.Answer → Deed M R → Prop
  | acted (action : Action M R) (answer : action.Answer) : Outcome action answer (.acted action answer)
  | failed (segment : SegmentId) (request : Request) (cause : SegmentError) :
    Outcome (.ask segment request) (.error cause) (.failed segment request cause)

/-- The functions that callers hand in may end a call, as it may itself. -/
def Action.MayEnd : Action M R → Prop
  | .generate _ | .summarize _ | .abort => True
  | _ => False

structure Call (M : Model) (R O α : Type) where
  caller : Caller O
  rest : Procedure M R (Except CoreError α)

def Call.isDone (call : Call M R O α) : Bool :=
  match call.rest with
  | .done _ => true
  | .step .. => false

theorem Call.exists_of_isDone {call : Call M R O α} (done : call.isDone = true) :
    ∃ result, call.rest = .done result := by
  obtain ⟨caller, rest⟩ := call
  cases rest with
  | done result => exact ⟨result, rfl⟩
  | step action next => cases done

structure System (M : Model) (R O α : Type) where
  trace : Trace M R O
  calls : Nat → Option (Call M R O α)

namespace System

def initial : System M R O α := ⟨[], fun _ => none⟩

def world (s : System M R O α) : World M := .after s.trace

def proceed (s : System M R O α) (caller : Caller O) (deed : Deed M R)
    (rest : Procedure M R (Except CoreError α)) : System M R O α where
  trace := s.trace ++ [⟨caller, deed⟩]
  calls := Function.update s.calls caller.call (some ⟨caller, rest⟩)

/-- One step of one call, where an operation at a place is the call that `program` says. -/
inductive Step (program : Nat → O → Attempt M R α) (s : System M R O α) : System M R O α → Prop
  | call (caller : Caller O) (new : s.calls caller.call = none) :
    Step program s (s.proceed caller .called (program caller.place caller.operation).run)
  | act (caller : Caller O) (action : Action M R) (next : action.Answer → Procedure M R (Except CoreError α))
    (answer : action.Answer) (deed : Deed M R)
    (running : s.calls caller.call = some ⟨caller, .step action next⟩)
    (outcome : Outcome action answer deed) (fits : Event.Fits s.world ⟨caller, deed⟩) :
    Step program s (s.proceed caller deed (next answer))
  | panic (caller : Caller O) (action : Action M R)
    (next : action.Answer → Procedure M R (Except CoreError α))
    (running : s.calls caller.call = some ⟨caller, .step action next⟩) (ends : action.MayEnd) :
    Step program s (s.proceed caller .gaveUp (.done (.error .taskFailed)))

abbrev Steps (program : Nat → O → Attempt M R α) : System M R O α → System M R O α → Prop :=
  Relation.ReflTransGen (Step program)

abbrev Reachable (program : Nat → O → Attempt M R α) (s : System M R O α) : Prop := Steps program initial s

def Returned (s : System M R O α) (caller : Caller O) (result : Except CoreError α) : Prop :=
  s.calls caller.call = some ⟨caller, .done result⟩

def Idle (s : System M R O α) : Prop :=
  ∀ id call, s.calls id = some call → ∃ result, call.rest = .done result

end System

end LogReplica
