import LogReplica.Replica.Memory
import LogReplica.Segment.Service

namespace LogReplica

/-- A single step of a call on a replica of model `M`, whose update functions also return an `R`. -/
inductive Action (M : Model) (R : Type) where
  | ask (segment : SegmentId) (request : Request)
  | touch (t : Touch M.State)
  | generate (state : M.State)
  | summarize (state : M.State)
  | abort

namespace Action

variable {M : Model} {R : Type}

@[reducible] def Answer : Action M R → Type
  | ask _ request => Reply request
  | touch t => t.Answer
  | generate _ => List M.Update × R
  | summarize _ => M.Snapshot
  | abort => Empty

end Action

inductive Procedure (M : Model) (R : Type) (α : Type) where
  | done (result : α)
  | step (action : Action M R) (next : action.Answer → Procedure M R α)

namespace Procedure

variable {M : Model} {R α β : Type}

def bind : Procedure M R α → (α → Procedure M R β) → Procedure M R β
  | done a, f => f a
  | step action next, f => step action fun answer => (next answer).bind f

instance : Monad (Procedure M R) where
  pure := done
  bind := bind

theorem bind_done (p : Procedure M R α) : p.bind done = p := by
  induction p with
  | done a => rfl
  | step action next ih => simp only [bind]; congr; funext answer; exact ih answer

theorem bind_assoc {γ : Type} (p : Procedure M R α) (f : α → Procedure M R β)
    (g : β → Procedure M R γ) : (p.bind f).bind g = p.bind fun a => (f a).bind g := by
  induction p with
  | done a => rfl
  | step action next ih => simp only [bind]; congr; funext answer; exact ih answer

instance : LawfulMonad (Procedure M R) :=
  LawfulMonad.mk' _ (fun p => bind_done p) (fun _ _ => rfl) (fun p f g => bind_assoc p f g)

def perform (action : Action M R) : Procedure M R action.Answer := step action done

def touch (t : Touch M.State) : Procedure M R t.Answer := perform (.touch t)

def abort : Procedure M R α := step .abort fun impossible => nomatch impossible

def run {m : Type → Type} [Monad m] (handle : (action : Action M R) → m action.Answer) :
    Procedure M R α → m α
  | done a => pure a
  | step action next => do
    let answer ← handle action
    (next answer).run handle

end Procedure

abbrev Attempt (M : Model) (R : Type) := ExceptT CoreError (Procedure M R)

namespace Attempt

variable {M : Model} {R α : Type}

def touch (t : Touch M.State) : Attempt M R t.Answer := ExceptT.lift (Procedure.touch t)

def ask (segment : SegmentId) (request : Request) : Attempt M R request.Answer := do
  match ← ExceptT.lift (Procedure.perform (.ask segment request)) with
  | .ok answer => pure answer
  | .error cause => throw (.ofSegment cause)

def abort : Attempt M R α := ExceptT.lift Procedure.abort

/-- Holds the lock of the cache for the whole of `body`, also if it fails. -/
def locked (body : Attempt M R α) : Attempt M R α :=
  ExceptT.mk do
    Procedure.touch .lockCache
    let result ← body.run
    Procedure.touch .unlockCache
    pure result

end Attempt

end LogReplica
