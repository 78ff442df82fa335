import LogReplica.Alone

namespace LogReplica

variable {M : Model} {R α β S σ : Type}

namespace Procedure

variable (handle : (action : Action M R) → OptionT (StateM S) action.Answer)

/-- What a procedure comes to, if it comes to anything, when `handle` carries out its steps. -/
def evaluate (p : Procedure M R α) (s : S) : Option α × S := (p.run handle).run.run s

theorem evaluate_step (action : Action M R) (next : action.Answer → Procedure M R α) (s : S) :
    evaluate handle (.step action next) s =
      match (handle action).run.run s with
      | (some answer, s) => evaluate handle (next answer) s
      | (none, s) => (none, s) := by
  simp only [evaluate, run, OptionT.run_bind, Option.elimM, StateT.run_bind]
  rcases (handle action).run.run s with ⟨_ | answer, s⟩ <;> rfl

theorem evaluate_bind (p : Procedure M R α) (f : α → Procedure M R β) (s : S) :
    evaluate handle (p >>= f) s =
      match evaluate handle p s with
      | (some a, s) => evaluate handle (f a) s
      | (none, s) => (none, s) := by
  induction p generalizing s with
  | done a => rfl
  | step action next ih =>
    show evaluate handle (.step action fun answer => next answer >>= f) s = _
    rw [evaluate_step, evaluate_step]
    rcases (handle action).run.run s with ⟨_ | answer, s⟩
    · rfl
    · exact ih answer s

theorem evaluate_attempt (call : Attempt M R α) (f : α → Attempt M R β) (s : S) :
    evaluate handle (call >>= f).run s =
      match evaluate handle call.run s with
      | (some (.ok a), s) => evaluate handle (f a).run s
      | (some (.error cause), s) => (some (.error cause), s)
      | (none, s) => (none, s) := by
  show evaluate handle (call.run >>= _) s = _
  rw [evaluate_bind]
  rcases evaluate handle call.run s with ⟨_ | _ | a, s⟩ <;> rfl

theorem evaluate_of_ok {call : Attempt M R α} {s s' : S} {a : α}
    (evaluated : evaluate handle call.run s = (some (.ok a), s')) (f : α → Attempt M R β) :
    evaluate handle (call >>= f).run s = evaluate handle (f a).run s' := by
  rw [evaluate_attempt, evaluated]

theorem evaluate_of_error {call : Attempt M R α} {s s' : S} {cause : CoreError}
    (evaluated : evaluate handle call.run s = (some (.error cause), s')) (f : α → Attempt M R β) :
    evaluate handle (call >>= f).run s = (some (.error cause), s') := by
  rw [evaluate_attempt, evaluated]

theorem evaluate_of_none {call : Attempt M R α} {s s' : S} (evaluated : evaluate handle call.run s = (none, s'))
    (f : α → Attempt M R β) : evaluate handle (call >>= f).run s = (none, s') := by
  rw [evaluate_attempt, evaluated]

theorem evaluate_lift {p : Procedure M R α} {s s' : S} {a : α} (evaluated : evaluate handle p s = (some a, s')) :
    evaluate handle (ExceptT.lift p : Attempt M R α).run s = (some (.ok a), s') := by
  show evaluate handle (p >>= _) s = _
  rw [evaluate_bind, evaluated]
  rfl

theorem evaluate_lift_none {p : Procedure M R α} {s s' : S} (evaluated : evaluate handle p s = (none, s')) :
    evaluate handle (ExceptT.lift p : Attempt M R α).run s = (none, s') := by
  show evaluate handle (p >>= _) s = _
  rw [evaluate_bind, evaluated]

end Procedure

def Action.shown : Action M R → List M.State
  | generate state => [state]
  | _ => []

/-- A call that runs alone, with all the states that the caller's function has been called with. -/
structure Session (σ S : Type) extends Solo σ S where
  shown : List S := []

namespace Session

variable (server : Server σ) (summarize : M.State → M.Snapshot)

/-- Carries out a step, where what the caller's function makes of a state may depend on the earlier ones. -/
def perform (generate : List M.State → M.State → List M.Update × R) (action : Action M R) :
    OptionT (StateM (Session σ M.State)) action.Answer :=
  .mk fun s =>
    let (answer, solo) := (Solo.perform server (generate s.shown) summarize action).run.run s.toSolo
    (answer, ⟨solo, s.shown ++ action.shown⟩)

def run (generate : List M.State → M.State → List M.Update × R) (call : Attempt M R α) (s : Session σ M.State) :
    Except CoreError α × Session σ M.State :=
  let (result, s) := Procedure.evaluate (perform server summarize generate) call.run s
  (result.getD (.error .taskFailed), s)

end Session

end LogReplica
