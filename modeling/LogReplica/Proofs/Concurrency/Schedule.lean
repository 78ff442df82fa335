import LogReplica.Proofs.Concurrency.System

namespace LogReplica

instance Touch.decidableEnabled {S : Type} (m : Memory S) (t : Touch S) : Decidable (t.Enabled m) := by
  cases t <;> (unfold Touch.Enabled; infer_instance)

inductive Move (O : Type) where
  | call (caller : Caller O)
  | act (call : Nat)
  | fail (call : Nat) (cause : SegmentError)
  | panic (call : Nat)

namespace Move

variable {O : Type}

def steps (call count : Nat) : List (Move O) := List.replicate count (.act call)

def run (caller : Caller O) (count : Nat) : List (Move O) := .call caller :: steps caller.call count

end Move

namespace System

variable {M : Model} {R O α : Type}

/-- A system with the world that it has led to. -/
structure Stage (M : Model) (R O α : Type) where
  system : System M R O α
  world : World M

namespace Stage

def initial : Stage M R O α := ⟨System.initial, .fresh⟩

def proceed (stage : Stage M R O α) (caller : Caller O) (deed : Deed M R) (rest : Procedure M R (Except CoreError α)) :
    Stage M R O α :=
  ⟨stage.system.proceed caller deed rest, stage.world.note (⟨caller, deed⟩ : Event M R O)⟩

variable (program : Nat → O → Attempt M R α) (generate : M.State → List M.Update × R) (summarize : M.State → M.Snapshot)

def act (stage : Stage M R O α) (caller : Caller O) :
    (action : Action M R) → (action.Answer → Procedure M R (Except CoreError α)) → Stage M R O α
  | .ask segment request, next =>
    let answer := (Store.serve segment request stage.world.store).1
    stage.proceed caller (.acted (.ask segment request) answer) (next answer)
  | .touch t, next =>
    if t.Enabled (stage.world.memories caller.place) then
      let answer := (t.run (stage.world.memories caller.place)).1
      stage.proceed caller (.acted (.touch t) answer) (next answer)
    else stage
  | .generate state, next => stage.proceed caller (.acted (.generate state) (generate state)) (next (generate state))
  | .summarize state, next => stage.proceed caller (.acted (.summarize state) (summarize state))
    (next (summarize state))
  | .abort, _ => stage

def fail (stage : Stage M R O α) (caller : Caller O) (cause : SegmentError) :
    (action : Action M R) → (action.Answer → Procedure M R (Except CoreError α)) → Stage M R O α
  | .ask segment request, next => stage.proceed caller (.failed segment request cause) (next (.error cause))
  | _, _ => stage

def panic (stage : Stage M R O α) (caller : Caller O) : Action M R → Stage M R O α
  | .generate _ | .summarize _ | .abort => stage.proceed caller .gaveUp (.done (.error .taskFailed))
  | _ => stage

def take (stage : Stage M R O α) : Move O → Stage M R O α
  | .call caller =>
    match stage.system.calls caller.call with
    | none => stage.proceed caller .called (program caller.place caller.operation).run
    | some _ => stage
  | .act call =>
    match stage.system.calls call with
    | some ⟨caller, .step action next⟩ => stage.act generate summarize caller action next
    | _ => stage
  | .fail call cause =>
    match stage.system.calls call with
    | some ⟨caller, .step action next⟩ => stage.fail caller cause action next
    | _ => stage
  | .panic call =>
    match stage.system.calls call with
    | some ⟨caller, .step action _⟩ => stage.panic caller action
    | _ => stage

def play (stage : Stage M R O α) (schedule : List (Move O)) : Stage M R O α :=
  schedule.foldl (take program generate summarize) stage

variable {program generate summarize} {stage stage' : Stage M R O α}

/-- The world is what has happened, and calls stand under their own numbers. -/
structure Fair (stage : Stage M R O α) : Prop where
  world : stage.world = stage.system.world
  keyed : ∀ id call, stage.system.calls id = some call → call.caller.call = id

variable (program) in
structure Leads (stage stage' : Stage M R O α) : Prop where
  steps : stage.system.Steps program stage'.system
  fair : stage'.Fair

theorem fair_initial : (initial : Stage M R O α).Fair := ⟨rfl, fun _ _ none => by cases none⟩

theorem Fair.leads (fair : stage.Fair) : Leads program stage stage := ⟨.refl, fair⟩

theorem Fair.proceed (fair : stage.Fair) {caller : Caller O} {deed : Deed M R}
    {rest : Procedure M R (Except CoreError α)}
    (step : stage.system.Step program (stage.system.proceed caller deed rest)) :
    Leads program stage (stage.proceed caller deed rest) := by
  refine ⟨.single step, ?_, ?_⟩
  · show stage.world.note _ = World.after (stage.system.trace ++ [_])
    rw [fair.world]
    simp only [World.after, List.foldl_append, List.foldl_cons, List.foldl_nil, System.world]
  · intro id call here
    by_cases same : id = caller.call
    · subst same
      have here := (Function.update_self _ _ stage.system.calls).symm.trans here
      cases here
      rfl
    · exact fair.keyed id call ((Function.update_of_ne same _ stage.system.calls).symm.trans here)

theorem Fair.act (fair : stage.Fair) {caller : Caller O} {action : Action M R}
    {next : action.Answer → Procedure M R (Except CoreError α)}
    (running : stage.system.calls caller.call = some ⟨caller, .step action next⟩) :
    Leads program stage (stage.act generate summarize caller action next) := by
  have goes : ∀ answer, Event.Fits stage.world ⟨caller, .acted action answer⟩ →
      Leads program stage (stage.proceed caller (.acted action answer) (next answer)) := fun answer fits =>
    fair.proceed (.act caller action next answer _ running (.acted action answer) (fair.world ▸ fits))
  cases action with
  | ask segment request => exact goes _ rfl
  | touch t =>
    by_cases enabled : t.Enabled (stage.world.memories caller.place)
    · simp only [Stage.act, if_pos enabled]
      exact goes _ ⟨enabled, rfl⟩
    · simp only [Stage.act, if_neg enabled]
      exact fair.leads
  | generate state => exact goes _ trivial
  | summarize state => exact goes _ trivial
  | abort => exact fair.leads

theorem Fair.fail (fair : stage.Fair) {caller : Caller O} {action : Action M R} (cause : SegmentError)
    {next : action.Answer → Procedure M R (Except CoreError α)}
    (running : stage.system.calls caller.call = some ⟨caller, .step action next⟩) :
    Leads program stage (stage.fail caller cause action next) := by
  cases action with
  | ask segment request =>
    exact fair.proceed (.act caller _ next _ _ running (.failed segment request cause) trivial)
  | touch | generate | summarize | abort => exact fair.leads

theorem Fair.panic (fair : stage.Fair) {caller : Caller O} {action : Action M R}
    {next : action.Answer → Procedure M R (Except CoreError α)}
    (running : stage.system.calls caller.call = some ⟨caller, .step action next⟩) :
    Leads program stage (stage.panic caller action) := by
  cases action with
  | generate | summarize | abort => exact fair.proceed (.panic caller _ next running trivial)
  | ask | touch => exact fair.leads

theorem Fair.take (fair : stage.Fair) (move : Move O) :
    Leads program stage (stage.take program generate summarize move) := by
  have running : ∀ {id caller rest}, stage.system.calls id = some ⟨caller, rest⟩ →
      stage.system.calls caller.call = some ⟨caller, rest⟩ := by
    intro id caller rest here
    have same := fair.keyed id _ here
    exact same ▸ here
  cases move with
  | call caller =>
    simp only [Stage.take]
    split
    · rename_i new
      exact fair.proceed (.call caller new)
    · exact fair.leads
  | act id =>
    simp only [Stage.take]
    split
    · rename_i here
      exact fair.act (running here)
    · exact fair.leads
  | fail id cause =>
    simp only [Stage.take]
    split
    · rename_i here
      exact fair.fail cause (running here)
    · exact fair.leads
  | panic id =>
    simp only [Stage.take]
    split
    · rename_i here
      exact fair.panic (running here)
    · exact fair.leads

theorem Fair.play (fair : stage.Fair) (schedule : List (Move O)) :
    Leads program stage (stage.play program generate summarize schedule) := by
  induction schedule generalizing stage with
  | nil => exact fair.leads
  | cons move schedule ih =>
    have first : Leads program stage (stage.take program generate summarize move) := fair.take move
    have rest := ih first.fair
    exact ⟨first.steps.trans rest.steps, rest.fair⟩

end Stage

end System

end LogReplica
