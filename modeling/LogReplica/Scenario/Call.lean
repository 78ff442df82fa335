import LogReplica.Scenario.World

namespace LogReplica.Scenario

structure Callbacks (M : Model) (m : Type → Type) where
  generate : M.State → m (List M.Update × M.State)
  summarize : M.State → m M.Snapshot

inductive Abort where
  | abort

abbrev Calling := ExceptT Abort (StateT (List GeneratorCall) Play)

structure Access (S : Type) where
  read : Play (Memory S)
  write : Memory S → Play Unit

namespace Calling

def play {α : Type} (p : Play α) : Calling α := ExceptT.lift (StateT.lift p)

variable {M : Model}

def noCallbacks : Callbacks M Calling where
  generate _ := throw .abort
  summarize _ := throw .abort

def perform (again : Step → Play Answer) (service : Nat) (access : Access M.State)
    (callbacks : Callbacks M Calling) : (action : Action M M.State) → Calling action.Answer
  | .ask segment q => play (Play.request again service segment q)
  | .touch t => play do
    let (answer, memory) := t.run (← access.read)
    access.write memory
    pure answer
  | .generate state => callbacks.generate state
  | .summarize state => callbacks.summarize state
  | .abort => throw .abort

def scripted? {α : Type} (items : List α) (i : Nat) : Option α := items[i]? <|> items.getLast?

/-- One run of a generator: it is noted, the steps meant for it are taken, and it yields or ends the call. -/
def generated {α : Type} (again : Step → Play Answer) (kind : ModelKind) (during : List (Option (List Step)))
    (panicOn : Option Nat) (script : Option (List (kind.model.State → α))) (state : kind.model.State) :
    Calling α := do
  let calls ← get
  let attempt := calls.length
  let answers ←
    match during[attempt]? with
    | some (some steps) => some <$> play (steps.mapM again)
    | _ => pure none
  set (⟨kind, state, answers⟩ :: calls)
  if panicOn = some attempt then throw .abort
  match (script.bind fun items => scripted? items attempt) with
  | some yield => pure (yield state)
  | none => throw .abort

def callbacks (again : Step → Play Answer) (kind : ModelKind) (generator : Generator)
    (during : List (Option (List Step))) (panicOn : Option Nat) : Callbacks kind.model Calling where
  generate state := do
    let script :=
      match generator with
      | .updates _ batches => batches kind
      | .snapshots _ => none
    let updates ← generated again kind during panicOn script state
    pure (updates, state)
  summarize state := do
    let script :=
      match generator with
      | .snapshots values => values kind
      | .updates .. => none
    generated again kind during panicOn script state

/-- Runs a call to its end; where it has none, an asynchronous caller still learns of a failed task. -/
def finish {α : Type} (again : Step → Play Answer) (service : Nat) (async : Bool) (access : Access M.State)
    (callbacks : Callbacks M Calling) (call : Attempt M M.State α) :
    Play (Except Failure α × List GeneratorCall) := do
  let (result, calls) ← (call.run.run (perform again service access callbacks)).run.run []
  let result :=
    match result with
    | .ok (.ok a) => .ok a
    | .ok (.error cause) => .error (.core cause)
    | .error .abort => .error (if async then .core .taskFailed else .panic)
  pure (result, calls.reverse)

end Calling

end LogReplica.Scenario
