import LogReplica.Replica
import LogReplica.Segment.Faults

namespace LogReplica

abbrev Server (σ : Type) := SegmentId → (q : Request) → StateM σ (Reply q)

def Store.server : Server Store := Store.serve

def Contention.server : Server (Contention × Store) :=
  Contention.serve (do pure (← get).1) (fun c => modify fun s => (c, s.2))
    fun segment q => modifyGet fun s =>
      let (reply, store) := Store.serve segment q s.2
      (reply, (s.1, store))

structure Solo (σ S : Type) where
  memory : Memory S
  service : σ
  calls : Nat := 0

namespace Solo

variable {σ : Type} {M : Model} {R α : Type}

def perform (server : Server σ) (generate : M.State → List M.Update × R) (summarize : M.State → M.Snapshot) :
    (action : Action M R) → OptionT (StateM (Solo σ M.State)) action.Answer
  | .ask segment q => modifyGet fun s =>
    let (reply, service) := server segment q s.service
    (reply, { s with service := service })
  | .touch t => modifyGet fun s =>
    let (answer, memory) := t.run s.memory
    (answer, { s with memory := memory })
  | .generate state => modifyGet fun s => (generate state, { s with calls := s.calls + 1 })
  | .summarize state => modifyGet fun s => (summarize state, { s with calls := s.calls + 1 })
  | .abort => failure

/-- Runs a call; one that ends without an answer is a failed task. -/
def run (server : Server σ) (generate : M.State → List M.Update × R) (summarize : M.State → M.Snapshot)
    (call : Attempt M R α) (s : Solo σ M.State) : Except CoreError α × Solo σ M.State :=
  let (result, s) := ((call.run).run (perform server generate summarize)).run.run s
  (result.getD (.error .taskFailed), s)

end Solo

structure Site (M : Model) where
  replica : Replica M
  memory : Memory M.State := {}
  calls : Nat := 0

abbrev Run := ExceptT CoreError (StateM Store)

namespace Site

variable {M : Model} {R α : Type}

def callWith (site : Site M) (generate : M.State → List M.Update × R) (summarize : M.State → M.Snapshot)
    (call : Attempt M R α) : StateM Store (Except CoreError α × Site M) :=
  modifyGet fun store =>
    let (result, s) := Solo.run Store.server generate summarize call ⟨site.memory, store, site.calls⟩
    ((result, { site with memory := s.memory, calls := s.calls }), s.service)

def updateWith (site : Site M) (batch : M.State → List M.Update) (summary : M.State → M.Snapshot) :
    StateM Store (Except CoreError Unit × Site M) :=
  site.callWith (R := Unit) (fun state => (batch state, ())) summary site.replica.updateState

def call (site : Site M) (summary : M.State → M.Snapshot) (call : Attempt M Unit α) : Run (α × Site M) := do
  let (result, site) ← ExceptT.lift (site.callWith (fun _ => ([], ())) summary call)
  match result with
  | .ok a => pure (a, site)
  | .error cause => throw cause

def update (site : Site M) (batch : List M.Update) (summary : M.State → M.Snapshot) : Run (Site M) := do
  let (result, site) ← ExceptT.lift (site.updateWith (fun _ => batch) summary)
  match result with
  | .ok () => pure site
  | .error cause => throw cause

end Site

end LogReplica
