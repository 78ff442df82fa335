import LogReplica.Scenario.Answer
import LogReplica.Segment.Faults

namespace LogReplica.Scenario

structure Hook where
  point : HookPoint
  skip : Nat
  steps : Option (List Step)
  reply : Option HookReply

/-- A service; `behind` is the place of the one that it passes requests on to. -/
inductive Service where
  | memory (store : Store)
  | faulty (faults : Faults) (behind : Nat)
  | contending (contention : Contention) (behind : Nat)
  | hooked (hooks : List Hook) (behind : Nat)

@[reducible] def stateless : Model where
  State := Empty
  Update := Empty
  Snapshot := Empty
  apply update := nomatch update
  create snapshot := nomatch snapshot

inductive ObjectState where
  | client (kind : ValueKind) (client : Client kind.Value) (memory : Memory Empty)
  | replica (kind : ModelKind) (isSet : Bool) (replica : Replica kind.model) (memory : Memory kind.model.State)
  | reader (kind : ValueKind) (reader : Reader kind.Value)

structure Object where
  service : Nat
  async : Bool
  state : ObjectState

structure World where
  services : Array Service
  serviceNames : Table String Nat
  objects : Array Object
  objectNames : Table String Nat
  saved : Table String Revision
  fired : List HookReport

def World.start : World where
  services := #[.memory .empty]
  serviceNames := Table.empty.insert "m" 0
  objects := #[]
  objectNames := .empty
  saved := .empty
  fired := []

abbrev Play := StateM World

namespace Play

def setService (place : Nat) (service : Service) : Play Unit :=
  modify fun w => { w with services := w.services.setIfInBounds place service }

def visitService {α : Type} (place : Nat) (fallback : α) (f : Service → α × Service) : Play α :=
  modifyGet fun w =>
    if h : place < w.services.size then
      let service := w.services[place]
      let services := w.services.set place (.memory .empty) h
      let (answer, service) := f service
      (answer, { w with services := services.setIfInBounds place service })
    else (fallback, w)

def storePlace (services : Array Service) : (fuel place : Nat) → Nat
  | 0, place => place
  | fuel + 1, place =>
    match services[place]? with
    | some (.faulty _ behind) | some (.contending _ behind) | some (.hooked _ behind) =>
      storePlace services fuel behind
    | _ => place

def storeBehind (place : Nat) : Play Store := do
  let services := (← get).services
  match services[storePlace services (services.size + 1) place]? with
  | some (.memory store) => pure store
  | _ => pure .empty

def logView (place : Nat) (segment : SegmentId) : Play (Option LogView) := do
  let store ← storeBehind place
  pure ((store.get? segment).map fun f =>
    ⟨f.start, f.tail, f.index.size, f.attributes.get? .mark⟩)

/-- The first hook for a point fires, or comes one call closer to it. -/
def takeHook (point : HookPoint) : List Hook → Option Hook × List Hook
  | [] => (none, [])
  | hook :: rest =>
    if hook.point = point then
      if hook.skip = 0 then (some hook, rest) else (none, { hook with skip := hook.skip - 1 } :: rest)
    else
      let (fired, rest) := takeHook point rest
      (fired, hook :: rest)

def hookPoint : Request → HookPoint
  | .createSegment => .createSegment
  | .append .. => .append
  | .readAt .. => .readAt
  | .tailOffset => .tailOffset
  | .oldestOffset => .oldestOffset
  | .getAttribute .. => .getAttribute
  | .compareAndSetAttribute .. => .casAttribute
  | .truncateBefore .. => .truncateBefore

def HookReply.toReply? : (q : Request) → HookReply → Option (Reply q)
  | _, .failure cause => some (.error cause)
  | .append .., .value n => some (.ok (.conflict n))
  | .tailOffset, .value n => some (.ok n)
  | .oldestOffset, .value n => some (.ok n)
  | _, .value _ => none

/-- After an append a hook can only put a failure in place of its outcome. -/
def HookReply.afterAppend? : HookReply → Option SegmentError
  | .failure cause => some cause
  | .value _ => none

def fire (again : Step → Play Answer) (place : Nat) (point : HookPoint) : Play (Option HookReply) := do
  let hook ← visitService place none fun service =>
    match service with
    | .hooked hooks behind =>
      let (hook, hooks) := takeHook point hooks
      (hook, .hooked hooks behind)
    | other => (none, other)
  match hook with
  | none => pure none
  | some hook =>
    match hook.steps with
    | none => pure ()
    | some steps => do
      let answers ← steps.mapM again
      modify fun w => { w with fired := ⟨point, answers⟩ :: w.fired }
    pure hook.reply

def afterAppend (again : Step → Play Answer) (place : Nat) : (q : Request) → Reply q → Play (Reply q)
  | .append .., .ok outcome => do
    let reply ← fire again place .appendDone
    match reply.bind HookReply.afterAppend? with
    | some cause => pure (.error cause)
    | none => pure (.ok outcome)
  | _, reply => pure reply

def absent : SegmentError := .transport "no such service" false

/-- Serves a request at a place; `fuel` bounds how many services pass it on. -/
def serve (again : Step → Play Answer) : (fuel place : Nat) → SegmentId → (q : Request) → Play (Reply q)
  | 0, _, _, _ => pure (.error absent)
  | fuel + 1, place, segment, q => do
    match (← get).services[place]? with
    | none => pure (.error absent)
    | some (.memory _) =>
      visitService place (.error absent) fun service =>
        match service with
        | .memory store =>
          let (reply, store) := Store.serve segment q store
          (reply, .memory store)
        | other => (.error absent, other)
    | some (.faulty faults behind) => do
      let (failure, faults) := faults.meet q
      setService place (.faulty faults behind)
      match failure with
      | some cause => pure (.error cause)
      | none => serve again fuel behind segment q
    | some (.contending initial behind) =>
      let read : Play Contention := do
        match (← get).services[place]? with
        | some (.contending contention _) => pure contention
        | _ => pure initial
      let write (contention : Contention) : Play Unit := setService place (.contending contention behind)
      Contention.serve read write (serve again fuel behind) segment q
    | some (.hooked _ behind) => do
      let reply ← fire again place (hookPoint q)
      match reply.bind (HookReply.toReply? q) with
      | some reply => pure reply
      | none => do
        let reply ← serve again fuel behind segment q
        afterAppend again place q reply

def request (again : Step → Play Answer) (place : Nat) (segment : SegmentId) (q : Request) : Play (Reply q) := do
  serve again ((← get).services.size + 1) place segment q

end Play

end LogReplica.Scenario
