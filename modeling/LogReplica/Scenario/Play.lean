import LogReplica.Describe
import LogReplica.Scenario.Call

namespace LogReplica.Scenario

structure Outcome where
  result : Except Failure Shown
  revisions : List Revision := []
  attempts : Option (List GeneratorCall) := none

namespace Outcome

def ok (shown : Shown) : Outcome := { result := .ok shown }

def fail (failure : Failure) : Outcome := { result := .error failure }

def ofExcept {α : Type} (result : Except Failure α) (shown : α → Shown) (revisions : α → List Revision) : Outcome :=
  match result with
  | .ok a => { result := .ok (shown a), revisions := revisions a }
  | .error failure => .fail failure

end Outcome

namespace ObjectState

def clientMemory? : ObjectState → Option (Memory Empty)
  | client _ _ memory => some memory
  | _ => none

def replicaMemory? (kind : ModelKind) : ObjectState → Option (Memory kind.model.State)
  | replica k _ _ memory => if h : k = kind then some (h ▸ memory) else none
  | _ => none

def withClientMemory (memory : Memory Empty) : ObjectState → ObjectState
  | client kind c _ => client kind c memory
  | other => other

def withReplicaMemory (kind : ModelKind) (memory : Memory kind.model.State) : ObjectState → ObjectState
  | replica k isSet r old => if h : kind = k then replica k isSet r (h ▸ memory) else replica k isSet r old
  | other => other

end ObjectState

namespace Play

def objectAt? (place : Nat) : Play (Option Object) := do pure (← get).objects[place]?

def setState (place : Nat) (state : ObjectState) : Play Unit :=
  modify fun w => { w with objects := w.objects.modify place fun object => { object with state := state } }

def changeState (place : Nat) (f : ObjectState → ObjectState) : Play Unit :=
  modify fun w => { w with objects := w.objects.modify place fun object => { object with state := f object.state } }

def clientAccess (place : Nat) : Access Empty where
  read := do pure (((← objectAt? place).bind (·.state.clientMemory?)).getD {})
  write memory := changeState place (·.withClientMemory memory)

def replicaAccess (place : Nat) (kind : ModelKind) : Access kind.model.State where
  read := do pure (((← objectAt? place).bind (·.state.replicaMemory? kind)).getD {})
  write memory := changeState place (·.withReplicaMemory kind memory)

def addObject (name : String) (object : Object) : Play Unit :=
  modify fun w => { w with
    objects := w.objects.push object
    objectNames := w.objectNames.insert name w.objects.size }

def addService (name : String) (service : Service) : Play Unit :=
  modify fun w => { w with
    services := w.services.push service
    serviceNames := w.serviceNames.insert name w.services.size }

def resolve (segment : SegmentId) : RevisionRef → Play (Option Revision)
  | .saved name => do pure ((← get).saved.get? name)
  | .position other offset event => pure (some ⟨other.getD segment, offset, event⟩)

/-- A reference to nothing is a revision that is none. -/
def resolve? (segment : SegmentId) : Option RevisionRef → Play (Option (Option Revision))
  | none => pure (some none)
  | some ref => do pure ((← resolve segment ref).map some)

structure Runner (M : Model) where
  run : {α : Type} → Attempt M M.State α → Play (Except Failure α)

instance {M : Model} : CoeFun (Runner M) fun _ => {α : Type} → Attempt M M.State α → Play (Except Failure α) :=
  ⟨fun r => r.run⟩

def runner {M : Model} (again : Step → Play Answer) (service : Nat) (async : Bool) (access : Access M.State) :
    Runner M where
  run call := do
    let (result, _) ← Calling.finish again service async access Calling.noCallbacks call
    pure result

/-- All that a reading gives, with the error that ends it as the last item. An asynchronous caller
gets all records or the error, and no revisions to save. -/
def readAll {M : Model} (run : Runner M) (async : Bool) (kind : ValueKind) (client : Client kind.Value)
    (start : Revision) : Play Outcome := do
  let result ← run do
    let reader ← client.readFrom start
    ExceptT.lift reader.rest
  match result with
  | .error failure => pure (.fail failure)
  | .ok (records, ending) =>
    let revisions := if async then [] else records.map (·.1)
    let items := records.map fun record => Except.ok (some record)
    let result : Except Failure Shown :=
      match ending with
      | .complete => .ok (.records kind items)
      | .failed cause => if async then .error (.core cause) else .ok (.records kind (items ++ [.error cause]))
      | .uncounted => .error (if async then .core .taskFailed else .panic)
    pure { result := result, revisions := revisions }

def clientStep {M : Model} (run : Runner M) (service : Nat) (async : Bool) (access : Access M.State)
    (kind : ValueKind) (client : Client kind.Value) : ClientCommand → Play Outcome
  | .segment => pure (.ok (.text client.segment.toString))
  | .read start => do
    match ← resolve client.segment start with
    | none => pure (.fail .badInput)
    | some start => readAll run async kind client start
  | .iter name start => do
    match ← resolve client.segment start with
    | none => pure (.fail .badInput)
    | some start =>
      match ← run (client.readFrom start) with
      | .error failure => pure (.fail failure)
      | .ok reader => do
        addObject name ⟨service, async, .reader kind reader⟩
        pure (.ok .nothing)
  | .writeConditionally latest value => do
    match ← resolve client.segment latest, value kind with
    | some latest, some value =>
      let result ← run (client.writeConditionally latest value)
      pure (.ofExcept result .revision Option.toList)
    | _, _ => pure (.fail .badInput)
  | .writeUnconditionally value => do
    match value kind with
    | some value =>
      let result ← run (client.writeUnconditionally value)
      pure (.ofExcept result (fun revision => .revision (some revision)) fun revision => [revision])
    | none => pure (.fail .badInput)
  | .fetchLatest => do
    let result ← run client.fetchLatest
    pure (.ofExcept result (fun revision => .revision (some revision)) fun revision => [revision])
  | .fetchOldest => do
    let result ← run client.fetchOldest
    pure (.ofExcept result (fun revision => .revision (some revision)) fun revision => [revision])
  | .getMark => do
    let result ← run client.getMark
    pure (.ofExcept result .revision Option.toList)
  | .compareAndSetMark expected new => do
    match ← resolve? client.segment expected, ← resolve? client.segment new with
    | some expected, some new =>
      let result ← run (client.compareAndSetMark expected new)
      pure (.ofExcept result .flag fun _ => [])
    | _, _ => pure (.fail .badInput)
  | .truncateTo start => do
    match ← resolve client.segment start with
    | some start =>
      let result ← run (client.truncateTo start)
      pure (.ofExcept result (fun _ => .nothing) fun _ => [])
    | none => pure (.fail .badInput)
  | .close => do
    let result ← run (ExceptT.lift Client.close)
    pure (.ofExcept result (fun _ => .nothing) fun _ => [])
  | .isClosed => do pure (.ok (.flag (← access.read).closed))
  | .debug => do pure (.ok (.text (Describe.client client (← access.read).closed)))

def replicaStep (kind : ModelKind) (run : Runner kind.model) (access : Access kind.model.State)
    (r : Replica kind.model) : ReplicaCommand → Play Outcome
  | .initialState value => do
    match value kind with
    | none => pure (.fail .badInput)
    | some value =>
      let result ← run (r.establish value)
      pure (.ofExcept result (fun _ => .nothing) fun _ => [])
  | .initialStateIfAbsent value => do
    match value kind with
    | none => pure (.fail .badInput)
    | some value =>
      let result ← run (r.establishIfAbsent value)
      pure (.ofExcept result .flag fun _ => [])
  | .fetchUpdates => do
    let result ← run r.fetchUpdates
    pure (.ofExcept result (fun _ => .nothing) fun _ => [])
  | .getState => do
    let result ← run r.getState
    pure (.ofExcept result (.state kind) fun _ => [])
  | .getRevisionedState => do
    let result ← run r.getRevisionedState
    pure (.ofExcept result (.revisioned kind) fun current => [current.revision])
  | .revision => do
    let revision := (← access.read).cache.map (·.revision)
    pure { result := .ok (.revision revision), revisions := revision.toList }
  | .bytesSinceCompaction => do
    let result ← run r.bytesSinceCompaction
    pure (.ofExcept result .number fun _ => [])
  | .stats => do pure (.ok (.stats (← access.read).stats))

def generatorStep (again : Step → Play Answer) (service : Nat) (async : Bool) (kind : ModelKind)
    (access : Access kind.model.State) (r : Replica kind.model) (generator : Generator)
    (during : List (Option (List Step))) (panicOn : Option Nat) : Play Outcome := do
  let call : Attempt kind.model kind.model.State Shown :=
    match generator with
    | .updates true _ => do
      let state ← r.updateStateWithResult
      pure (.state kind state)
    | .updates false _ => do
      r.updateState
      pure .nothing
    | .snapshots _ => do
      r.compact
      pure .nothing
  let (result, calls) ← Calling.finish again service async access
    (Calling.callbacks again kind generator during panicOn) call
  match result with
  | .error .panic => pure (.fail .panic)
  | result => pure { result := result, attempts := some calls }

def setFailure : Failure → Failure
  | .core cause => .set ⟨cause⟩
  | other => other

def setStep (item : ItemKind) (run : Runner (Model.memberSet item.Item))
    (r : Replica (Model.memberSet item.Item)) (command : SetCommand) : Play Outcome := do
  let call : Option (Attempt (Model.memberSet item.Item) (MemberSet item.Item) Shown) :=
    match command with
    | .update => some do
      ReplicatedSet.update r
      pure .nothing
    | .contains value => (value item).map fun value => do
      pure (.flag (← ReplicatedSet.contains r value))
    | .add value => (value item).map fun value => do
      ReplicatedSet.add r value
      pure .nothing
    | .remove value => (value item).map fun value => do
      ReplicatedSet.remove r value
      pure .nothing
    | .currentValues => some do
      pure (.members item (← ReplicatedSet.currentValues r))
    | .currentSize => some do
      pure (.number (← ReplicatedSet.currentSize r))
    | .clear => some do
      ReplicatedSet.clear r
      pure .nothing
  match call with
  | none => pure (.fail .badInput)
  | some call => do
    let result ← run call
    pure { result := result.mapError setFailure }

/-- The next items of an iterator; none if one of them has no ordinal. -/
def nextItems (run : Runner stateless) {kind : ValueKind} : (count : Nat) → Reader kind.Value →
    Play (Option (List (Except CoreError (Option (Revision × kind.Value)))) × Reader kind.Value)
  | 0, reader => pure (some [], reader)
  | count + 1, reader => do
    match ← run (ExceptT.lift reader.next) with
    | .error _ => pure (none, reader)
    | .ok (.uncounted, reader) => pure (none, reader)
    | .ok (.finished, reader) => follow (.ok none) (← nextItems run count reader)
    | .ok (.failed cause, reader) => follow (.error cause) (← nextItems run count reader)
    | .ok (.record revision value, reader) =>
      follow (.ok (some (revision, value))) (← nextItems run count reader)
where
  follow (item : Except CoreError (Option (Revision × kind.Value)))
      (rest : Option (List (Except CoreError (Option (Revision × kind.Value)))) × Reader kind.Value) :
      Play (Option (List (Except CoreError (Option (Revision × kind.Value)))) × Reader kind.Value) :=
    pure (rest.1.map (item :: ·), rest.2)

def badInput : Play Outcome := pure (.fail .badInput)

def objectStep (again : Step → Play Answer) (place : Nat) (object : Object) (command : Command) : Play Outcome :=
  match object.state, command with
  | .client kind client _, .client command =>
    let access := clientAccess place
    clientStep (M := stateless) (runner again object.service object.async access) object.service object.async
      access kind client command
  | .reader _ reader, .client .debug => pure (.ok (.text (Describe.reader reader)))
  | .reader _ reader, .reader .endOffset => pure (.ok (.number reader.endOffset))
  | .reader kind reader, .reader (.next count) => do
    let access : Access Empty := ⟨pure {}, fun _ => pure ()⟩
    let run : Runner stateless := runner again object.service false access
    let (items, reader) ← nextItems run count reader
    setState place (.reader kind reader)
    match items with
    | some items => pure (.ok (.records kind items))
    | none => pure (.fail .panic)
  | .replica kind isSet r _, command =>
    let access := replicaAccess place kind
    let run : Runner kind.model := runner again object.service object.async access
    match kind, isSet, r, access, run, command with
    | _, _, r, _, _, .client .segment => pure (.ok (.text r.segment.toString))
    | _, _, _, _, run, .client .close => do
      let result ← run (ExceptT.lift Replica.close)
      pure (.ofExcept result (fun _ => .nothing) fun _ => [])
    | .members item, true, r, _, run, .set command => setStep item run r command
    | _, false, r, _, _, .client .debug => pure (.ok (.text (Describe.replica r)))
    | kind, false, r, access, run, .replica command => replicaStep kind run access r command
    | kind, false, r, access, _, .clientOf command =>
      clientStep (runner again object.service false access) object.service false access (.records kind) r.client command
    | kind, false, r, access, _, .generate generator during panicOn =>
      generatorStep again object.service object.async kind access r generator during panicOn
    | _, _, _, _, _, _ => badInput
  | _, _ => badInput

def serviceStep (again : Step → Play Answer) (place : Nat) (command : ServiceCommand) : Play Outcome := do
  match command with
  | .entryCount segment =>
    let store ← storeBehind place
    match store.entryCount segment with
    | .ok n => pure (.ok (.number n))
    | .error cause => pure (.fail (.service cause))
  | .segmentCount => do
    let store ← storeBehind place
    pure (.ok (.number store.size))
  | .request segment q => do
    match q, ← request again place segment q with
    | _, .error cause => pure (.fail (.service cause))
    | .createSegment, .ok fresh => pure (.ok (.flag fresh))
    | .append .., .ok outcome => pure (.ok (.appended outcome))
    | .readAt .., .ok entries => pure (.ok (.entries entries))
    | .tailOffset, .ok n => pure (.ok (.number n))
    | .oldestOffset, .ok n => pure (.ok (.number n))
    | .getAttribute _, .ok value => pure (.ok (.attribute value))
    | .compareAndSetAttribute .., .ok swapped => pure (.ok (.flag swapped))
    | .truncateBefore _, .ok () => pure (.ok .nothing)
  | .faults command =>
    visitService place (.fail .badInput) fun service =>
      match service with
      | .faulty f behind =>
        let (outcome, f) : Outcome × Faults :=
          match command with
          | .failAppends n => (.ok .nothing, { f with appends := n })
          | .failReads n => (.ok .nothing, { f with reads := n })
          | .failAttributeWrites n => (.ok .nothing, { f with attributeWrites := n })
          | .setRetryable value => (.ok .nothing, { f with retryable := value })
          | .reset => (.ok .nothing, f.disarm)
          | .injected => (.ok (.number f.injected), f)
        (outcome, .faulty f behind)
      | other => (.fail .badInput, other)
  | .contention command =>
    visitService place (.fail .badInput) fun service =>
      match service with
      | .contending c behind =>
        let (outcome, c) : Outcome × Contention :=
          match command with
          | .contend n => (.ok .nothing, { c with pending := n })
          | .conditionalAppends => (.ok (.number c.conditionalAppends), c)
          | .conflicts => (.ok (.number c.conflicts), c)
        (outcome, .contending c behind)
      | other => (.fail .badInput, other)

def armHook (place : Nat) (hook : Hook) : Play Outcome :=
  visitService place (.fail .badInput) fun service =>
    match service with
    | .hooked hooks behind => (.ok .nothing, .hooked (hooks ++ [hook]) behind)
    | other => (.fail .badInput, other)

def declareService (name : String) (spec : ServiceSpec) : Play Outcome := do
  let names := (← get).serviceNames
  let service :=
    match spec with
    | .memory => some (.memory .empty)
    | .faulty behind => (names.get? behind).map (.faulty {})
    | .contending behind record => (names.get? behind).map (.contending { record := record })
    | .hooked behind => (names.get? behind).map (.hooked [])
  match service with
  | none => badInput
  | some service => do
    addService name service
    pure (.ok .nothing)

def runAlone {M : Model} {α : Type} (again : Step → Play Answer) (service : Nat) (access : Access M.State)
    (call : Attempt M M.State α) : Play (Except Failure α) :=
  runner again service false access call

def openObject (again : Step → Play Answer) (spec : OpenSpec) : Play Outcome := do
  match (← get).serviceNames.get? spec.service with
  | none => badInput
  | some service => do
    let object (async : Bool) (state : ObjectState) : Object := ⟨service, async, state⟩
    match spec.kind with
    | .client kind => do
      let codec : Codec kind.Value :=
        match kind with
        | .bytes => Codec.raw
        | .records kind => kind.codec .cbor
      let client : Client kind.Value := ⟨spec.segment, spec.config.readBuffer, codec⟩
      let access : Access Empty := ⟨pure {}, fun _ => pure ()⟩
      let result ← runAlone (M := stateless) again service access (if spec.create then client.establish else pure ())
      match result with
      | .error failure => pure (.fail failure)
      | .ok () => do
        addObject spec.name (object spec.async (.client kind client {}))
        pure (.ok .nothing)
    | .replica kind => do
      let client : Client kind.model.Record :=
        ⟨spec.segment, spec.config.readBuffer, kind.codec spec.payloads⟩
      let access : Access kind.model.State := ⟨pure {}, fun _ => pure ()⟩
      let result ← runAlone again service access (if spec.create then client.establish else pure ())
      match result with
      | .error failure => pure (.fail failure)
      | .ok () => do
        addObject spec.name (object spec.async (.replica kind false ⟨client, spec.config.retry⟩ {}))
        pure (.ok .nothing)
    | .set item => do
      let kind := ModelKind.members item
      let client : Client kind.model.Record := ⟨spec.segment, spec.config.readBuffer, kind.codec .cbor⟩
      let r : Replica kind.model := ⟨client, spec.config.retry⟩
      let place := (← get).objects.size
      modify fun w => { w with
        objects := w.objects.push (object false (.replica kind true r ReplicatedSet.freshMemory)) }
      let result ← runAlone again service (replicaAccess place kind) (ReplicatedSet.openOrCreate (α := item.Item) r)
      match result with
      | .error failure => pure (.fail (setFailure failure))
      | .ok _ => do
        modify fun w => { w with objectNames := w.objectNames.insert spec.name place }
        pure (.ok .nothing)

def viewOf (object : Object) : Play ObjectView := do
  match object.state with
  | .reader .. => pure .reader
  | .client _ client _ => do pure (.client (← logView object.service client.segment))
  | .replica _ isSet r memory => do
    let log ← logView object.service r.segment
    if isSet then pure (.set log memory.stats)
    else pure (.replica log (memory.cache.map (·.revision)) memory.stats)

def viewAt (place : Option Nat) : Play (Option ObjectView) := do
  match place with
  | none => pure none
  | some place =>
    match ← objectAt? place with
    | none => pure none
    | some object => some <$> viewOf object

/-- Takes a step, with `again` for the steps that it brings about. An object that has the name of
the target goes before a service that has it. -/
def take (again : Step → Play Answer) (step : Step) : Play (Outcome × Option Nat) := do
  match step.command with
  | .declare name spec => do pure (← declareService name spec, none)
  | .openObject spec => do
    let outcome ← openObject again spec
    pure (outcome, (← get).objectNames.get? spec.name)
  | command => do
    match (← get).objectNames.get? step.target with
    | some place =>
      match ← objectAt? place with
      | some object => do pure (← objectStep again place object command, some place)
      | none => do pure (← badInput, none)
    | none =>
      match (← get).serviceNames.get? step.target with
      | none => do pure (← badInput, none)
      | some place =>
        match command with
        | .service command => do pure (← serviceStep again place command, none)
        | .arm point skip steps reply => do pure (← armHook place ⟨point, skip, steps, reply⟩, none)
        | _ => do pure (← badInput, none)

/-- Takes a step and shows what it has done; hooks that fire belong to the innermost step. -/
def answer (again : Step → Play Answer) (step : Step) : Play Answer := do
  let outer := (← get).fired
  modify fun w => { w with fired := [] }
  let (outcome, place) ← take again step
  match step.save, outcome.revisions.getLast? with
  | some name, some revision => modify fun w => { w with saved := w.saved.insert name revision }
  | _, _ => pure ()
  let hooks := (← get).fired.reverse
  modify fun w => { w with fired := outer }
  let view ← viewAt place
  pure ⟨outcome.result, view, outcome.attempts, hooks⟩

def perform : (depth : Nat) → Step → Play Answer
  | 0, _ => pure ⟨.error .badInput, none, none, []⟩
  | depth + 1, step => answer (perform depth) step

end Play

/-- Takes all steps from a fresh world. No step runs twice, so as deep as there are steps is enough. -/
def play (steps : List Step) : List Answer :=
  ((steps.mapM (Play.perform (countSteps steps + 1))).run World.start).1

end LogReplica.Scenario
