import LogReplica.Proofs.Replica.Fetching

namespace LogReplica

variable {M : Model} {R α β : Type}

def Entry.placed (position : Nat) (data : Bytes) : Entry := ⟨position, position + Framed.headerSize + data.length, data⟩

def Entry.repeated (position : Nat) (data : Bytes) : Nat → List Entry
  | 0 => []
  | n + 1 => repeated position data n ++ [placed (ending position (repeated position data n)) data]

theorem RetryPolicy.allows_iff {p : RetryPolicy} {attempts : Nat} :
    p.allows attempts = true ↔ ∀ k, p.maxAttempts = some k → attempts < k := by
  cases bound : p.maxAttempts <;> simp [allows, bound]

namespace Record

def onto (record : M.Record) (state : M.State) (name : String) (revision : Revision) : M.State :=
  match record with
  | .init snapshot => M.create snapshot name revision
  | .updates batch => foldUpdates batch state revision

theorem apply_some (record : M.Record) (state : M.State) (name : String) (revision : Revision) :
    record.apply (some state) name revision = .ok (record.onto state name revision) := by
  cases record <;> rfl

end Record

namespace Store

variable {store : Store} {segment : SegmentId} {log : List Entry} {data foreign : Bytes}

theorem Logs.Lands.eq_placed {expected : Option Nat} {e : Entry}
    (lands : Logs.Lands store segment log expected data e) : e = Entry.placed (ending 0 log) data := by
  have ends := lands.logs.chain.endOffset_eq
  obtain ⟨offset, endOffset, payload⟩ := e
  obtain rfl : payload = data := lands.payload
  obtain rfl : offset = ending 0 log := lands.begins
  rw [Entry.placed, ← ends]

theorem Logs.overtaken (logs : store.Logs segment log) (present : (store.get? segment).isSome = true)
    (small : data.length < Framed.payloadLimit) {expected : Nat} (other : expected ≠ ending 0 log) :
    (Store.serve segment (.append (some expected) data) store).1 = .ok (.conflict (ending 0 log)) ∧
      (Store.serve segment (.append (some expected) data) store).2.buffer segment = store.buffer segment := by
  have taken : ¬(some expected).all (· = (store.buffer segment).tail) = true := by
    rw [logs.tail_eq]
    simpa using other
  have refused : (store.buffer segment).append (some expected) data =
      (.conflict (ending 0 log), store.buffer segment) := by
    rw [Framed.append, if_neg taken, logs.tail_eq]
  simp only [Store.serve, if_pos small, within_fst, buffer_within, if_pos present, refused]
  exact ⟨rfl, by split <;> rfl⟩

theorem serve_append_of_large (large : Framed.payloadLimit ≤ data.length) (expected : Option Nat) (store : Store) :
    Store.serve segment (.append expected data) store = (.error (.entryTooLarge data.length), store) :=
  if_neg (Nat.not_lt.mpr large)

structure Beaten (store store' : Store) (segment : SegmentId) (log : List Entry) (foreign : Bytes) : Prop where
  logs : store'.Logs segment (log ++ [Entry.placed (ending 0 log) foreign])
  present : (store'.get? segment).isSome = true
  start : (store'.buffer segment).start = (store.buffer segment).start

theorem Logs.goesFirst (logs : store.Logs segment log) (present : (store.get? segment).isSome = true)
    (short : foreign.length < Framed.payloadLimit) :
    ∃ store₁ offset endOffset,
      Store.serve segment (.append none foreign) store = (.ok (.appended offset endOffset), store₁) ∧
      Beaten store store₁ segment log foreign := by
  have lands : Logs.Lands store segment log none foreign _ := logs.lands short present rfl
  have logs' := lands.logs
  rw [lands.eq_placed] at logs'
  exact ⟨_, _, _, Prod.ext lands.reply rfl, logs', present_serve present segment _, lands.start⟩

theorem Beaten.overtakes {store₁ : Store} (beaten : Beaten store store₁ segment log foreign)
    (small : data.length < Framed.payloadLimit) :
    ∃ store₂ tail,
      Store.serve segment (.append (some (ending 0 log)) data) store₁ = (.ok (.conflict tail), store₂) ∧
      Beaten store store₂ segment log foreign := by
  have further : ending 0 log ≠ ending 0 (log ++ [Entry.placed (ending 0 log) foreign]) := by
    simp only [ending_append, ending_cons, ending_nil, Entry.placed, Framed.headerSize]
    omega
  obtain ⟨conflict, kept⟩ := beaten.logs.overtaken beaten.present small further
  refine ⟨_, _, Prod.ext conflict rfl, beaten.logs.of_buffer_eq kept, present_serve beaten.present segment _, ?_⟩
  rw [kept, beaten.start]

end Store

namespace Contention

variable {c : Contention} {segment : SegmentId} {expected : Nat} {data : Bytes} {store store₁ store₂ : Store}
  {offset endOffset : Nat} {reply : Reply (.append (some expected) data)}

theorem server_of_unopposed (unopposed : c.pending = 0)
    (served : Store.serve segment (.append (some expected) data) store = (reply, store₁)) :
    (server segment (.append (some expected) data)).run (c, store) =
      (reply, settle { c with conditionalAppends := c.conditionalAppends + 1 } reply, store₁) := by
  have arrives : c.arrive (some expected) = (false, { c with conditionalAppends := c.conditionalAppends + 1 }) := by
    obtain ⟨record, pending, appends, conflicts⟩ := c
    obtain rfl : pending = 0 := unopposed
    rfl
  simp only [server, serve, arrives, StateT.run_bind, StateT.run_pure, StateT.run_get, StateT.run_modify,
    StateT.run_modifyGet, pure_bind, Bool.false_eq_true, ↓reduceIte, served]
  rfl

theorem server_of_opposed (opposed : c.pending ≠ 0)
    (first : Store.serve segment (.append none c.record) store = (.ok (.appended offset endOffset), store₁))
    (second : Store.serve segment (.append (some expected) data) store₁ = (reply, store₂)) :
    (server segment (.append (some expected) data)).run (c, store) =
      (reply, settle { c with
        pending := c.pending - 1
        conditionalAppends := c.conditionalAppends + 1 } reply, store₂) := by
  have arrives : c.arrive (some expected) = (true, { c with
      pending := c.pending - 1
      conditionalAppends := c.conditionalAppends + 1 }) := by
    simp [arrive, opposed]
  have same : (c.arrive (some expected)).2.record = c.record := by rw [arrives]
  rw [← same] at first
  simp only [server, serve, arrives, StateT.run_bind, StateT.run_pure, StateT.run_map, StateT.run_get,
    StateT.run_modify, StateT.run_modifyGet, pure_bind, map_pure, ↓reduceIte, first, Except.map, second]
  rfl

end Contention

/-- What a conditional write at `latest` makes of the answer to its append; after the last ordinal it has no result. -/
def Client.outcome? {T : Type} (c : Client T) (latest : Revision) {expected : Option Nat} {data : Bytes} :
    Reply (.append expected data) → Option (Except CoreError (Option Revision))
  | .ok (.appended _ endOffset) =>
    (Revision.nextEvent? latest.event).map fun event => .ok (some ⟨c.segment, endOffset, event⟩)
  | .ok (.conflict _) => some (.ok none)
  | .error cause => some (.error (.ofSegment cause))

namespace Session

variable (summarize : M.State → M.Snapshot) (generate : List M.State → M.State → List M.Update × R)

abbrev contested : (action : Action M R) → OptionT (StateM (Session (Contention × Store) M.State)) action.Answer :=
  perform Contention.server summarize generate

def behind {S : Type} (s : Session (Contention × Store) S) : Solo Store S := ⟨s.memory, s.service.2, s.calls⟩

def passed {S : Type} (s : Session (Contention × Store) S) (solo : Solo Store S) : Session (Contention × Store) S :=
  { s with memory := solo.memory, service := (s.service.1, solo.service), calls := solo.calls }

theorem evaluate_of_reading {p : Procedure M R α} {holds : α → Prop} (confined : p.Confined Action.OfReading holds)
    (constant : M.State → List M.Update × R) (s : Session (Contention × Store) M.State) :
    p.evaluate (contested summarize generate) s =
      ((Solo.play constant summarize p s.behind).1, s.passed (Solo.play constant summarize p s.behind).2) := by
  induction p generalizing s with
  | done a => rfl
  | step action next ih =>
    obtain ⟨reads, rest⟩ := confined
    have unshown : s.shown ++ action.shown = s.shown := by
      cases action with
      | generate => exact (reads.elim id id).elim
      | _ => exact List.append_nil _
    have acted : (contested summarize generate action).run.run s =
        ((Solo.play constant summarize (.perform action) s.behind).1,
          s.passed (Solo.play constant summarize (.perform action) s.behind).2) := by
      have whole : (contested summarize generate action).run.run s =
        (((Solo.perform Contention.server (generate s.shown) summarize action).run.run s.toSolo).1,
          ⟨((Solo.perform Contention.server (generate s.shown) summarize action).run.run s.toSolo).2,
            s.shown ++ action.shown⟩) := rfl
      rw [whole, unshown]
      cases action with
      | ask segment q =>
        have passive := reads.resolve_right id
        cases q with
        | append | compareAndSetAttribute | truncateBefore => exact passive.elim
        | createSegment | readAt | tailOffset | oldestOffset | getAttribute => rfl
      | generate | summarize => exact (reads.elim id id).elim
      | touch | abort => rfl
    rw [Procedure.evaluate_step, Solo.play_step, acted]
    rcases Solo.play constant summarize (.perform action) s.behind with ⟨_ | answer, solo⟩
    · rfl
    · exact ih answer (rest answer) _

theorem evaluate_ask {segment : SegmentId} {q : Request} {s : Session (Contention × Store) M.State} {reply : Reply q}
    {service : Contention × Store} (served : (Contention.server segment q).run s.service = (reply, service)) :
    (Attempt.ask segment q : Attempt M R _).run.evaluate (contested summarize generate) s =
      (some (reply.mapError .ofSegment), { s with service := service }) := by
  have asked : (Procedure.perform (.ask segment q) : Procedure M R _).evaluate (contested summarize generate) s =
      (some reply, { s with service := service }) := by
    have whole : (Procedure.perform (.ask segment q) : Procedure M R _).evaluate (contested summarize generate) s =
      (some ((Contention.server segment q).run s.service).1,
        { s with service := ((Contention.server segment q).run s.service).2, shown := s.shown ++ [] }) := rfl
    rw [whole, served, List.append_nil]
  show Procedure.evaluate _ (.perform (.ask segment q) >>= _) s = _
  rw [Procedure.evaluate_bind, asked]
  cases reply <;> rfl

theorem evaluate_touch (t : Touch M.State) (s : Session (Contention × Store) M.State) :
    (Procedure.touch t : Procedure M R _).evaluate (contested summarize generate) s =
      (some (t.run s.memory).1, { s with memory := (t.run s.memory).2 }) := by
  have whole : (Procedure.touch t : Procedure M R _).evaluate (contested summarize generate) s =
    (some (t.run s.memory).1, { s with memory := (t.run s.memory).2, shown := s.shown ++ [] }) := rfl
  rw [whole, List.append_nil]

theorem evaluate_abort (s : Session (Contention × Store) M.State) :
    (Attempt.abort : Attempt M R α).run.evaluate (contested summarize generate) s = (none, s) := by
  have whole : (Attempt.abort : Attempt M R α).run.evaluate (contested summarize generate) s =
    (none, { s with shown := s.shown ++ [] }) := rfl
  rw [whole, List.append_nil]

theorem evaluate_ensureOpen {s : Session (Contention × Store) M.State} (opened : s.memory.closed = false) :
    (Client.ensureOpen : Attempt M R Unit).run.evaluate (contested summarize generate) s = (some (.ok ()), s) := by
  have touched := Procedure.evaluate_lift _ (evaluate_touch (R := R) summarize generate .isClosed s)
  have free : (Touch.isClosed.run s.memory).1 = false := opened
  rw [free] at touched
  exact (Procedure.evaluate_of_ok _ touched _).trans rfl

section Writing

variable {T : Type} {c : Client T} {s : Session (Contention × Store) M.State} {latest : Revision} {value : T}
  {bytes : Bytes} {service : Contention × Store} (own : latest.segment = c.segment) (opened : s.memory.closed = false)

include own opened

theorem evaluate_writeConditionally {reply : Reply (.append (some latest.offset) bytes)}
    (encoded : c.codec.encode value = .ok bytes)
    (served : (Contention.server c.segment (.append (some latest.offset) bytes)).run s.service = (reply, service)) :
    (c.writeConditionally latest value : Attempt M R _).run.evaluate (contested summarize generate) s =
      (c.outcome? latest reply, { s with service := service }) := by
  have checked : (c.checkSegment latest : Attempt M R Unit) = pure () := if_pos own
  have written : (c.encode value : Attempt M R Bytes) = pure bytes := by
    rw [Client.encode, encoded]
  have asked := evaluate_ask (R := R) summarize generate served
  rw [Client.writeConditionally, Procedure.evaluate_of_ok _ (evaluate_ensureOpen summarize generate opened), checked,
    pure_bind, written, pure_bind, Procedure.evaluate_attempt, Client.ask, asked]
  rcases reply with cause | ⟨offset, endOffset⟩ | tail
  · rfl
  · dsimp only [Except.mapError]
    rw [Client.outcome?]
    cases Revision.nextEvent? latest.event with
    | none => exact evaluate_abort summarize generate _
    | some event => rfl
  · rfl

theorem evaluate_writeConditionally_unencodable {cause : CodecError} (failed : c.codec.encode value = .error cause) :
    (c.writeConditionally latest value : Attempt M R _).run.evaluate (contested summarize generate) s =
      (some (.error (.encoding cause)), s) := by
  have checked : (c.checkSegment latest : Attempt M R Unit) = pure () := if_pos own
  have refused : (c.encode value : Attempt M R Bytes) = throw (.encoding cause) := by
    rw [Client.encode, failed]
  rw [Client.writeConditionally, Procedure.evaluate_of_ok _ (evaluate_ensureOpen summarize generate opened), checked,
    pure_bind, refused]
  rfl

end Writing

def withLock {σ S : Type} (taken : Bool) (s : Session σ S) : Session σ S :=
  { s with memory := { s.memory with cacheLocked := taken } }

theorem evaluate_locked {body : Attempt M R α} {s s' : Session (Contention × Store) M.State}
    {result : Except CoreError α}
    (evaluated : body.run.evaluate (contested summarize generate) (s.withLock true) = (some result, s')) :
    (Attempt.locked body).run.evaluate (contested summarize generate) s = (some result, s'.withLock false) := by
  show Procedure.evaluate _ (Procedure.touch .lockCache >>= fun _ => body.run >>= fun result =>
    Procedure.touch .unlockCache >>= fun _ => pure result) s = _
  rw [Procedure.evaluate_bind, evaluate_touch]
  have taken : { s with memory := (Touch.lockCache.run s.memory).2 } = s.withLock true := rfl
  dsimp only
  rw [taken, Procedure.evaluate_bind, evaluated]
  dsimp only
  rw [Procedure.evaluate_bind, evaluate_touch]
  rfl

theorem evaluate_applyWritten {r : Replica M} {s : Session (Contention × Store) M.State} {copy : Revisioned M.State}
    (cached : s.memory.cache = some copy) (revision : Revision) (record : M.Record) :
    (r.applyWritten copy.revision revision record : Procedure M R Unit).evaluate (contested summarize generate) s =
      (some (), { s with memory := { s.memory with
        cache := some ⟨record.onto copy.state r.name revision, revision⟩
        cacheLocked := false } }) := by
  have touched : (Attempt.touch .cached : Attempt M R _).run.evaluate (contested summarize generate) (s.withLock true) =
      (some (.ok (some copy)), s.withLock true) := by
    rw [← cached]
    exact Procedure.evaluate_lift _ (evaluate_touch summarize generate .cached (s.withLock true))
  have applied : r.applyRecord record (some copy.state) revision =
      .ok ⟨record.onto copy.state r.name revision, revision⟩ := by
    rw [Replica.applyRecord, Record.apply_some]
    rfl
  have folded := Procedure.evaluate_lift _ (evaluate_touch (R := R) summarize generate
    (.remember (some ⟨record.onto copy.state r.name revision, revision⟩)) (s.withLock true))
  rw [Replica.applyWritten, Procedure.evaluate_bind,
    evaluate_locked summarize generate ((Procedure.evaluate_of_ok _ touched _).trans ?folding)]
  case folding =>
    simp only [if_pos (show copy.revision.SamePosition copy.revision from ⟨rfl, rfl⟩), applied]
    exact folded
  rfl

theorem evaluate_getRevisionedState {d : Deployment M} {place : Nat} {s : Session (Contention × Store) M.State}
    {log span : List Entry} {copy : Revisioned M.State} (foresees : d.Foresees s.behind log span copy) :
    ((d.replica place).getRevisionedState : Attempt M R _).run.evaluate (contested summarize generate) s =
      (some (.ok copy), s.passed ((s.behind.fetched copy span.length).withLock false)) := by
  rw [evaluate_of_reading summarize generate (d.replica place).getRevisionedState_confined (generate s.shown) s,
    foresees.play_getRevisionedState place]

theorem evaluate_getRevisionedState_uncounted {d : Deployment M} {place ordinal : Nat}
    {s : Session (Contention × Store) M.State} {front span : List Entry} {old : Revisioned M.State} {e : Entry}
    {record : M.Record} (cached : s.memory.cache = some old)
    (here : old.revision = ⟨d.segment, ending 0 front, ordinal⟩)
    (logs : s.service.2.Logs d.segment (front ++ e :: span)) (present : (s.service.2.get? d.segment).isSome = true)
    (opened : s.memory.closed = false) (reached : (s.service.2.buffer d.segment).start ≤ ending 0 front)
    (decoded : d.codec.decode e.data = .ok record) (last : Revision.eventLimit ≤ ordinal + 1) :
    ((d.replica place).getRevisionedState : Attempt M R _).run.evaluate (contested summarize generate) s =
      (none, s.withLock true) := by
  rw [evaluate_of_reading summarize generate (d.replica place).getRevisionedState_confined (generate s.shown) s,
    Deployment.play_getRevisionedState_uncounted place (generate s.shown) summarize (s := s.behind) cached here logs
      present opened reached decoded last]
  rfl

def showing {σ S : Type} (state : S) (s : Session σ S) : Session σ S :=
  { s with calls := s.calls + 1, shown := s.shown ++ [state] }

def counting {σ S : Type} (tally : Tally) (s : Session σ S) : Session σ S :=
  { s with memory := { s.memory with stats := s.memory.stats.count tally } }

def proposal (state : M.State) : Procedure M R (Option M.Record × R) := do
  let (updates, result) ← Procedure.perform (.generate state)
  pure (if updates.isEmpty then none else some (.updates updates), result)

theorem evaluate_proposal (state : M.State) (s : Session (Contention × Store) M.State) :
    (proposal state).evaluate (contested summarize generate) s =
      (some (if (generate s.shown state).1.isEmpty then none else some (.updates (generate s.shown state).1),
        (generate s.shown state).2), s.showing state) := rfl

section Attempt

variable {r : Replica M} {left attempts : Nat} {s s' s'' : Session (Contention × Store) M.State}
  {copy : Revisioned M.State} (undelayed : r.retry.delay? attempts = some .zero)
  (caught : (r.getRevisionedState : Attempt M R _).run.evaluate (contested summarize generate) s =
    (some (.ok copy), s'))

omit s' s'' copy caught in
include undelayed in
theorem evaluate_pause :
    (ExceptT.lift (r.pause attempts) : Attempt M R Unit).run.evaluate (contested summarize generate) s =
      (some (.ok ()), s) := by
  rw [Replica.pause, undelayed]
  rfl

omit s'' copy caught in
include undelayed in
theorem evaluate_attempt_uncaught
    (ended : (r.getRevisionedState : Attempt M R _).run.evaluate (contested summarize generate) s = (none, s')) :
    (r.writeLoop proposal (left + 1) attempts).run.evaluate (contested summarize generate) s = (none, s') := by
  rw [Replica.writeLoop, Procedure.evaluate_of_ok _ (evaluate_pause summarize generate undelayed)]
  exact Procedure.evaluate_of_none _ ended _

include undelayed caught

theorem evaluate_attempt_quit {result : R} (proposes : generate s'.shown copy.state = ([], result)) :
    (r.writeLoop proposal (left + 1) attempts).run.evaluate (contested summarize generate) s =
      (some (.ok ⟨result, none⟩), s'.showing copy.state) := by
  have proposed := Procedure.evaluate_lift _ (evaluate_proposal summarize generate copy.state s')
  rw [proposes] at proposed
  rw [Replica.writeLoop, Procedure.evaluate_of_ok _ (evaluate_pause summarize generate undelayed),
    Procedure.evaluate_of_ok _ caught, Procedure.evaluate_of_ok _ proposed]
  rfl

variable {updates : List M.Update} {result : R} (proposes : generate s'.shown copy.state = (updates, result))
  (nonempty : updates ≠ [])

include proposes nonempty

theorem evaluate_attempt {outcome : Option (Except CoreError (Option Revision))}
    (wrote : (r.client.writeConditionally copy.revision (.updates updates) : Attempt M R _).run.evaluate
      (contested summarize generate) (s'.showing copy.state) = (outcome, s'')) :
    (r.writeLoop proposal (left + 1) attempts).run.evaluate (contested summarize generate) s =
      match outcome with
      | some (.ok (some revision)) =>
        (do ExceptT.lift (r.applyWritten copy.revision revision (.updates updates))
            pure ⟨result, some (copy.revision, revision)⟩ : Attempt M R _).run.evaluate
          (contested summarize generate) s''
      | some (.ok none) =>
        if r.retry.allows (attempts + 1) then
          (r.writeLoop proposal left (attempts + 1)).run.evaluate (contested summarize generate)
            (s''.counting .conflict)
        else (some (.error (.retriesExhausted (attempts + 1))), s''.counting .conflict)
      | some (.error cause) => (some (.error cause), s'')
      | none => (none, s'') := by
  have proposed := Procedure.evaluate_lift _ (evaluate_proposal summarize generate copy.state s')
  rw [proposes, if_neg (by simpa using nonempty)] at proposed
  have counted := Procedure.evaluate_lift _ (evaluate_touch (R := R) summarize generate (.tally .conflict) s'')
  rw [Replica.writeLoop, Procedure.evaluate_of_ok _ (evaluate_pause summarize generate undelayed),
    Procedure.evaluate_of_ok _ caught, Procedure.evaluate_of_ok _ proposed]
  rcases outcome with _ | cause | _ | revision
  · exact Procedure.evaluate_of_none _ wrote _
  · exact Procedure.evaluate_of_error _ wrote _
  · refine (Procedure.evaluate_of_ok _ wrote _).trans ((Procedure.evaluate_of_ok _ counted _).trans ?_)
    dsimp only
    split <;> rfl
  · exact Procedure.evaluate_of_ok _ wrote _

theorem evaluate_attempt_landed {revision : Revision} (cached : s''.memory.cache = some copy)
    (wrote : (r.client.writeConditionally copy.revision (.updates updates) : Attempt M R _).run.evaluate
      (contested summarize generate) (s'.showing copy.state) = (some (.ok (some revision)), s'')) :
    (r.writeLoop proposal (left + 1) attempts).run.evaluate (contested summarize generate) s =
      (some (.ok ⟨result, some (copy.revision, revision)⟩), { s'' with memory := { s''.memory with
        cache := some ⟨Record.foldUpdates updates copy.state revision, revision⟩
        cacheLocked := false } }) := by
  have applied := Procedure.evaluate_lift _
    (evaluate_applyWritten (R := R) summarize generate (r := r) cached revision (.updates updates))
  refine (evaluate_attempt summarize generate undelayed caught proposes nonempty wrote).trans ?_
  exact Procedure.evaluate_of_ok _ applied _

end Attempt

end Session

end LogReplica
