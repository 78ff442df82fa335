import LogReplica.Proofs.Replica.Iteration
import LogReplica.Proofs.Replica.Runs

namespace LogReplica

namespace Store

variable {store : Store} {segment : SegmentId} {log : List Entry}

/-- All that was ever appended to the segment has been dropped. -/
def Emptied (store : Store) (segment : SegmentId) (log : List Entry) : Prop :=
  ∀ e ∈ log, e.endOffset ≤ (store.buffer segment).start

theorem Logs.emptied_iff (logs : store.Logs segment log) :
    store.Emptied segment log ↔ (store.buffer segment).tail = (store.buffer segment).start := by
  rw [logs.tail_eq]
  constructor
  · intro emptied
    refine Nat.le_antisymm ?_ logs.start_le
    cases log using List.reverseRecOn with
    | nil => exact Nat.zero_le _
    | append_singleton front e =>
      have last := emptied e (by simp)
      simpa using last
  · intro reached e member
    obtain ⟨before, after, rfl⟩ := List.append_of_mem member
    have chain := logs.chain
    rw [List.append_cons, contiguous_append] at chain
    have le := chain.2.le_ending
    rw [← reached, List.append_cons, ending_append]
    simpa using le

theorem Logs.Lands.unique {expected : Option Nat} {data : Bytes} {e e' : Entry}
    (lands : Logs.Lands store segment log expected data e) (lands' : Logs.Lands store segment log expected data e') :
    e = e' := by
  obtain ⟨offset, endOffset, payload⟩ := e
  obtain ⟨offset', endOffset', payload'⟩ := e'
  obtain ⟨rfl, rfl⟩ : offset = offset' ∧ endOffset = endOffset' := by
    simpa using lands.reply.symm.trans lands'.reply
  obtain rfl : payload = data := lands.payload
  obtain rfl : payload' = payload := lands'.payload
  rfl

end Store

namespace Solo

variable {M : Model} {R α : Type} (generate : M.State → List M.Update × R) (summarize : M.State → M.Snapshot)

def withLock {σ S : Type} (taken : Bool) (s : Solo σ S) : Solo σ S :=
  { s with memory := { s.memory with cacheLocked := taken } }

theorem play_locked (body : Attempt M R α) (s : Solo Store M.State) :
    play generate summarize (Attempt.locked body).run s =
      match play generate summarize body.run (s.withLock true) with
      | (some result, s) => (some result, s.withLock false)
      | (none, s) => (none, s) := by
  have entered : play generate summarize (Procedure.touch .lockCache : Procedure M R Unit) s =
    (some (), s.withLock true) := rfl
  show play generate summarize (Procedure.touch .lockCache >>= fun _ => body.run >>= fun result =>
    Procedure.touch .unlockCache >>= fun _ => pure result) s = _
  rw [play_bind, entered]
  dsimp only
  rw [play_bind]
  rcases play generate summarize body.run (s.withLock true) with ⟨_ | result, s'⟩ <;> rfl

theorem play_of_reading {p : Procedure M R α} {holds : α → Prop} (confined : p.Confined Action.OfReading holds)
    (s : Solo Store M.State) : (∀ a, (play generate summarize p s).1 = some a → holds a) ∧
      ∀ segment, (play generate summarize p s).2.service.buffer segment = s.service.buffer segment := by
  induction p generalizing s with
  | done a =>
    refine ⟨?_, fun _ => rfl⟩
    rintro _ ⟨⟩
    exact confined
  | step action next ih =>
    obtain ⟨reads, rest⟩ := confined
    rw [play_step]
    have kept : ∀ segment, (play generate summarize (.perform action) s).2.service.buffer segment =
        s.service.buffer segment := by
      intro segment
      cases action with
      | ask other q => exact Store.buffer_serve_of_passive other (reads.resolve_right id)
      | touch | generate | summarize | abort => rfl
    rcases acted : play generate summarize (.perform action) s with ⟨_ | answer, s'⟩ <;> rw [acted] at kept
    · exact ⟨nofun, kept⟩
    · obtain ⟨holds, same⟩ := ih answer (rest answer) s'
      exact ⟨holds, fun segment => (same segment).trans (kept segment)⟩

end Solo

namespace Client

variable {T : Type} {M : Model} {R : Type} (generate : M.State → List M.Update × R) (summarize : M.State → M.Snapshot)
  {c : Client T} {s : Solo Store M.State} (present : (s.service.get? c.segment).isSome = true)
  (opened : s.memory.closed = false)

include present opened

theorem play_fetchOldest : Solo.play generate summarize (c.fetchOldest : Attempt M R Revision).run s =
    (some (.ok ⟨c.segment, (s.service.buffer c.segment).start, 0⟩), s) := by
  rw [fetchOldest, Solo.play_of_ok generate summarize (play_ensureOpen generate summarize opened),
    Solo.play_of_ok generate summarize (play_oldestOffset generate summarize present)]
  rfl

theorem play_fetchLatest : Solo.play generate summarize (c.fetchLatest : Attempt M R Revision).run s =
    (some (.ok ⟨c.segment, (s.service.buffer c.segment).tail, 0⟩), s) := by
  rw [fetchLatest, Solo.play_of_ok generate summarize (play_ensureOpen generate summarize opened),
    Solo.play_of_ok generate summarize (play_tailOffset generate summarize present)]
  rfl

theorem play_writeConditionally {log : List Entry} {event : Nat} {value : T} {bytes : Bytes}
    (logs : s.service.Logs c.segment log) (encoded : c.codec.encode value = .ok bytes)
    (small : bytes.length < Framed.payloadLimit) (counted : Revision.nextEvent? event = some (event + 1)) :
    ∃ e, Store.Logs.Lands s.service c.segment log (some (ending 0 log)) bytes e ∧
      Solo.play generate summarize (c.writeConditionally ⟨c.segment, ending 0 log, event⟩ value : Attempt M R _).run s =
        (some (.ok (some ⟨c.segment, e.endOffset, event + 1⟩)), { s with
          service := (Store.serve c.segment (.append (some (ending 0 log)) bytes) s.service).2 }) := by
  have free : (some (ending 0 log)).all (· = (s.service.buffer c.segment).tail) := by simp [logs.tail_eq]
  have lands := logs.lands small present free
  refine ⟨_, lands, ?_⟩
  have checked : (c.checkSegment ⟨c.segment, ending 0 log, event⟩ : Attempt M R Unit) = pure () := if_pos rfl
  have written : (c.encode value : Attempt M R Bytes) = pure bytes := by
    rw [encode, encoded]
  rw [writeConditionally, Solo.play_of_ok generate summarize (play_ensureOpen generate summarize opened), checked,
    pure_bind, written, pure_bind, Solo.play_attempt, ask, Solo.play_ask, lands.reply]
  dsimp only [Except.mapError]
  rw [counted]
  rfl

end Client

namespace Replica

variable {M : Model} {R : Type} (generate : M.State → List M.Update × R) (summarize : M.State → M.Snapshot)

def begun (r : Replica M) (snapshot : M.Snapshot) (bytes : Bytes) (e : Entry) (s : Solo Store M.State) :
    Solo Store M.State :=
  { s with
    memory := { s.memory with
      cache := some ⟨M.create snapshot r.name ⟨r.segment, e.endOffset, 1⟩, ⟨r.segment, e.endOffset, 1⟩⟩ }
    service := (Store.serve r.segment (.append (some e.offset) bytes) s.service).2 }

variable {r : Replica M} {s : Solo Store M.State} {log : List Entry} {snapshot : M.Snapshot} {bytes : Bytes}

section Parts

variable (present : (s.service.get? r.segment).isSome = true) (opened : s.memory.closed = false)

include present opened

/-- A call that is to begin the log sees first where it starts and where it ends. -/
theorem play_extent {α : Type} (rest : Revision → Revision → Attempt M R α) :
    Solo.play generate summarize (Attempt.locked (r.client.fetchOldest >>= fun oldest =>
      r.client.fetchLatest >>= fun latest => rest oldest latest)).run s =
    match Solo.play generate summarize (rest ⟨r.segment, (s.service.buffer r.segment).start, 0⟩
      ⟨r.segment, (s.service.buffer r.segment).tail, 0⟩).run (s.withLock true) with
    | (some result, s) => (some result, s.withLock false)
    | (none, s) => (none, s) := by
  rw [Solo.play_locked,
    Solo.play_of_ok generate summarize
      (Client.play_fetchOldest generate summarize (s := s.withLock true) present opened),
    Solo.play_of_ok generate summarize
      (Client.play_fetchLatest generate summarize (s := s.withLock true) present opened)]
  rfl

theorem play_writeInitial (logs : s.service.Logs r.segment log)
    (encoded : r.client.codec.encode (.init snapshot) = .ok bytes) (small : bytes.length < Framed.payloadLimit) :
    ∃ e, Store.Logs.Lands s.service r.segment log (some (ending 0 log)) bytes e ∧
      Solo.play generate summarize (r.writeInitial ⟨r.segment, ending 0 log, 0⟩ snapshot : Attempt M R Bool).run s =
        (some (.ok true), r.begun snapshot bytes e s) := by
  have counted : Revision.nextEvent? 0 = some (0 + 1) := rfl
  obtain ⟨e, lands, played⟩ :=
    Client.play_writeConditionally generate summarize (c := r.client) present opened logs encoded small counted
  refine ⟨e, lands, ?_⟩
  unfold writeInitial
  refine (Solo.play_of_ok generate summarize played _).trans ?_
  rw [begun, lands.begins]
  rfl

end Parts

section Beginning

variable (logs : s.service.Logs r.segment log) (present : (s.service.get? r.segment).isSome = true)
  (opened : s.memory.closed = false)

include logs present opened

section Emptied

variable (emptied : s.service.Emptied r.segment log) (encoded : r.client.codec.encode (.init snapshot) = .ok bytes)
  (small : bytes.length < Framed.payloadLimit)

include emptied encoded small

theorem play_establish_begun : ∃ e, Store.Logs.Lands s.service r.segment log (some (ending 0 log)) bytes e ∧
    Solo.play generate summarize (r.establish snapshot : Attempt M R Unit).run s =
      (some (.ok ()), (r.begun snapshot bytes e (s.withLock true)).withLock false) := by
  obtain ⟨e, lands, wrote⟩ := play_writeInitial generate summarize (s := s.withLock true) present opened logs encoded
    small
  have tail := logs.tail_eq
  have start := (logs.emptied_iff.mp emptied).symm.trans tail
  refine ⟨e, lands, ?_⟩
  rw [establish, play_extent generate summarize present opened, tail, start]
  dsimp only
  rw [if_neg (not_not.mpr ⟨rfl, rfl⟩), Solo.play_of_ok generate summarize wrote]
  rfl

theorem play_establishIfAbsent_begun : ∃ e,
    Store.Logs.Lands s.service r.segment log (some (ending 0 log)) bytes e ∧
      Solo.play generate summarize (r.establishIfAbsent snapshot : Attempt M R Bool).run s =
        (some (.ok true), (r.begun snapshot bytes e (s.withLock true)).withLock false) := by
  obtain ⟨e, lands, wrote⟩ := play_writeInitial generate summarize (s := s.withLock true) present opened logs encoded
    small
  have tail := logs.tail_eq
  have start := (logs.emptied_iff.mp emptied).symm.trans tail
  refine ⟨e, lands, ?_⟩
  rw [establishIfAbsent, play_extent generate summarize present opened, tail, start]
  dsimp only
  rw [if_pos ⟨rfl, rfl⟩, Solo.play_of_ok generate summarize wrote]
  rfl

end Emptied

section Kept

variable (kept : ¬s.service.Emptied r.segment log)

include kept

theorem play_establish_refused : Solo.play generate summarize (r.establish snapshot : Attempt M R Unit).run s =
    (some (.error (.alreadyInitialized r.segment)), (s.withLock true).withLock false) := by
  have other : ¬(⟨r.segment, (s.service.buffer r.segment).tail, 0⟩ : Revision).SamePosition
    ⟨r.segment, (s.service.buffer r.segment).start, 0⟩ := fun same => kept (logs.emptied_iff.mpr same.2)
  rw [establish, play_extent generate summarize present opened]
  dsimp only
  rw [if_pos other]
  rfl

variable (snapshot) in
theorem play_establishIfAbsent_kept :
    (∀ result, (Solo.play generate summarize (r.establishIfAbsent snapshot : Attempt M R Bool).run s).1 = some result →
      result ≠ .ok true) ∧
    ∀ segment, (Solo.play generate summarize (r.establishIfAbsent snapshot : Attempt M R Bool).run s).2.service.buffer
      segment = s.service.buffer segment := by
  have other : ¬(⟨r.segment, (s.service.buffer r.segment).tail, 0⟩ : Revision).SamePosition
    ⟨r.segment, (s.service.buffer r.segment).start, 0⟩ := fun same => kept (logs.emptied_iff.mpr same.2)
  let reading : Attempt M R Bool := do
    r.catchUp
    pure false
  have same : Solo.play generate summarize (r.establishIfAbsent snapshot : Attempt M R Bool).run s =
      Solo.play generate summarize (Attempt.locked reading).run s := by
    rw [establishIfAbsent, play_extent generate summarize present opened]
    dsimp only
    rw [if_neg other, Solo.play_locked]
    rfl
  have body : reading.run.Confined Action.OfReading fun result => result ≠ .ok true := by
    refine Procedure.Confined.bind (Procedure.Confined.mono r.catchUp_confined (fun _ => .inl) fun result _ => ?_)
    cases result <;> nofun
  have confined : (Attempt.locked reading).run.Confined Action.OfReading fun result => result ≠ .ok true :=
    Procedure.Confined.bind (.touch (.inr trivial) fun _ => Procedure.Confined.bind (body.mono (fun _ => id)
      fun result ends => Procedure.Confined.bind (.touch (.inr trivial) fun _ => ends)))
  rw [same]
  exact Solo.play_of_reading generate summarize confined s

end Kept

end Beginning

/-- What calls that are to begin the log come to alone in `s`, after `log` has been appended. -/
structure Recognises (r : Replica M) (log : List Entry) (snapshot : M.Snapshot) (bytes : Bytes)
    (s : Solo Store M.State) : Prop where
  begun : s.service.Emptied r.segment log →
    ∃ e, Store.Logs.Lands s.service r.segment log (some (ending 0 log)) bytes e ∧
      Solo.run Store.server generate summarize (r.establish snapshot : Attempt M R Unit) s =
        (.ok (), r.begun snapshot bytes e s) ∧
      Solo.run Store.server generate summarize (r.establishIfAbsent snapshot : Attempt M R Bool) s =
        (.ok true, r.begun snapshot bytes e s)
  refused : ¬s.service.Emptied r.segment log →
    Solo.run Store.server generate summarize (r.establish snapshot : Attempt M R Unit) s =
      (.error (.alreadyInitialized r.segment), s)
  read : ¬s.service.Emptied r.segment log →
    (Solo.run Store.server generate summarize (r.establishIfAbsent snapshot : Attempt M R Bool) s).1 ≠ .ok true ∧
    ∀ segment, (Solo.run Store.server generate summarize (r.establishIfAbsent snapshot : Attempt M R Bool)
      s).2.service.buffer segment = s.service.buffer segment

/-- Whatever has been asked of the service, a log is begun alone if and only if all that it ever had has been
dropped. -/
theorem beginning_recognised (history : List (SegmentId × Request))
    (asked : s.service = (transcript Store.serve history .empty).2)
    (present : (s.service.get? r.segment).isSome = true) (opened : s.memory.closed = false)
    (free : s.memory.cacheLocked = false) (encoded : r.client.codec.encode (.init snapshot) = .ok bytes)
    (small : bytes.length < Framed.payloadLimit) :
    r.Recognises (R := R) generate summarize (Exchange.landed r.segment (transcript Store.serve history .empty).1)
      snapshot bytes s := by
  have logs : s.service.Logs r.segment (Exchange.landed r.segment (transcript Store.serve history .empty).1) :=
    asked ▸ (Store.logs_empty r.segment).transcript history
  have unlocked : (s.withLock true).withLock false = s := by
    obtain ⟨⟨cache, stats, closed, taken, left, removals⟩, service, calls⟩ := s
    obtain rfl : taken = false := free
    rfl
  have begun : ∀ e, (r.begun snapshot bytes e (s.withLock true)).withLock false = r.begun snapshot bytes e s := by
    intro e
    calc
      (r.begun snapshot bytes e (s.withLock true)).withLock false =
          r.begun snapshot bytes e ((s.withLock true).withLock false) := rfl
      _ = r.begun snapshot bytes e s := by rw [unlocked]
  constructor
  case begun =>
    intro emptied
    obtain ⟨e, lands, played⟩ :=
      play_establish_begun (R := R) generate summarize logs present opened emptied encoded small
    obtain ⟨e', lands', played'⟩ :=
      play_establishIfAbsent_begun (R := R) generate summarize logs present opened emptied encoded small
    obtain rfl : e' = e := lands'.unique lands
    refine ⟨e', lands, ?_, ?_⟩
    · rw [Solo.run_eq_play, played, begun]
      rfl
    · rw [Solo.run_eq_play, played', begun]
      rfl
  case refused =>
    intro kept
    rw [Solo.run_eq_play, play_establish_refused generate summarize logs present opened kept, unlocked]
    rfl
  case read =>
    intro kept
    obtain ⟨ends, same⟩ := play_establishIfAbsent_kept (R := R) generate summarize snapshot logs present opened kept
    refine ⟨?_, same⟩
    rw [Solo.run_eq_play]
    cases ended : (Solo.play generate summarize (r.establishIfAbsent snapshot : Attempt M R Bool).run s).1 with
    | none => nofun
    | some result => exact ends result ended

end Replica

namespace Deployment

def cutAt (offset : Nat) : List (SegmentId × Request) :=
  [(ofBytes.segment, .createSegment), (ofBytes.segment, .append none [0, 7]), (ofBytes.segment, .truncateBefore offset)]

def opening (history : List (SegmentId × Request)) : Solo Store Bytes :=
  ⟨{}, (transcript Store.serve history .empty).2, 0⟩

theorem cut_recognised :
    (∃ e, (opening (cutAt 6)).service.Emptied ofBytes.segment [⟨0, 6, [0, 7]⟩] ∧
      Solo.run Store.server (M := Model.bytes) (R := Unit) (fun _ => ([], ())) id ((ofBytes.replica 0).establish [5])
        (opening (cutAt 6)) = (.ok (), (ofBytes.replica 0).begun [5] [0, 5] e (opening (cutAt 6)))) ∧
    ¬(opening (cutAt 0)).service.Emptied ofBytes.segment [⟨0, 6, [0, 7]⟩] ∧
      Solo.run Store.server (M := Model.bytes) (R := Unit) (fun _ => ([], ())) id ((ofBytes.replica 0).establish [5])
        (opening (cutAt 0)) = (.error (.alreadyInitialized ofBytes.segment), opening (cutAt 0)) := by
  have emptied : (opening (cutAt 6)).service.Emptied ofBytes.segment [⟨0, 6, [0, 7]⟩] := by
    simp only [Store.Emptied, List.forall_mem_singleton]
    decide
  have kept : ¬(opening (cutAt 0)).service.Emptied ofBytes.segment [⟨0, 6, [0, 7]⟩] := by
    simp only [Store.Emptied, List.forall_mem_singleton]
    decide
  have recognised : (ofBytes.replica 0).Recognises (R := Unit) (fun _ => ([], ())) id [⟨0, 6, [0, 7]⟩] [5] [0, 5]
      (opening (cutAt 6)) :=
    Replica.beginning_recognised _ _ (cutAt 6) rfl rfl rfl rfl rfl (by decide)
  have recognised' : (ofBytes.replica 0).Recognises (R := Unit) (fun _ => ([], ())) id [⟨0, 6, [0, 7]⟩] [5] [0, 5]
      (opening (cutAt 0)) :=
    Replica.beginning_recognised _ _ (cutAt 0) rfl rfl rfl rfl rfl (by decide)
  obtain ⟨e, _, began, _⟩ := recognised.begun emptied
  exact ⟨⟨e, emptied, began⟩, kept, recognised'.refused kept⟩

/-- A log that has had a record is begun once more where nothing is left of it. -/
theorem begun_once_more : ¬∀ history : List (SegmentId × Request),
    ((opening history).service.get? ofBytes.segment).isSome = true →
      ((Solo.run Store.server (M := Model.bytes) (R := Unit) (fun _ => ([], ())) id ((ofBytes.replica 0).establish [5])
          (opening history)).1 = .ok () ↔
        Exchange.landed ofBytes.segment (transcript Store.serve history .empty).1 = []) := by
  intro all
  have unwritten := (all (cutAt 6) rfl).mp rfl
  cases unwritten

end Deployment

end LogReplica
