import LogReplica.Proofs.Replica.Contest

namespace LogReplica

variable {M : Model} {R : Type}

namespace Deployment

/-- A competing record, in the form in which it is stored. -/
structure Rival (d : Deployment M) where
  bytes : Bytes
  record : M.Record
  decoded : d.codec.decode bytes = .ok record
  short : bytes.length < Framed.payloadLimit

namespace Rival

variable {d : Deployment M} (rival : d.Rival)

def after (copy : Revisioned M.State) : Revisioned M.State :=
  let revision : Revision :=
    ⟨d.segment, copy.revision.offset + Framed.headerSize + rival.bytes.length, copy.revision.event + 1⟩
  ⟨rival.record.onto copy.state d.name revision, revision⟩

def times (copy : Revisioned M.State) : Nat → Revisioned M.State
  | 0 => copy
  | n + 1 => rival.after (times copy n)

def states (copy : Revisioned M.State) (n : Nat) : List M.State :=
  (List.range n).map fun i => (rival.times copy i).state

theorem states_succ (copy : Revisioned M.State) (n : Nat) :
    rival.states copy (n + 1) = rival.states copy n ++ [(rival.times copy n).state] := by
  simp [states, List.range_succ]

theorem revision_times {copy : Revisioned M.State} {position : Nat} {event : Nat}
    (begins : copy.revision = ⟨d.segment, position, event⟩) (n : Nat) : (rival.times copy n).revision =
      ⟨d.segment, ending position (Entry.repeated position rival.bytes n), event + n⟩ := by
  induction n with
  | zero => exact begins
  | succ n ih =>
    rw [times, after, ih]
    simp [Entry.repeated, Entry.placed, Nat.add_assoc]

theorem resume_after {copy : Revisioned M.State} {position event : Nat}
    (begins : copy.revision = ⟨d.segment, position, event⟩) :
    d.resume (some copy) event [Entry.placed position rival.bytes] = .ok (some (rival.after copy)) := by
  have handed : d.hand (some copy) (Entry.placed position rival.bytes,
      ⟨d.segment, (Entry.placed position rival.bytes).endOffset, event + 1⟩) = .ok (some (rival.after copy)) := by
    refine hand_eq_ok.mpr ⟨rival.record, rival.decoded, ?_, ?_⟩
    · rw [Option.map_some, Record.apply_some, after, begins]
      rfl
    · rw [after, begins]
      rfl
  rw [resume_cons, handed]
  rfl

/-- What an instance has come to that was at `copy` in front of `span` in `s₀`: it has fetched the record, shown a state
to its caller and lost an append as many times, has appended `own` and holds `held`. -/
structure Account (s₀ s : Session (Contention × Store) M.State) (log span : List Entry) (copy : Revisioned M.State)
    (fetched shown lost : Nat) (own : List Entry) (held : Revisioned M.State) : Prop where
  memory : s.memory = { s₀.memory with
    cache := some held
    cacheLocked := false
    stats := { s₀.memory.stats with
      recordsReplayed := s₀.memory.stats.recordsReplayed + (span.length + fetched)
      conflicts := s₀.memory.stats.conflicts + lost
      updatesWritten := s₀.memory.stats.updatesWritten + own.length } }
  service : s.service.1 = { s₀.service.1 with
    pending := s₀.service.1.pending - lost
    conditionalAppends := s₀.service.1.conditionalAppends + (lost + own.length)
    conflicts := s₀.service.1.conflicts + lost }
  shown : s.shown = s₀.shown ++ rival.states copy shown
  logs : s.service.2.Logs d.segment (log ++ Entry.repeated (ending 0 log) rival.bytes lost ++ own)
  present : (s.service.2.get? d.segment).isSome = true
  start : (s.service.2.buffer d.segment).start = (s₀.service.2.buffer d.segment).start

/-- What an instance has come to that was at `copy` in front of `span` in `s₀`, if an append of its own ended the call
in attempt `i` after all before were lost, and `added` is new in the log. -/
structure Foiled (s₀ s : Session (Contention × Store) M.State) (log span : List Entry) (copy : Revisioned M.State)
    (i : Nat) (added : List Entry) : Prop where
  memory : s.memory = { s₀.memory with
    cache := some (rival.times copy i)
    cacheLocked := false
    stats := { s₀.memory.stats with
      recordsReplayed := s₀.memory.stats.recordsReplayed + (span.length + i)
      conflicts := s₀.memory.stats.conflicts + i } }
  service : s.service.1 = { s₀.service.1 with
    pending := s₀.service.1.pending - (i + 1)
    conditionalAppends := s₀.service.1.conditionalAppends + (i + 1)
    conflicts := s₀.service.1.conflicts + i }
  shown : s.shown = s₀.shown ++ rival.states copy (i + 1)
  logs : s.service.2.Logs d.segment (log ++ added)

section Attempts

variable {rival} (generate : List M.State → M.State → List M.Update × R) (summarize : M.State → M.Snapshot)
  {place : Nat} {s₀ s : Session (Contention × Store) M.State} {log span : List Entry} {copy : Revisioned M.State}

variable (rival) in
/-- What the caller makes of the state that it is shown after `i` others. -/
def proposed (s₀ : Session (Contention × Store) M.State) (copy : Revisioned M.State) (i : Nat) : List M.Update × R :=
  generate (s₀.shown ++ rival.states copy i) (rival.times copy i).state

theorem account_begun (foresees : d.Foresees s₀.behind log span copy) :
    rival.Account s₀ (s₀.passed ((s₀.behind.fetched copy span.length).withLock false)) log span copy 0 0 0 [] copy := by
  refine ⟨rfl, rfl, (List.append_nil _).symm, ?_, foresees.present, rfl⟩
  rw [Entry.repeated, List.append_nil, List.append_nil]
  exact foresees.logs

theorem Account.opened {fetched shown lost : Nat} {own : List Entry} {held : Revisioned M.State}
    (account : rival.Account s₀ s log span copy fetched shown lost own held) (opened : s₀.memory.closed = false) :
    s.memory.closed = false := by
  rw [account.memory]
  exact opened

theorem Account.cached {fetched shown lost : Nat} {own : List Entry} {held : Revisioned M.State}
    (account : rival.Account s₀ s log span copy fetched shown lost own held) : s.memory.cache = some held := by
  rw [account.memory]

theorem Account.shows {i : Nat} (account : rival.Account s₀ s log span copy i i i [] (rival.times copy i)) :
    rival.Account s₀ (s.showing (rival.times copy i).state) log span copy i (i + 1) i [] (rival.times copy i) := by
  refine ⟨account.memory, account.service, ?_, account.logs, account.present, account.start⟩
  rw [Session.showing, account.shown, states_succ, List.append_assoc]

theorem Account.proposes {i : Nat} (account : rival.Account s₀ s log span copy i i i [] (rival.times copy i)) :
    generate s.shown (rival.times copy i).state =
      ((rival.proposed generate s₀ copy i).1, (rival.proposed generate s₀ copy i).2) := by
  rw [account.shown]
  rfl

theorem Account.reached {i event : Nat} (account : rival.Account s₀ s log span copy i i i [] (rival.times copy i))
    (begins : copy.revision = ⟨d.segment, ending 0 log, event⟩) :
    (rival.times copy i).revision =
        ⟨d.segment, ending 0 (log ++ Entry.repeated (ending 0 log) rival.bytes i), event + i⟩ ∧
      s.service.2.Logs d.segment (log ++ Entry.repeated (ending 0 log) rival.bytes i) := by
  rw [ending_append]
  exact ⟨rival.revision_times begins i, List.append_nil (log ++ _) ▸ account.logs⟩

theorem Account.opposed {i event : Nat} (account : rival.Account s₀ s log span copy i i i [] (rival.times copy i))
    (begins : copy.revision = ⟨d.segment, ending 0 log, event⟩) (armed : s₀.service.1.record = rival.bytes)
    (opposed : i < s₀.service.1.pending) :
    ∃ store₁, Store.Beaten s.service.2 store₁ d.segment (log ++ Entry.repeated (ending 0 log) rival.bytes i)
        rival.bytes ∧
      ∀ {expected : Nat} {data : Bytes} {reply : Reply (.append (some expected) data)} {store₂ : Store},
        Store.serve d.segment (.append (some expected) data) store₁ = (reply, store₂) →
        (Contention.server d.segment (.append (some expected) data)).run s.service =
          (reply, Contention.settle { s.service.1 with
            pending := s.service.1.pending - 1
            conditionalAppends := s.service.1.conditionalAppends + 1 } reply, store₂) := by
  have contested : s.service.1.pending ≠ 0 := by
    rw [account.service]
    show s₀.service.1.pending - i ≠ 0
    omega
  have competing : s.service.1.record = rival.bytes := by
    rw [account.service]
    exact armed
  obtain ⟨store₁, offset, endOffset, first, beaten⟩ :=
    (account.reached begins).2.goesFirst account.present rival.short
  rw [← competing] at first
  exact ⟨store₁, beaten, fun second => Contention.server_of_opposed contested first second⟩

theorem Account.unopposed {i : Nat} (account : rival.Account s₀ s log span copy i i i [] (rival.times copy i))
    (unopposed : s₀.service.1.pending ≤ i) : s.service.1.pending = 0 := by
  rw [account.service]
  exact Nat.sub_eq_zero_of_le unopposed

variable (place) in
theorem Account.wrote {i event : Nat} {bytes : Bytes}
    {reply : Reply (.append (some (rival.times copy i).revision.offset) bytes)} {service : Contention × Store}
    (account : rival.Account s₀ s log span copy i i i [] (rival.times copy i))
    (begins : copy.revision = ⟨d.segment, ending 0 log, event⟩) (opened : s₀.memory.closed = false)
    (encoded : d.codec.encode (.updates (rival.proposed generate s₀ copy i).1) = .ok bytes)
    (served : (Contention.server d.segment (.append (some (rival.times copy i).revision.offset) bytes)).run s.service =
      (reply, service)) :
    ((d.client place).writeConditionally (rival.times copy i).revision
        (.updates (rival.proposed generate s₀ copy i).1) : Attempt M R _).run.evaluate
        (Session.contested summarize generate) (s.showing (rival.times copy i).state) =
      ((d.client place).outcome? (rival.times copy i).revision reply,
        { s.showing (rival.times copy i).state with service := service }) := by
  have own : (rival.times copy i).revision.segment = (d.client place).segment :=
    congrArg Revision.segment (account.reached begins).1
  have still : (s.showing (rival.times copy i).state).memory.closed = false := account.opened opened
  exact Session.evaluate_writeConditionally summarize generate own still encoded served

theorem Account.lands {i event : Nat} {bytes : Bytes}
    (account : rival.Account s₀ s log span copy i i i [] (rival.times copy i))
    (begins : copy.revision = ⟨d.segment, ending 0 log, event⟩) (small : bytes.length < Framed.payloadLimit)
    (unopposed : s₀.service.1.pending ≤ i) :
    ∃ e, Store.Logs.Lands s.service.2 d.segment (log ++ Entry.repeated (ending 0 log) rival.bytes i)
        (some (rival.times copy i).revision.offset) bytes e ∧
      (Contention.server d.segment (.append (some (rival.times copy i).revision.offset) bytes)).run s.service =
        (.ok (.appended e.offset e.endOffset),
          { s.service.1 with conditionalAppends := s.service.1.conditionalAppends + 1 },
          (Store.serve d.segment (.append (some (rival.times copy i).revision.offset) bytes) s.service.2).2) := by
  obtain ⟨here, logs⟩ := account.reached begins
  have free : (some (rival.times copy i).revision.offset).all (· = (s.service.2.buffer d.segment).tail) := by
    simp [here, logs.tail_eq]
  have lands := logs.lands small account.present free
  exact ⟨_, lands, Contention.server_of_unopposed (account.unopposed unopposed) (Prod.ext lands.reply rfl)⟩

theorem Account.foiled {i : Nat} {added : List Entry} {service : Contention × Store}
    (account : rival.Account s₀ s log span copy i i i [] (rival.times copy i))
    (counts : service.1 = { s.service.1 with
      pending := s.service.1.pending - 1
      conditionalAppends := s.service.1.conditionalAppends + 1 })
    (logs : service.2.Logs d.segment (log ++ added)) :
    rival.Foiled s₀ { s.showing (rival.times copy i).state with service := service } log span copy i added := by
  refine ⟨account.memory, ?_, account.shows.shown, logs⟩
  rw [counts, account.service]
  simp only [Nat.sub_sub, List.length_nil, Nat.add_zero, Nat.add_assoc]

theorem Account.start_le {i : Nat}
    (account : rival.Account s₀ s log span copy i (i + 1) (i + 1) [] (rival.times copy i))
    (retained : (s₀.service.2.buffer d.segment).start ≤ ending 0 log) :
    (s.service.2.buffer d.segment).start ≤ ending 0 (log ++ Entry.repeated (ending 0 log) rival.bytes i) := by
  have further := account.logs.chain
  rw [List.append_nil, Entry.repeated, ← List.append_assoc] at further
  rw [account.start, ending_append]
  exact Nat.le_trans retained further.left.right.le_ending

theorem Account.foresees {i event : Nat}
    (account : rival.Account s₀ s log span copy i (i + 1) (i + 1) [] (rival.times copy i))
    (begins : copy.revision = ⟨d.segment, ending 0 log, event⟩) (opened : s₀.memory.closed = false)
    (retained : (s₀.service.2.buffer d.segment).start ≤ ending 0 log) (counted : event + i + 1 < Revision.eventLimit) :
    d.Foresees s.behind (log ++ Entry.repeated (ending 0 log) rival.bytes (i + 1))
      [Entry.placed (ending (ending 0 log) (Entry.repeated (ending 0 log) rival.bytes i)) rival.bytes]
      (rival.times copy (i + 1)) := by
  have here := rival.revision_times begins i
  have cached : s.behind.memory.cache = some (rival.times copy i) := account.cached
  have logs := account.logs
  rw [List.append_nil] at logs
  refine ⟨logs, account.present, ?_, log ++ Entry.repeated (ending 0 log) rival.bytes i, event + i, ?_, ?_, ⟨?_, ?_⟩,
    ?_, ?_⟩
  · exact account.opened opened
  · rw [Entry.repeated, List.append_assoc]
  · exact account.start_le retained
  · rw [cached]
    rintro _ ⟨⟩
    rw [here, ending_append]
  · rw [cached]
    nofun
  · rw [cached]
    exact rival.resume_after here
  · rw [List.length_singleton]
    exact counted

theorem Account.uncaught {i event : Nat}
    (account : rival.Account s₀ s log span copy i (i + 1) (i + 1) [] (rival.times copy i))
    (begins : copy.revision = ⟨d.segment, ending 0 log, event⟩) (opened : s₀.memory.closed = false)
    (retained : (s₀.service.2.buffer d.segment).start ≤ ending 0 log) (last : Revision.eventLimit ≤ event + i + 1) :
    ((d.replica place).getRevisionedState : Attempt M R _).run.evaluate (Session.contested summarize generate) s =
      (none, s.withLock true) := by
  have here := rival.revision_times begins i
  rw [← ending_append] at here
  have logs := account.logs
  rw [List.append_nil, Entry.repeated, ← List.append_assoc] at logs
  exact Session.evaluate_getRevisionedState_uncounted summarize generate account.cached here logs account.present
    (account.opened opened) (account.start_le retained) rival.decoded last

theorem account_refetched {i : Nat}
    (account : rival.Account s₀ s log span copy i (i + 1) (i + 1) [] (rival.times copy i)) :
    rival.Account s₀ (s.passed ((s.behind.fetched (rival.times copy (i + 1)) 1).withLock false)) log span copy
      (i + 1) (i + 1) (i + 1) [] (rival.times copy (i + 1)) := by
  refine ⟨?_, account.service, account.shown, account.logs, account.present, account.start⟩
  show { s.memory with
    cache := some (rival.times copy (i + 1))
    cacheLocked := false
    stats := s.memory.stats.count (.replayed 1) } = _
  rw [account.memory]
  rfl

variable (rival place) in
/-- A call about to try once more, and what it finds then. -/
structure Tries (s₀ s s' : Session (Contention × Store) M.State) (log span : List Entry) (copy : Revisioned M.State)
    (i : Nat) : Prop where
  caught : ((d.replica place).getRevisionedState : Attempt M R _).run.evaluate (Session.contested summarize generate)
    s = (some (.ok (rival.times copy i)), s')
  account : rival.Account s₀ s' log span copy i i i [] (rival.times copy i)

section Trying

variable {generate summarize} {s' : Session (Contention × Store) M.State} {i event left : Nat} {bytes : Bytes}
  (tries : rival.Tries generate summarize place s₀ s s' log span copy i)
  (undelayed : (d.replica place).retry.delay? i = some .zero)
  (begins : copy.revision = ⟨d.segment, ending 0 log, event⟩)

include tries undelayed

theorem Tries.quit (empty : (rival.proposed generate s₀ copy i).1 = []) :
    ((d.replica place).writeLoop Session.proposal (left + 1) i).run.evaluate (Session.contested summarize generate) s =
      (some (.ok ⟨(rival.proposed generate s₀ copy i).2, none⟩), s'.showing (rival.times copy i).state) := by
  refine Session.evaluate_attempt_quit summarize generate undelayed tries.caught ?_
  rw [tries.account.proposes generate, empty]

variable (nonempty : (rival.proposed generate s₀ copy i).1 ≠ [])

include begins nonempty

theorem Tries.unencodable (opened : s₀.memory.closed = false) {cause : CodecError}
    (failed : d.codec.encode (.updates (rival.proposed generate s₀ copy i).1) = .error cause) :
    ((d.replica place).writeLoop Session.proposal (left + 1) i).run.evaluate (Session.contested summarize generate) s =
      (some (.error (.encoding cause)), s'.showing (rival.times copy i).state) := by
  obtain ⟨caught, account⟩ := tries
  have own : (rival.times copy i).revision.segment = (d.client place).segment :=
    congrArg Revision.segment (account.reached begins).1
  have refused := Session.evaluate_writeConditionally_unencodable (R := R) summarize generate (c := d.client place)
    (s := s'.showing (rival.times copy i).state) own (account.opened opened) failed
  exact Session.evaluate_attempt summarize generate undelayed caught (account.proposes generate) nonempty refused

variable (encoded : d.codec.encode (.updates (rival.proposed generate s₀ copy i).1) = .ok bytes)

include encoded

theorem Tries.oversized (armed : s₀.service.1.record = rival.bytes) (opened : s₀.memory.closed = false)
    (possible : i ≤ s₀.service.1.pending) (large : Framed.payloadLimit ≤ bytes.length) :
    ∃ s₁, rival.Foiled s₀ s₁ log span copy i
        (Entry.repeated (ending 0 log) rival.bytes (min (i + 1) s₀.service.1.pending)) ∧
      ((d.replica place).writeLoop Session.proposal (left + 1) i).run.evaluate (Session.contested summarize generate)
        s = (some (.error (.ofSegment (.entryTooLarge bytes.length))), s₁) := by
  obtain ⟨caught, account⟩ := tries
  rcases Nat.lt_or_eq_of_le possible with opposed | rfl
  · obtain ⟨store₁, beaten, served⟩ := account.opposed begins armed opposed
    have wrote := account.wrote generate summarize place begins opened encoded
      (served (Store.serve_append_of_large large _ _))
    refine ⟨_, account.foiled rfl ?_, Session.evaluate_attempt summarize generate undelayed caught
      (account.proposes generate) nonempty wrote⟩
    have grown := beaten.logs
    rw [ending_append] at grown
    rw [Nat.min_eq_left opposed, Entry.repeated, ← List.append_assoc]
    exact grown
  · have alone := account.unopposed (Nat.le_refl _)
    have wrote := account.wrote generate summarize place begins opened encoded
      (Contention.server_of_unopposed alone (Store.serve_append_of_large large _ _))
    refine ⟨_, account.foiled ?_ ?_, Session.evaluate_attempt summarize generate undelayed caught
      (account.proposes generate) nonempty wrote⟩
    · simp only [Contention.settle, alone]
    · rw [Nat.min_eq_right (Nat.le_succ _)]
      exact (account.reached begins).2

variable (small : bytes.length < Framed.payloadLimit)

include small

theorem Tries.lost (armed : s₀.service.1.record = rival.bytes) (opened : s₀.memory.closed = false)
    (opposed : i < s₀.service.1.pending) :
    ∃ s₁, rival.Account s₀ s₁ log span copy i (i + 1) (i + 1) [] (rival.times copy i) ∧
      ((d.replica place).writeLoop Session.proposal (left + 1) i).run.evaluate (Session.contested summarize generate)
        s = if (d.replica place).retry.allows (i + 1) then
          ((d.replica place).writeLoop Session.proposal left (i + 1)).run.evaluate
            (Session.contested summarize generate) s₁
        else (some (.error (.retriesExhausted (i + 1))), s₁) := by
  obtain ⟨caught, account⟩ := tries
  have tail : (rival.times copy i).revision.offset = ending 0 (log ++ Entry.repeated (ending 0 log) rival.bytes i) :=
    congrArg Revision.offset (account.reached begins).1
  obtain ⟨store₁, first, served⟩ := account.opposed begins armed opposed
  obtain ⟨store₂, found, second, beaten⟩ := first.overtakes small
  rw [← tail] at second
  have wrote := account.wrote generate summarize place begins opened encoded (served second)
  refine ⟨_, ?_, Session.evaluate_attempt summarize generate undelayed caught (account.proposes generate) nonempty
    wrote⟩
  refine ⟨?_, ?_, account.shows.shown, ?_, beaten.present, beaten.start.trans account.start⟩
  · show { s'.memory with stats := s'.memory.stats.count .conflict } = _
    rw [account.memory]
    rfl
  · show ({ s'.service.1 with
      pending := s'.service.1.pending - 1
      conditionalAppends := s'.service.1.conditionalAppends + 1
      conflicts := s'.service.1.conflicts + 1 } : Contention) = _
    rw [account.service]
    simp only [Nat.sub_sub, List.length_nil, Nat.add_zero, Nat.add_assoc]
  · have grown := beaten.logs
    rw [ending_append] at grown
    rw [Entry.repeated, List.append_nil, ← List.append_assoc]
    exact grown

theorem Tries.landed (opened : s₀.memory.closed = false) (unopposed : s₀.service.1.pending ≤ i)
    (counted : event + i + 1 < Revision.eventLimit) :
    ∃ s₁ e, e = Entry.placed (ending 0 (log ++ Entry.repeated (ending 0 log) rival.bytes i)) bytes ∧
      rival.Account s₀ (s₁.counting .written) log span copy i (i + 1) i [e]
        ⟨Record.foldUpdates (rival.proposed generate s₀ copy i).1 (rival.times copy i).state
          ⟨d.segment, e.endOffset, event + i + 1⟩, ⟨d.segment, e.endOffset, event + i + 1⟩⟩ ∧
      ((d.replica place).writeLoop Session.proposal (left + 1) i).run.evaluate (Session.contested summarize generate)
        s = (some (.ok ⟨(rival.proposed generate s₀ copy i).2,
          some ((rival.times copy i).revision, ⟨d.segment, e.endOffset, event + i + 1⟩)⟩), s₁) := by
  obtain ⟨caught, account⟩ := tries
  obtain ⟨e, lands, served⟩ := account.lands begins small unopposed
  have next : Revision.nextEvent? (rival.times copy i).revision.event = some (event + i + 1) := by
    rw [(account.reached begins).1]
    exact if_pos counted
  have wrote := account.wrote generate summarize place begins opened encoded served
  rw [Client.outcome?, next, Option.map_some] at wrote
  refine ⟨_, e, lands.eq_placed, ?_, Session.evaluate_attempt_landed summarize generate undelayed caught
    (account.proposes generate) nonempty (by exact account.cached) wrote⟩
  refine ⟨?_, ?_, account.shows.shown, ?_, Store.present_serve account.present _ _, lands.start.trans account.start⟩
  · simp only [Session.counting, Session.showing, account.memory]
    rfl
  · simp only [Session.counting, Session.showing, account.service]
    rfl
  · exact lands.logs

theorem Tries.uncounted (opened : s₀.memory.closed = false) (unopposed : s₀.service.1.pending ≤ i)
    (last : Revision.eventLimit ≤ event + i + 1) :
    ∃ s₁ e, e = Entry.placed (ending 0 (log ++ Entry.repeated (ending 0 log) rival.bytes i)) bytes ∧
      rival.Foiled s₀ s₁ log span copy i (Entry.repeated (ending 0 log) rival.bytes i ++ [e]) ∧
      ((d.replica place).writeLoop Session.proposal (left + 1) i).run.evaluate (Session.contested summarize generate)
        s = (none, s₁) := by
  obtain ⟨caught, account⟩ := tries
  obtain ⟨e, lands, served⟩ := account.lands begins small unopposed
  have none : Revision.nextEvent? (rival.times copy i).revision.event = none := by
    rw [(account.reached begins).1]
    exact if_neg (Nat.not_lt.mpr last)
  have wrote := account.wrote generate summarize place begins opened encoded served
  rw [Client.outcome?, none, Option.map_none] at wrote
  refine ⟨_, e, lands.eq_placed, account.foiled ?_ ?_, Session.evaluate_attempt summarize generate undelayed caught
    (account.proposes generate) nonempty wrote⟩
  · simp only [account.unopposed unopposed]
  · rw [← List.append_assoc]
    exact lands.logs

end Trying

variable (rival) in
/-- In its first `n` attempts the caller proposes something that can be stored. -/
def Persists (s₀ : Session (Contention × Store) M.State) (copy : Revisioned M.State) (n : Nat) : Prop :=
  ∀ i < n, (rival.proposed generate s₀ copy i).1 ≠ [] ∧
    ∃ bytes, d.codec.encode (.updates (rival.proposed generate s₀ copy i).1) = .ok bytes ∧
      bytes.length < Framed.payloadLimit

variable {generate}

theorem tries_begun (foresees : d.Foresees s₀.behind log span copy) :
    rival.Tries generate summarize place s₀ s₀
      (s₀.passed ((s₀.behind.fetched copy span.length).withLock false)) log span copy 0 :=
  ⟨Session.evaluate_getRevisionedState summarize generate foresees, account_begun foresees⟩

theorem exists_tries (foresees : d.Foresees s₀.behind log span copy) (armed : s₀.service.1.record = rival.bytes)
    (undelayed : ∀ attempt, (d.replica place).retry.delay? attempt = some .zero) {i : Nat}
    (opposed : i ≤ s₀.service.1.pending) (allowed : ∀ j < i, (d.replica place).retry.allows (j + 1) = true)
    (counted : copy.revision.event + i < Revision.eventLimit) (persists : rival.Persists generate s₀ copy i)
    (left : Nat) : ∃ s s', rival.Tries generate summarize place s₀ s s' log span copy i ∧
      ((d.replica place).writeLoop Session.proposal (left + i) 0).run.evaluate
        (Session.contested summarize generate) s₀ =
      ((d.replica place).writeLoop Session.proposal left i).run.evaluate (Session.contested summarize generate) s := by
  induction i generalizing left with
  | zero => exact ⟨_, _, tries_begun summarize foresees, rfl⟩
  | succ i ih =>
    obtain ⟨s, s', tries, same⟩ := ih (by omega) (fun j lt => allowed j (by omega)) (by omega)
      (fun j lt => persists j (by omega)) (left + 1)
    obtain ⟨nonempty, bytes, encoded, small⟩ := persists i (Nat.lt_succ_self i)
    obtain ⟨s₁, account, lost⟩ := tries.lost (undelayed i) foresees.revision_eq nonempty encoded small armed
      foresees.opened opposed
    have next := account.foresees foresees.revision_eq foresees.opened foresees.start_le counted
    refine ⟨s₁, _, ⟨Session.evaluate_getRevisionedState summarize generate next, account_refetched account⟩, ?_⟩
    rw [show left + (i + 1) = left + 1 + i by omega, same]
    exact lost.trans (if_pos (allowed i (Nat.lt_succ_self i)))

section Calling

variable {summarize}

theorem run_updateState_of_ok {outcome : WriteOutcome R}
    (tried : ((d.replica place).writeWithRetry Session.proposal).run.evaluate
      (Session.contested summarize generate) s₀ = (some (.ok outcome), s)) :
    Session.run Contention.server summarize generate (d.replica place).updateState s₀ =
      (.ok (), if outcome.written.isSome then s.counting .written else s) := by
  have updated : ((d.replica place).updateStateWithResult : Attempt M R R).run.evaluate
      (Session.contested summarize generate) s₀ =
        (some (.ok outcome.result), if outcome.written.isSome then s.counting .written else s) := by
    refine (Procedure.evaluate_of_ok _ tried _).trans ?_
    obtain ⟨result, _ | written⟩ := outcome
    · rfl
    · have counted := Procedure.evaluate_lift _ (Session.evaluate_touch (R := R) summarize generate (.tally .written) s)
      exact Procedure.evaluate_of_ok _ counted _
  have whole : ((d.replica place).updateState : Attempt M R Unit).run.evaluate
      (Session.contested summarize generate) s₀ = _ := Procedure.evaluate_of_ok _ updated _
  rw [Session.run, whole]
  rfl

theorem run_updateState_of_error {cause : CoreError}
    (tried : ((d.replica place).writeWithRetry Session.proposal).run.evaluate
      (Session.contested summarize generate) s₀ = (some (.error cause), s)) :
    Session.run Contention.server summarize generate (d.replica place).updateState s₀ = (.error cause, s) := by
  have updated : ((d.replica place).updateStateWithResult : Attempt M R R).run.evaluate
      (Session.contested summarize generate) s₀ = (some (.error cause), s) := Procedure.evaluate_of_error _ tried _
  have whole : ((d.replica place).updateState : Attempt M R Unit).run.evaluate
      (Session.contested summarize generate) s₀ = _ := Procedure.evaluate_of_error _ updated _
  rw [Session.run, whole]
  rfl

theorem run_updateState_of_none
    (tried : ((d.replica place).writeWithRetry Session.proposal).run.evaluate
      (Session.contested summarize generate) s₀ = (none, s)) :
    Session.run Contention.server summarize generate (d.replica place).updateState s₀ = (.error .taskFailed, s) := by
  have updated : ((d.replica place).updateStateWithResult : Attempt M R R).run.evaluate
      (Session.contested summarize generate) s₀ = (none, s) := Procedure.evaluate_of_none _ tried _
  have whole : ((d.replica place).updateState : Attempt M R Unit).run.evaluate
      (Session.contested summarize generate) s₀ = _ := Procedure.evaluate_of_none _ updated _
  rw [Session.run, whole]
  rfl

end Calling

variable (rival generate place) in
/-- Attempt `i` is made: the record goes in front of all the appends before it, none of them ends the call, and the
policy allows one more. Attempts are counted in words of 32 bits, records in words of 64 bits. -/
structure Reaches (s₀ : Session (Contention × Store) M.State) (copy : Revisioned M.State) (i : Nat) : Prop where
  opposed : i ≤ s₀.service.1.pending
  allowed : ∀ k, (d.retry place).maxAttempts = some k → i < k
  countable : i < Replica.attemptLimit
  counted : copy.revision.event + i < Revision.eventLimit
  persists : rival.Persists generate s₀ copy i

variable (rival generate place) in
/-- How an update ends that runs alone from `s₀`, where a record is to go in front of its next appends, unless something
breaks it off. -/
structure Concludes (s₀ : Session (Contention × Store) M.State) (log span : List Entry) (copy : Revisioned M.State) :
    Prop where
  /-- The caller proposes nothing before the appends stop to fail and before the policy gives up. -/
  quits : ∀ i, rival.Reaches generate place s₀ copy i → (rival.proposed generate s₀ copy i).1 = [] →
    ∃ s, Session.run Contention.server summarize generate (d.replica place).updateState s₀ = (.ok (), s) ∧
      rival.Account s₀ s log span copy i (i + 1) i [] (rival.times copy i)
  /-- The record goes in front of all but the last one of the appends. -/
  lands : rival.Reaches generate place s₀ copy s₀.service.1.pending →
    rival.Persists generate s₀ copy (s₀.service.1.pending + 1) →
    copy.revision.event + s₀.service.1.pending + 1 < Revision.eventLimit →
    ∃ s e, d.codec.encode (.updates (rival.proposed generate s₀ copy s₀.service.1.pending).1) = .ok e.data ∧
      Session.run Contention.server summarize generate (d.replica place).updateState s₀ = (.ok (), s) ∧
      rival.Account s₀ s log span copy s₀.service.1.pending (s₀.service.1.pending + 1) s₀.service.1.pending [e]
        ⟨Record.foldUpdates (rival.proposed generate s₀ copy s₀.service.1.pending).1
          (rival.times copy s₀.service.1.pending).state
          ⟨d.segment, e.endOffset, copy.revision.event + s₀.service.1.pending + 1⟩,
          ⟨d.segment, e.endOffset, copy.revision.event + s₀.service.1.pending + 1⟩⟩
  /-- The policy gives up first. -/
  givesUp : ∀ k, 1 ≤ k → (d.retry place).maxAttempts = some k → k ≤ s₀.service.1.pending → k ≤ Replica.attemptLimit →
    copy.revision.event + k ≤ Revision.eventLimit → rival.Persists generate s₀ copy k →
    ∃ s, Session.run Contention.server summarize generate (d.replica place).updateState s₀ =
        (.error (.retriesExhausted k), s) ∧
      rival.Account s₀ s log span copy (k - 1) k k [] (rival.times copy (k - 1))

variable (rival generate place) in
structure Breaks (s₀ : Session (Contention × Store) M.State) (log span : List Entry) (copy : Revisioned M.State) :
    Prop where
  /-- The batch of an attempt cannot be encoded. -/
  unencodable : ∀ i, rival.Reaches generate place s₀ copy i → (rival.proposed generate s₀ copy i).1 ≠ [] →
    ∀ cause, d.codec.encode (.updates (rival.proposed generate s₀ copy i).1) = .error cause →
    ∃ s, Session.run Contention.server summarize generate (d.replica place).updateState s₀ =
        (.error (.encoding cause), s) ∧
      rival.Account s₀ s log span copy i (i + 1) i [] (rival.times copy i)
  /-- The batch of an attempt is too large for an entry; the record goes in front of its append all the same. -/
  oversized : ∀ i, rival.Reaches generate place s₀ copy i → (rival.proposed generate s₀ copy i).1 ≠ [] →
    ∀ bytes, d.codec.encode (.updates (rival.proposed generate s₀ copy i).1) = .ok bytes →
    Framed.payloadLimit ≤ bytes.length →
    ∃ s, Session.run Contention.server summarize generate (d.replica place).updateState s₀ =
        (.error (.ofSegment (.entryTooLarge bytes.length)), s) ∧
      rival.Foiled s₀ s log span copy i
        (Entry.repeated (ending 0 log) rival.bytes (min (i + 1) s₀.service.1.pending))
  /-- The last attempt that can be counted is lost, and the policy allows one more. -/
  overflows : ∀ i, rival.Reaches generate place s₀ copy i → i < s₀.service.1.pending →
    rival.Persists generate s₀ copy (i + 1) → (∀ k, (d.retry place).maxAttempts = some k → i + 1 < k) →
    i + 1 = Replica.attemptLimit →
    ∃ s, Session.run Contention.server summarize generate (d.replica place).updateState s₀ =
        (.error .taskFailed, s) ∧
      rival.Account s₀ s log span copy i (i + 1) (i + 1) [] (rival.times copy i)
  /-- An attempt is lost, and no number is left for the record that went in front of it. -/
  uncaught : ∀ i, rival.Reaches generate place s₀ copy i → i < s₀.service.1.pending →
    rival.Persists generate s₀ copy (i + 1) → (∀ k, (d.retry place).maxAttempts = some k → i + 1 < k) →
    i + 1 < Replica.attemptLimit → copy.revision.event + i + 1 = Revision.eventLimit →
    ∃ s, Session.run Contention.server summarize generate (d.replica place).updateState s₀ =
        (.error .taskFailed, s) ∧
      rival.Account s₀ (s.withLock false) log span copy i (i + 1) (i + 1) [] (rival.times copy i)
  /-- The append lands, and no number is left for its record. -/
  uncounted : rival.Reaches generate place s₀ copy s₀.service.1.pending →
    rival.Persists generate s₀ copy (s₀.service.1.pending + 1) →
    copy.revision.event + s₀.service.1.pending + 1 = Revision.eventLimit →
    ∃ s e, d.codec.encode (.updates (rival.proposed generate s₀ copy s₀.service.1.pending).1) = .ok e.data ∧
      Session.run Contention.server summarize generate (d.replica place).updateState s₀ =
        (.error .taskFailed, s) ∧
      rival.Foiled s₀ s log span copy s₀.service.1.pending
        (Entry.repeated (ending 0 log) rival.bytes s₀.service.1.pending ++ [e])

variable (rival generate place) in
/-- Why there is no attempt after this one. -/
inductive Final (s₀ : Session (Contention × Store) M.State) (copy : Revisioned M.State) (i : Nat) : Prop
  | quits (empty : (rival.proposed generate s₀ copy i).1 = [])
  | unencodable (cause : CodecError)
    (failed : d.codec.encode (.updates (rival.proposed generate s₀ copy i).1) = .error cause)
  | oversized (bytes : Bytes) (encoded : d.codec.encode (.updates (rival.proposed generate s₀ copy i).1) = .ok bytes)
    (large : Framed.payloadLimit ≤ bytes.length)
  | lands (unopposed : i = s₀.service.1.pending) (persists : rival.Persists generate s₀ copy (i + 1))
  | spent (opposed : i < s₀.service.1.pending) (persists : rival.Persists generate s₀ copy (i + 1))
    (limit : (d.retry place).maxAttempts = some (i + 1))
  | overflows (opposed : i < s₀.service.1.pending) (persists : rival.Persists generate s₀ copy (i + 1))
    (last : i + 1 = Replica.attemptLimit)
  | uncaught (opposed : i < s₀.service.1.pending) (persists : rival.Persists generate s₀ copy (i + 1))
    (last : copy.revision.event + i + 1 = Revision.eventLimit)

theorem Reaches.final_or_succ {i : Nat} (reaches : rival.Reaches generate place s₀ copy i) :
    rival.Final generate place s₀ copy i ∨ rival.Reaches generate place s₀ copy (i + 1) := by
  by_cases empty : (rival.proposed generate s₀ copy i).1 = []
  · exact .inl (.quits empty)
  cases encoded : d.codec.encode (.updates (rival.proposed generate s₀ copy i).1) with
  | error cause => exact .inl (.unencodable cause encoded)
  | ok bytes =>
    rcases Nat.lt_or_ge bytes.length Framed.payloadLimit with small | large
    case inr => exact .inl (.oversized bytes encoded large)
    have persists : rival.Persists generate s₀ copy (i + 1) := by
      intro j lt
      rcases Nat.lt_succ_iff_lt_or_eq.mp lt with lt | rfl
      · exact reaches.persists j lt
      · exact ⟨empty, bytes, encoded, small⟩
    rcases Nat.lt_or_eq_of_le reaches.opposed with opposed | unopposed
    case inr => exact .inl (.lands unopposed persists)
    by_cases limit : (d.retry place).maxAttempts = some (i + 1)
    · exact .inl (.spent opposed persists limit)
    by_cases countable : i + 1 = Replica.attemptLimit
    · exact .inl (.overflows opposed persists countable)
    by_cases counted : copy.revision.event + i + 1 = Revision.eventLimit
    · exact .inl (.uncaught opposed persists counted)
    refine .inr ⟨opposed, ?_, ?_, ?_, persists⟩
    · intro k here
      exact Nat.lt_of_le_of_ne (reaches.allowed k here) fun same => limit (same ▸ here)
    · exact Nat.lt_of_le_of_ne reaches.countable countable
    · exact Nat.lt_of_le_of_ne reaches.counted counted

theorem Reaches.exists_final {i : Nat} (reaches : rival.Reaches generate place s₀ copy i) :
    ∃ j, rival.Reaches generate place s₀ copy j ∧ rival.Final generate place s₀ copy j := by
  -- On the records that are still to go in front of an append.
  induction left : s₀.service.1.pending - i generalizing i with
  | zero =>
    have through : ¬rival.Reaches generate place s₀ copy (i + 1) := fun next => by
      have := next.opposed
      omega
    exact ⟨i, reaches, reaches.final_or_succ.resolve_right through⟩
  | succ n ih =>
    rcases reaches.final_or_succ with final | next
    · exact ⟨i, reaches, final⟩
    · exact ih next (by omega)

variable (rival generate place) in
/-- What an update comes to that runs alone from `s₀`, where a record is to go in front of its next appends. -/
structure Settles (s₀ : Session (Contention × Store) M.State) (log span : List Entry) (copy : Revisioned M.State) : Prop
    extends rival.Concludes generate summarize place s₀ log span copy,
      rival.Breaks generate summarize place s₀ log span copy where
  /-- There is a last attempt, also if the policy never gives up. -/
  ends : (∀ k, (d.retry place).maxAttempts = some k → 1 ≤ k) →
    ∃ i, rival.Reaches generate place s₀ copy i ∧ rival.Final generate place s₀ copy i

section Ends

variable (foresees : d.Foresees s₀.behind log span copy) (armed : s₀.service.1.record = rival.bytes)
  (undelayed : ∀ attempt, (d.retry place).delay? attempt = some .zero)

include foresees armed undelayed

theorem Reaches.tries {i : Nat} (reaches : rival.Reaches generate place s₀ copy i) :
    ∃ s s', rival.Tries generate summarize place s₀ s s' log span copy i ∧
      ((d.replica place).writeWithRetry Session.proposal).run.evaluate (Session.contested summarize generate) s₀ =
      ((d.replica place).writeLoop Session.proposal (Replica.attemptLimit - i - 1 + 1) i).run.evaluate
        (Session.contested summarize generate) s := by
  obtain ⟨opposed, allowed, countable, counted, persists⟩ := reaches
  have enough : Replica.attemptLimit = Replica.attemptLimit - i - 1 + 1 + i := by omega
  obtain ⟨s, s', tries, same⟩ := exists_tries summarize foresees armed undelayed opposed
    (fun j lt => RetryPolicy.allows_iff.mpr fun k here => by have := allowed k here; omega) counted persists
    (Replica.attemptLimit - i - 1 + 1)
  rw [← enough] at same
  exact ⟨s, s', tries, same⟩

theorem Reaches.lost {i : Nat} (reaches : rival.Reaches generate place s₀ copy i) (opposed : i < s₀.service.1.pending)
    (persists : rival.Persists generate s₀ copy (i + 1)) :
    ∃ s, rival.Account s₀ s log span copy i (i + 1) (i + 1) [] (rival.times copy i) ∧
      ((d.replica place).writeWithRetry Session.proposal).run.evaluate (Session.contested summarize generate) s₀ =
        if (d.replica place).retry.allows (i + 1) then
          ((d.replica place).writeLoop Session.proposal (Replica.attemptLimit - i - 1) (i + 1)).run.evaluate
            (Session.contested summarize generate) s
        else (some (.error (.retriesExhausted (i + 1))), s) := by
  obtain ⟨s, s', tries, same⟩ := reaches.tries summarize foresees armed undelayed
  obtain ⟨nonempty, bytes, encoded, small⟩ := persists i (Nat.lt_succ_self i)
  obtain ⟨s₁, account, lost⟩ := tries.lost (undelayed i) foresees.revision_eq nonempty encoded small armed
    foresees.opened opposed
  exact ⟨s₁, account, same.trans lost⟩

theorem concludes : rival.Concludes generate summarize place s₀ log span copy := by
  have begins := foresees.revision_eq
  have opened := foresees.opened
  constructor
  case quits =>
    intro i reaches empty
    obtain ⟨s, s', tries, same⟩ := reaches.tries summarize foresees armed undelayed
    exact ⟨_, run_updateState_of_ok (same.trans (tries.quit (undelayed i) empty)), tries.account.shows⟩
  case lands =>
    intro reaches persists counted
    obtain ⟨s, s', tries, same⟩ := reaches.tries summarize foresees armed undelayed
    obtain ⟨nonempty, bytes, encoded, small⟩ := persists _ (Nat.lt_succ_self _)
    obtain ⟨s₁, e, rfl, account, landed⟩ :=
      tries.landed (undelayed _) begins nonempty encoded small opened (Nat.le_refl _) counted
    exact ⟨_, _, encoded, run_updateState_of_ok (same.trans landed), account⟩
  case givesUp =>
    intro k least limit le countable counted persists
    obtain ⟨i, rfl⟩ : ∃ i, k = i + 1 := ⟨k - 1, by omega⟩
    have reaches : rival.Reaches generate place s₀ copy i := by
      refine ⟨by omega, ?_, countable, counted, fun j lt => persists j (by omega)⟩
      intro k here
      rw [limit] at here
      cases here
      exact Nat.lt_succ_self i
    obtain ⟨s, account, lost⟩ := reaches.lost summarize foresees armed undelayed le persists
    have spent : ¬(d.replica place).retry.allows (i + 1) = true := fun allowed =>
      Nat.lt_irrefl _ (RetryPolicy.allows_iff.mp allowed _ limit)
    exact ⟨_, run_updateState_of_error (lost.trans (if_neg spent)), account⟩

theorem breaks : rival.Breaks generate summarize place s₀ log span copy := by
  have begins := foresees.revision_eq
  have opened := foresees.opened
  constructor
  case unencodable =>
    intro i reaches nonempty cause failed
    obtain ⟨s, s', tries, same⟩ := reaches.tries summarize foresees armed undelayed
    exact ⟨_, run_updateState_of_error (same.trans (tries.unencodable (undelayed i) begins nonempty opened failed)),
      tries.account.shows⟩
  case oversized =>
    intro i reaches nonempty bytes encoded large
    obtain ⟨s, s', tries, same⟩ := reaches.tries summarize foresees armed undelayed
    obtain ⟨s₁, foiled, refused⟩ :=
      tries.oversized (undelayed i) begins nonempty encoded armed opened reaches.opposed large
    exact ⟨s₁, run_updateState_of_error (same.trans refused), foiled⟩
  case overflows =>
    intro i reaches opposed persists allowed last
    obtain ⟨s, account, lost⟩ := reaches.lost summarize foresees armed undelayed opposed persists
    have free : (d.replica place).retry.allows (i + 1) = true := RetryPolicy.allows_iff.mpr allowed
    rw [if_pos free, show Replica.attemptLimit - i - 1 = 0 by omega, Replica.writeLoop, Session.evaluate_abort] at lost
    exact ⟨s, run_updateState_of_none lost, account⟩
  case uncaught =>
    intro i reaches opposed persists allowed countable last
    obtain ⟨s, account, lost⟩ := reaches.lost summarize foresees armed undelayed opposed persists
    have free : (d.replica place).retry.allows (i + 1) = true := RetryPolicy.allows_iff.mpr allowed
    have ended : ((d.replica place).getRevisionedState : Attempt M R _).run.evaluate
        (Session.contested summarize generate) s = (none, s.withLock true) :=
      account.uncaught generate summarize begins opened foresees.start_le (Nat.le_of_eq last.symm)
    obtain ⟨left, more⟩ : ∃ left, Replica.attemptLimit - i - 1 = left + 1 :=
      Nat.exists_eq_succ_of_ne_zero (by omega)
    have stopped : ((d.replica place).writeLoop Session.proposal (left + 1) (i + 1)).run.evaluate
        (Session.contested summarize generate) s = (none, s.withLock true) :=
      Session.evaluate_attempt_uncaught summarize generate (undelayed (i + 1)) ended
    rw [if_pos free, more, stopped] at lost
    refine ⟨_, run_updateState_of_none lost, ?_, account.service, account.shown, account.logs, account.present,
      account.start⟩
    show { s.memory with cacheLocked := false } = _
    rw [account.memory]
  case uncounted =>
    intro reaches persists last
    obtain ⟨s, s', tries, same⟩ := reaches.tries summarize foresees armed undelayed
    obtain ⟨nonempty, bytes, encoded, small⟩ := persists _ (Nat.lt_succ_self _)
    obtain ⟨s₁, e, rfl, foiled, landed⟩ := tries.uncounted (undelayed _) begins nonempty encoded small opened
      (Nat.le_refl _) (Nat.le_of_eq last.symm)
    exact ⟨s₁, _, encoded, run_updateState_of_none (same.trans landed), foiled⟩

theorem contended_update : rival.Settles generate summarize place s₀ log span copy := by
  refine ⟨concludes summarize foresees armed undelayed, breaks summarize foresees armed undelayed, fun least => ?_⟩
  have first : rival.Reaches generate place s₀ copy 0 :=
    ⟨Nat.zero_le _, least, by decide, foresees.event_lt, fun _ lt => absurd lt (Nat.not_lt_zero _)⟩
  exact first.exists_final

end Ends

end Attempts

end Rival

def nine : ofBytes.Rival where
  bytes := [1, 0, 0, 0, 1, 0, 0, 0, 1, 9]
  record := .updates [[9]]
  decoded := ofBytes_sound.roundTrips (.updates [[9]]) _ (by decide)
  short := by simp [Framed.payloadLimit, Framed.headerSize]

/-- An instance that has just begun its log, with two nines to go in front of its next records. -/
def outnumbered : Session (Contention × Store) Bytes where
  memory := { cache := some ⟨[5], ⟨ofBytes.segment, 6, 1⟩⟩ }
  service := (⟨nine.bytes, 2, 0, 0⟩, (transcript Store.serve
    [(ofBytes.segment, .createSegment), (ofBytes.segment, .append none [0, 5])] .empty).2)

theorem outnumbered_lands : ∃ s : Session (Contention × Store) Bytes,
    Session.run Contention.server id (fun earlier _ => ([[UInt8.ofNat earlier.length]], ()))
      ((ofBytes.replica 0).updateState) outnumbered = (.ok (), s) ∧
    s.shown = [[5], [5, 9], [5, 9, 9]] ∧ s.memory.cache.map (·.state) = some [5, 9, 9, 2] ∧
    s.memory.stats.conflicts = 2 ∧ s.service.1.conflicts = 2 ∧ s.service.1.conditionalAppends = 3 := by
  have logs : outnumbered.behind.service.Logs ofBytes.segment [⟨0, 6, [0, 5]⟩] :=
    (Store.logs_empty ofBytes.segment).transcript _
  have foresees : ofBytes.Foresees outnumbered.behind [⟨0, 6, [0, 5]⟩] [] ⟨[5], ⟨ofBytes.segment, 6, 1⟩⟩ := by
    refine ⟨logs, rfl, rfl, _, 1, (List.append_nil _).symm, by decide, ⟨?_, nofun⟩, rfl, by decide⟩
    rintro _ ⟨⟩
    rfl
  have undelayed : ∀ attempt, (ofBytes.retry 0).delay? attempt = some .zero := fun _ => if_pos (.inr rfl)
  have settles : nine.Settles (R := Unit) (fun earlier _ => ([[UInt8.ofNat earlier.length]], ())) id 0 outnumbered
    [⟨0, 6, [0, 5]⟩] [] ⟨[5], ⟨ofBytes.segment, 6, 1⟩⟩ := Rival.contended_update id foresees rfl undelayed
  have persists : nine.Persists (R := Unit) (fun earlier _ => ([[UInt8.ofNat earlier.length]], ())) outnumbered
      ⟨[5], ⟨ofBytes.segment, 6, 1⟩⟩ 3 := by
    intro i _
    exact ⟨nofun, _, rfl, by simp [Framed.payloadLimit, Framed.headerSize]⟩
  have reaches : nine.Reaches (R := Unit) (fun earlier _ => ([[UInt8.ofNat earlier.length]], ())) 0 outnumbered
      ⟨[5], ⟨ofBytes.segment, 6, 1⟩⟩ 2 :=
    ⟨by decide, nofun, by decide, by decide, fun i lt => persists i (by omega)⟩
  obtain ⟨s, e, _, run, account⟩ := settles.lands reaches persists (by decide)
  refine ⟨s, run, account.shown, ?_, ?_, ?_, ?_⟩
  · rw [account.memory]
    rfl
  · rw [account.memory]
    rfl
  · rw [account.service]
    rfl
  · rw [account.service]
    rfl

end Deployment

end LogReplica
