import LogReplica.Proofs.Replica.Numbering
import LogReplica.Proofs.Replica.Recognition

namespace LogReplica

variable {M : Model} {R : Type}

namespace Store

def restart? (store : Store) (segment : SegmentId) : Option Nat :=
  match store.mark segment with
  | none => some (store.buffer segment).start
  | some (.ofNat offset) => some offset
  | some (.negSucc _) => none

end Store

theorem Reader.Goes.answer_of_decode {T : Type} {r : Reader T} {c : Client T} {log ahead rest : List Entry} {e : Entry}
    {ordinal : Nat} {store : Store} {value : T} (goes : r.Goes c log ordinal ahead) (going : r.finished = false)
    (logs : store.Logs c.segment log) (present : (store.get? c.segment).isSome = true)
    (pending : r.buffer ++ ahead = e :: rest)
    (reached : r.buffer = [] → (store.buffer c.segment).start ≤ r.nextOffset)
    (decoded : c.codec.decode e.data = .ok value) (counted : ordinal + 1 < Revision.eventLimit) :
    ∃ r' ahead', r.answer store = (.record ⟨c.segment, e.endOffset, ordinal + 1⟩ value, r') ∧
      r'.buffer ++ ahead' = rest ∧ r'.finished = false ∧ r'.Goes c log (ordinal + 1) ahead' := by
  have whole : store.Logs c.segment (log ++ []) := by rwa [List.append_nil]
  obtain ⟨given, r', ahead', answered, left, gives⟩ := goes.answer_of_cons going whole present pending reached
  cases gives with
  | ended _ _ item =>
    have items := item [.finished] []
    simp [Reader.items, decoded] at items
  | goesOn going' goes' item =>
    have items := item [] []
    simp only [Reader.items, decoded, if_pos counted] at items
    cases items
    exact ⟨r', ahead', answered, left, going', goes'⟩

theorem Reader.Goes.answer_of_uncounted {T : Type} {r : Reader T} {c : Client T} {log ahead rest : List Entry}
    {e : Entry} {ordinal : Nat} {store : Store} {value : T} (goes : r.Goes c log ordinal ahead)
    (going : r.finished = false) (logs : store.Logs c.segment log) (present : (store.get? c.segment).isSome = true)
    (pending : r.buffer ++ ahead = e :: rest)
    (reached : r.buffer = [] → (store.buffer c.segment).start ≤ r.nextOffset)
    (decoded : c.codec.decode e.data = .ok value) (last : Revision.eventLimit ≤ ordinal + 1) :
    ∃ r', r.answer store = (.uncounted, r') := by
  have whole : store.Logs c.segment (log ++ []) := by rwa [List.append_nil]
  obtain ⟨given, r', ahead', answered, _, gives⟩ := goes.answer_of_cons going whole present pending reached
  have first : (Reader.items c [] ordinal [e]).head? = some .uncounted := by
    simp only [Reader.items, decoded, if_neg (Nat.not_lt.mpr last)]
    rfl
  have same : (Reader.items c [] ordinal [e]).head? = some given := by
    cases gives with
    | ended _ _ item => rw [item, List.head?_cons]
    | goesOn _ _ item => rw [item, List.head?_cons]
  obtain rfl := Option.some.inj (first.symm.trans same)
  exact ⟨r', answered⟩

theorem Client.play_getMark {T : Type} (generate : M.State → List M.Update × R) (summarize : M.State → M.Snapshot)
    {c : Client T} {s : Solo Store M.State} (present : (s.service.get? c.segment).isSome = true)
    (opened : s.memory.closed = false) : Solo.play generate summarize (c.getMark : Attempt M R _).run s =
      (some (match s.service.mark c.segment with
        | none => .ok none
        | some (.ofNat offset) => .ok (some ⟨c.segment, offset, 0⟩)
        | some (.negSucc n) => .error (.negativeMark (.negSucc n))), s) := by
  have same : (Store.serve c.segment (.getAttribute .mark) s.service).2 = s.service :=
    Store.within_snd_of_same fun _ _ => rfl
  have asked : Solo.play generate summarize (c.ask (.getAttribute .mark) : Attempt M R _).run s =
      (some (.ok (s.service.mark c.segment)), s) := by
    rw [ask, Solo.play_ask_of_same _ _ same]
    simp only [Store.serve, Store.within_fst, if_pos present]
    rfl
  rw [getMark, Solo.play_of_ok generate summarize (play_ensureOpen generate summarize opened),
    Solo.play_of_ok generate summarize asked]
  rcases s.service.mark c.segment with _ | _ | _ <;> rfl

namespace Solo

def fetched {σ S : Type} (copy : Revisioned S) (count : Nat) (s : Solo σ S) : Solo σ S :=
  { s with memory := { s.memory with
      cache := some copy
      stats := s.memory.stats.count (.replayed count) } }

end Solo

namespace Deployment

variable {d : Deployment M} {place : Nat} {slot : Replica.Cached M} {log front span : List Entry} {ordinal : Nat}

theorem replayRecord_of_hand {count : Nat} {e : Entry} {record : M.Record} {copy : Revisioned M.State}
    (decoded : d.codec.decode e.data = .ok record) (before : e.offset < e.endOffset)
    (aligned : ∀ old, slot = some old → old.revision = ⟨d.segment, e.offset, ordinal⟩)
    (handed : d.hand slot (e, ⟨d.segment, e.endOffset, ordinal + 1⟩) = .ok (some copy)) :
    (d.replica place).replayRecord ⟨slot, count⟩ (⟨d.segment, e.endOffset, ordinal + 1⟩, record) =
      .ok ⟨some copy, count + 1⟩ := by
  have newer : ¬(slot.any fun old =>
      !(⟨d.segment, e.endOffset, ordinal + 1⟩ : Revision).isNewerThan old.revision) = true := by
    cases slot with
    | none => nofun
    | some old =>
      have later : Revision.isNewerThan ⟨d.segment, e.endOffset, ordinal + 1⟩ ⟨d.segment, e.offset, ordinal⟩ = true :=
        Revision.isNewerThan_iff.mpr ⟨rfl, before⟩
      rw [Option.any_some, aligned old rfl, later]
      nofun
  obtain ⟨record', decoded', applied, same⟩ := hand_eq_ok.mp handed
  obtain rfl := Except.ok.inj (decoded.symm.trans decoded')
  obtain ⟨state, revision⟩ := copy
  obtain rfl : revision = ⟨d.segment, e.endOffset, ordinal + 1⟩ := same
  have applied : (d.replica place).applyRecord record (slot.map (·.state)) ⟨d.segment, e.endOffset, ordinal + 1⟩ =
      .ok ⟨state, ⟨d.segment, e.endOffset, ordinal + 1⟩⟩ := congrArg (Except.map _) applied
  rw [Replica.replayRecord, if_neg newer, applied]
  rfl

structure Starts (d : Deployment M) (s : Solo Store M.State) (start : Revision) : Prop where
  copy : ∀ old, s.memory.cache = some old → old.revision = start
  fresh : s.memory.cache = none → start.event = 0 ∧ s.service.restart? d.segment = some start.offset

/-- Alone in `s`, an instance that looks at the log goes on to its last records, and has `copy` then. -/
structure Foresees (d : Deployment M) (s : Solo Store M.State) (log span : List Entry) (copy : Revisioned M.State) :
    Prop where
  logs : s.service.Logs d.segment log
  present : (s.service.get? d.segment).isSome = true
  opened : s.memory.closed = false
  goes : ∃ front ordinal, log = front ++ span ∧ (s.service.buffer d.segment).start ≤ ending 0 front ∧
    d.Starts s ⟨d.segment, ending 0 front, ordinal⟩ ∧ d.resume s.memory.cache ordinal span = .ok (some copy) ∧
    ordinal + span.length < Revision.eventLimit

section Alone

variable (generate : M.State → List M.Update × R) (summarize : M.State → M.Snapshot) {s : Solo Store M.State}
  (logs : s.service.Logs d.segment log) (present : (s.service.get? d.segment).isSome = true)

include logs present

theorem play_fold {reader : Reader M.Record} {ahead : List Entry} {count fuel : Nat} {slot' : Replica.Cached M}
    (goes : reader.Goes (d.client place) log ordinal ahead) (going : reader.finished = false)
    (left : reader.buffer ++ ahead = span) (split : log = front ++ span)
    (reached : (s.service.buffer d.segment).start ≤ ending 0 front)
    (aligned : ∀ old, slot = some old → old.revision = ⟨d.segment, ending 0 front, ordinal⟩)
    (resumed : d.resume slot ordinal span = .ok slot') (counted : ordinal + span.length < Revision.eventLimit)
    (fuelled : span.length < fuel) :
    Solo.play generate summarize (reader.fold (d.replica place).replayRecord fuel ⟨slot, count⟩) s =
      (some (.complete, ⟨slot', count + span.length⟩), s) := by
  -- On the records that are left; one pull gives the first of them, with its place and number.
  induction span generalizing reader ahead front slot ordinal count fuel with
  | nil =>
    obtain ⟨fuel, rfl⟩ := Nat.exists_eq_add_of_lt fuelled
    cases resumed
    have empty := List.append_eq_nil_iff.mp left
    have pulled := Reader.answer_of_end going empty.1 ((goes.ahead_eq_nil_iff logs.chain).mp empty.2) s.service
    rw [show [].length + fuel + 1 = fuel + 1 by simp, Reader.fold, Solo.play_bind, Reader.play_next, pulled]
    rfl
  | cons e rest ih =>
    obtain ⟨fuel, rfl⟩ := Nat.exists_eq_add_of_lt fuelled
    have chain := logs.chain
    rw [split] at chain
    have begins := chain.offset_eq
    have ends := chain.endOffset_eq
    rw [List.length_cons] at counted
    rw [resume_cons] at resumed
    cases handed : d.hand slot (e, ⟨d.segment, e.endOffset, ordinal + 1⟩) with
    | error cause =>
      rw [handed] at resumed
      cases resumed
    | ok next =>
      rw [handed] at resumed
      obtain ⟨copy, rfl⟩ := exists_copy_of_hand handed
      obtain ⟨record, decoded, _, same⟩ := hand_eq_ok.mp handed
      have here : reader.buffer = [] → (s.service.buffer d.segment).start ≤ reader.nextOffset := by
        intro empty
        obtain ⟨before, split', fetched⟩ := goes.fetched
        rw [empty, List.nil_append] at left
        rw [left, split] at split'
        rwa [← fetched, ← List.append_cancel_right split']
      obtain ⟨reader', ahead', answered, left', going', goes'⟩ :=
        goes.answer_of_decode going logs present left here decoded (by omega)
      have forward : e.offset < e.endOffset := by
        rw [begins, ends, Framed.headerSize]
        omega
      have replayed : (d.replica place).replayRecord ⟨slot, count⟩
        (⟨(d.client place).segment, e.endOffset, ordinal + 1⟩, record) = .ok ⟨some copy, count + 1⟩ :=
        replayRecord_of_hand decoded forward (begins ▸ aligned) handed
      have aligned' : ∀ old, some copy = some old →
          old.revision = ⟨d.segment, ending 0 (front ++ [e]), ordinal + 1⟩ := by
        rintro _ ⟨⟩
        simpa using same
      have further : (s.service.buffer d.segment).start ≤ ending 0 (front ++ [e]) := by
        simp only [ending_append, ending_cons, ending_nil]
        omega
      rw [Reader.fold, Solo.play_bind, Reader.play_next, answered]
      dsimp only
      rw [replayed]
      refine (ih goes' going' left' (by rw [split, List.append_assoc, List.singleton_append]) further aligned' resumed
        (by omega) (by rw [List.length_cons]; omega)).trans ?_
      rw [List.length_cons, Nat.add_right_comm, Nat.add_assoc]

theorem play_replayRecords {reader : Reader M.Record} {slot' : Replica.Cached M}
    (goes : reader.Goes (d.client place) log ordinal span) (going : reader.finished = false)
    (empty : reader.buffer = []) (split : log = front ++ span)
    (reached : (s.service.buffer d.segment).start ≤ ending 0 front)
    (aligned : ∀ old, slot = some old → old.revision = ⟨d.segment, ending 0 front, ordinal⟩)
    (resumed : d.resume slot ordinal span = .ok slot') (counted : ordinal + span.length < Revision.eventLimit) :
    Solo.play generate summarize ((d.replica place).replayRecords slot reader) s =
      (some (.ok (), slot'), { s with memory := { s.memory with
        stats := s.memory.stats.count (.replayed span.length) } }) := by
  have enough : span.length < reader.bound + 1 := by
    obtain ⟨before, split', fetched⟩ := goes.fetched
    have chain := logs.chain
    rw [split'] at chain
    have spread := chain.right.length_le
    rw [← ending_append, ← split', ← goes.limit, fetched] at spread
    rw [Reader.bound]
    omega
  have folded : Solo.play generate summarize
      (reader.fold (d.replica place).replayRecord (reader.bound + 1) ⟨slot, 0⟩) s =
        (some (.complete, ⟨slot', 0 + span.length⟩), s) :=
    play_fold generate summarize logs present goes going (by rw [empty]; rfl) split reached aligned resumed counted
      enough
  rw [Nat.zero_add] at folded
  rw [Replica.replayRecords, Solo.play_bind, folded]
  show Solo.play generate summarize (if span.length ≠ 0 then _ else _) s = _
  split
  · rfl
  · rename_i none
    rw [not_not.mp none]
    rfl

end Alone

section Seen

variable (place) (generate : M.State → List M.Update × R) (summarize : M.State → M.Snapshot) {s : Solo Store M.State}
  {copy : Revisioned M.State}

theorem play_freshStart (present : (s.service.get? d.segment).isSome = true) (opened : s.memory.closed = false)
    {offset : Nat} (found : s.service.restart? d.segment = some offset) :
    Solo.play generate summarize ((d.replica place).freshStart : Attempt M R Revision).run s =
      (some (.ok ⟨d.segment, offset, 0⟩), s) := by
  have marked := Client.play_getMark (R := R) generate summarize (c := d.client place) present opened
  unfold Store.restart? at found
  have here : (d.client place).segment = d.segment := rfl
  rw [here] at marked
  rcases value : s.service.mark d.segment with _ | mark | _
  · rw [value] at found marked
    cases found
    exact (Solo.play_of_ok generate summarize marked _).trans
      (Client.play_fetchOldest generate summarize (c := d.client place) present opened)
  · rw [value] at found marked
    cases found
    exact Solo.play_of_ok generate summarize marked _
  · rw [value] at found
    cases found

theorem play_replayFrom (logs : s.service.Logs d.segment log) (present : (s.service.get? d.segment).isSome = true)
    (opened : s.memory.closed = false) (split : log = front ++ span)
    (reached : (s.service.buffer d.segment).start ≤ ending 0 front)
    (aligned : ∀ old, slot = some old → old.revision = ⟨d.segment, ending 0 front, ordinal⟩)
    (resumed : d.resume slot ordinal span = .ok (some copy)) (counted : ordinal + span.length < Revision.eventLimit) :
    Solo.play generate summarize
      ((d.replica place).replayFrom slot ⟨d.segment, ending 0 front, ordinal⟩ : Attempt M R Unit).run s =
      (some (.ok ()), s.fetched copy span.length) := by
  let reader : Reader M.Record := {
    client := d.client place
    nextOffset := ending 0 front
    endOffset := (s.service.buffer d.segment).tail
    ordinal := ordinal }
  have own : (⟨d.segment, ending 0 front, ordinal⟩ : Revision).segment = (d.client place).segment := rfl
  have begun : Solo.play generate summarize ((d.client place).readFrom ⟨d.segment, ending 0 front, ordinal⟩ :
      Attempt M R _).run s = (some (.ok reader), s) :=
    (Client.play_readFrom generate summarize own present opened).trans (if_neg (Nat.not_lt.mpr reached))
  have goes : reader.Goes (d.client place) log ordinal span := ⟨rfl, rfl, ⟨front, split, rfl⟩, logs.tail_eq⟩
  have replayed := play_replayRecords generate summarize logs present goes rfl rfl split reached aligned resumed counted
  have lifted := Solo.play_lift generate summarize replayed
  exact (Solo.play_of_ok generate summarize begun _).trans ((Solo.play_of_ok generate summarize lifted _).trans rfl)

omit place generate summarize in
theorem Foresees.withLock (foresees : d.Foresees s log span copy) (taken : Bool) :
    d.Foresees (s.withLock taken) log span copy := by
  obtain ⟨logs, present, opened, front, ordinal, split, reached, starts, told⟩ := foresees
  exact ⟨logs, present, opened, front, ordinal, split, reached, ⟨starts.copy, starts.fresh⟩, told⟩

omit place generate summarize in
theorem Foresees.revision_eq (foresees : d.Foresees s log span copy) :
    copy.revision = ⟨d.segment, ending 0 log, copy.revision.event⟩ := by
  obtain ⟨_, _, _, front, ordinal, rfl, _, starts, resumed, _⟩ := foresees
  rw [revision_of_resume resumed starts.copy, ending_append]

omit place generate summarize in
theorem Foresees.event_lt (foresees : d.Foresees s log span copy) : copy.revision.event < Revision.eventLimit := by
  obtain ⟨_, _, _, front, ordinal, rfl, _, starts, resumed, counted⟩ := foresees
  rwa [revision_of_resume resumed starts.copy]

omit place generate summarize in
theorem Foresees.start_le (foresees : d.Foresees s log span copy) :
    (s.service.buffer d.segment).start ≤ ending 0 log := by
  obtain ⟨logs, _, _, front, _, rfl, reached, _⟩ := foresees
  rw [ending_append]
  exact Nat.le_trans reached logs.chain.right.le_ending

theorem Foresees.play_catchUp (foresees : d.Foresees s log span copy) :
    Solo.play generate summarize ((d.replica place).catchUp : Attempt M R Unit).run s =
      (some (.ok ()), s.fetched copy span.length) := by
  obtain ⟨logs, present, opened, front, ordinal, split, reached, starts, resumed, counted⟩ := foresees
  have touched : Solo.play generate summarize (Attempt.touch .cached : Attempt M R _).run s =
    (some (.ok s.memory.cache), s) := rfl
  have replayed := play_replayFrom place generate summarize logs present opened split reached starts.copy
    resumed counted
  have run : Solo.play generate summarize (ExceptT.lift ((d.replica place).replayFrom s.memory.cache
      ⟨d.segment, ending 0 front, ordinal⟩ : Attempt M R Unit).run : Attempt M R _).run s = _ :=
    Solo.play_lift generate summarize replayed
  rw [Replica.catchUp, Solo.play_of_ok generate summarize touched]
  cases cached : s.memory.cache with
  | some old =>
    rw [cached] at run
    have same := starts.copy old cached
    rw [← same] at run
    exact (Solo.play_of_ok generate summarize run _).trans rfl
  | none =>
    obtain ⟨zero, restart⟩ := starts.fresh cached
    obtain rfl : ordinal = 0 := zero
    rw [cached] at run
    have started := play_freshStart (R := R) place generate summarize present opened restart
    exact (Solo.play_of_ok generate summarize started _).trans ((Solo.play_of_ok generate summarize run _).trans rfl)

theorem Foresees.play_getRevisionedState (foresees : d.Foresees s log span copy) :
    Solo.play generate summarize ((d.replica place).getRevisionedState : Attempt M R _).run s =
      (some (.ok copy), (s.fetched copy span.length).withLock false) := by
  have caught := (foresees.withLock true).play_catchUp (R := R) place generate summarize
  rw [Replica.getRevisionedState, Solo.play_locked, Solo.play_of_ok generate summarize caught]
  rfl

section Uncounted

variable {old : Revisioned M.State} {e : Entry} {record : M.Record} (cached : s.memory.cache = some old)
  (here : old.revision = ⟨d.segment, ending 0 front, ordinal⟩) (logs : s.service.Logs d.segment (front ++ e :: span))
  (present : (s.service.get? d.segment).isSome = true) (opened : s.memory.closed = false)
  (reached : (s.service.buffer d.segment).start ≤ ending 0 front) (decoded : d.codec.decode e.data = .ok record)
  (last : Revision.eventLimit ≤ ordinal + 1)

include cached here logs present opened reached decoded last

theorem play_catchUp_uncounted :
    Solo.play generate summarize ((d.replica place).catchUp : Attempt M R Unit).run s = (none, s) := by
  let reader : Reader M.Record := {
    client := d.client place
    nextOffset := ending 0 front
    endOffset := (s.service.buffer d.segment).tail
    ordinal := ordinal }
  have own : (⟨d.segment, ending 0 front, ordinal⟩ : Revision).segment = (d.client place).segment := rfl
  have begun : Solo.play generate summarize ((d.client place).readFrom ⟨d.segment, ending 0 front, ordinal⟩ :
      Attempt M R _).run s = (some (.ok reader), s) :=
    (Client.play_readFrom generate summarize own present opened).trans (if_neg (Nat.not_lt.mpr reached))
  have goes : reader.Goes (d.client place) (front ++ e :: span) ordinal (e :: span) :=
    ⟨rfl, rfl, ⟨front, rfl, rfl⟩, logs.tail_eq⟩
  obtain ⟨reader', answered⟩ := goes.answer_of_uncounted rfl logs present rfl (fun _ => reached) decoded last
  have folded : Solo.play generate summarize
      (reader.fold (d.replica place).replayRecord (reader.bound + 1) ⟨some old, 0⟩) s =
        (some (.uncounted, ⟨some old, 0⟩), s) := by
    rw [Reader.fold, Solo.play_bind, Reader.play_next, answered]
    rfl
  have replayed : Solo.play generate summarize ((d.replica place).replayRecords (some old) reader) s = (none, s) := by
    rw [Replica.replayRecords, Solo.play_bind, folded]
    rfl
  have resumed : Solo.play generate summarize ((d.replica place).replayFrom (some old)
      ⟨d.segment, ending 0 front, ordinal⟩ : Attempt M R Unit).run s = (none, s) :=
    (Solo.play_of_ok generate summarize begun _).trans
      (Procedure.evaluate_of_none _ (Procedure.evaluate_lift_none _ replayed) _)
  have touched : Solo.play generate summarize (Attempt.touch .cached : Attempt M R _).run s =
    (some (.ok s.memory.cache), s) := rfl
  rw [Replica.catchUp, Solo.play_of_ok generate summarize touched, cached]
  rw [← here] at resumed
  exact Procedure.evaluate_of_none _ (Procedure.evaluate_lift_none _ resumed) _

theorem play_getRevisionedState_uncounted :
    Solo.play generate summarize ((d.replica place).getRevisionedState : Attempt M R _).run s =
      (none, s.withLock true) := by
  have caught := play_catchUp_uncounted (R := R) place generate summarize (s := s.withLock true) cached here logs
    present opened reached decoded last
  rw [Replica.getRevisionedState, Solo.play_locked, Solo.play_attempt, caught]

end Uncounted

end Seen

end Deployment

end LogReplica
