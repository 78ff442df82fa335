import LogReplica.Proofs.Concurrency.Schedule
import LogReplica.Proofs.Replica.Compacting

namespace LogReplica

inductive Operation (M : Model) where
  | createSegment
  | establish (snapshot : M.Snapshot)
  | establishIfAbsent (snapshot : M.Snapshot)
  | fetchUpdates
  | getState
  | getRevisionedState
  | updateState
  | updateStateWithResult
  | compact
  | bytesSinceCompaction
  | close
  | writeRecord (latest : Option Revision) (record : M.Record)
  | writeBytes (latest : Option Revision) (bytes : Bytes)
  | compareAndSetMark (expected new : Option Revision)
  | truncateTo (start : Revision)

namespace Operation

variable {M : Model}

def Raw : Operation M → Prop
  | writeRecord .. | writeBytes .. | compareAndSetMark .. | truncateTo _ => True
  | _ => False

instance decidableRaw (operation : Operation M) : Decidable operation.Raw := by
  cases operation <;> first | exact isTrue trivial | exact isFalse id

def Founds : Operation M → Prop
  | establish _ | establishIfAbsent _ => True
  | _ => False

instance decidableFounds (operation : Operation M) : Decidable operation.Founds := by
  cases operation <;> first | exact isTrue trivial | exact isFalse id

def Updates : Operation M → Prop
  | updateState | updateStateWithResult => True
  | _ => False

instance decidableUpdates (operation : Operation M) : Decidable operation.Updates := by
  cases operation <;> first | exact isTrue trivial | exact isFalse id

theorem not_raw {operation : Operation M} (writes : operation.Updates ∨ operation = .compact) : ¬operation.Raw := by
  rintro raw
  rcases writes with updates | rfl
  · cases operation <;> first | exact raw | exact updates
  · exact raw

theorem not_founds {operation : Operation M} (writes : operation.Updates ∨ operation = .compact) :
    ¬operation.Founds := by
  rintro founds
  rcases writes with updates | rfl
  · cases operation <;> first | exact founds | exact updates
  · exact founds

theorem not_raw_of_founds {operation : Operation M} (founds : operation.Founds) : ¬operation.Raw := by
  rintro raw
  cases operation <;> first | exact raw | exact founds

end Operation

inductive Result (M : Model) (R : Type) where
  | nothing
  | flag (b : Bool)
  | state (state : M.State)
  | revisioned (copy : Revisioned M.State)
  | value (r : R)
  | number (n : Nat)
  | revision (r : Option Revision)

namespace Deployment

variable {M : Model} {R : Type} (d : Deployment M)

def write {T : Type} (client : Client T) (latest : Option Revision) (value : T) : Attempt M R (Option Revision) :=
  match latest with
  | some latest => client.writeConditionally latest value
  | none => do
    let revision ← client.writeUnconditionally value
    pure (some revision)

theorem write_within {T : Type} (c : Client T) {allowed : Action M R → Prop}
    (le : ∀ action, action.Asks → allowed action) (latest : Option Revision) {value : T}
    (appends : ∀ expected data, c.codec.encode value = .ok data → allowed (.ask c.segment (.append expected data))) :
    (write c latest value : Attempt M R _).Confined allowed fun _ => True := by
  cases latest with
  | some latest => exact c.writeConditionally_within le latest (appends _)
  | none => exact .bind (c.writeUnconditionally_within le (appends none)) fun _ => .pure _

def program (place : Nat) : Operation M → Attempt M R (Result M R)
  | .createSegment => do
    (d.client place).establish
    pure .nothing
  | .establish snapshot => do
    (d.replica place).establish snapshot
    pure .nothing
  | .establishIfAbsent snapshot => do
    let written ← (d.replica place).establishIfAbsent snapshot
    pure (.flag written)
  | .fetchUpdates => do
    (d.replica place).fetchUpdates
    pure .nothing
  | .getState => do
    let state ← (d.replica place).getState
    pure (.state state)
  | .getRevisionedState => do
    let copy ← (d.replica place).getRevisionedState
    pure (.revisioned copy)
  | .updateState => do
    (d.replica place).updateState
    pure .nothing
  | .updateStateWithResult => do
    let result ← (d.replica place).updateStateWithResult
    pure (.value result)
  | .compact => do
    (d.replica place).compact
    pure .nothing
  | .bytesSinceCompaction => do
    let bytes ← (d.replica place).bytesSinceCompaction
    pure (.number bytes)
  | .close => do
    ExceptT.lift Replica.close
    pure .nothing
  | .writeRecord latest record => do
    let revision ← write (d.client place) latest record
    pure (.revision revision)
  | .writeBytes latest bytes => do
    let revision ← write ⟨d.segment, d.readBuffer place, Codec.raw⟩ latest bytes
    pure (.revision revision)
  | .compareAndSetMark expected new => do
    let swapped ← (d.client place).compareAndSetMark expected new
    pure (.flag swapped)
  | .truncateTo start => do
    (d.client place).truncateTo start
    pure .nothing

def Answered (past : Trace M R (Operation M)) (me : Caller (Operation M)) (state : M.State) : M.Record → Prop
  | .updates batch => me.operation.Updates ∧ ∃ result, past.Asked me (.acted (.generate state) (batch, result))
  | .init snapshot => me.operation = .compact ∧ past.Asked me (.acted (.summarize state) snapshot)

theorem not_answered_of_founds {past : Trace M R (Operation M)} {me : Caller (Operation M)} {state : M.State}
    {record : M.Record} (founds : me.operation.Founds) : ¬Answered past me state record := by
  intro answered
  cases record with
  | updates batch => exact Operation.not_founds (.inl answered.1) founds
  | init snapshot => exact Operation.not_founds (.inr answered.1) founds

variable (M R) in
def conduct : Conduct M R (Operation M) where
  raw := Operation.Raw
  founds := Operation.Founds
  compacts operation := operation = .compact
  proposes := Answered

/-- Where this call has moved the mark the log has been cut off, unless the call was interrupted. -/
def Settled (me : Caller (Operation M)) (t : Trace M R (Operation M)) : Prop :=
  ∀ e ∈ t, e.caller.call = me.call → ∀ target, e.Moves d.segment target → target ≤ d.oldest t ∨ t.Interrupted me

def Fulfilled (me : Caller (Operation M)) (t t' : Trace M R (Operation M)) : Except CoreError (Result M R) → Prop
  | .error cause => d.Blame (conduct M R) me t t' cause
  | .ok (.state state) => ∃ copy, copy.state = state ∧ d.Placed (d.log t') copy ∧
    ending 0 (d.log t) ≤ copy.revision.offset
  | .ok (.revisioned copy) => d.Placed (d.log t') copy ∧ ending 0 (d.log t) ≤ copy.revision.offset
  | .ok .nothing => me.operation = .compact → d.Compacted (conduct M R) me t t'
  | .ok _ => True

def Promise (me : Caller (Operation M)) (result : Except CoreError (Result M R)) (t : Trace M R (Operation M)) : Prop :=
  me.operation.Raw ∨ d.Settled me t ∧ ∃ past, past ++ [⟨me, .called⟩] <+: t ∧
    d.Fulfilled me (past ++ [⟨me, .called⟩]) t result

variable {d} {O α β : Type} {ρ : Conduct M R O} {me : Caller O}

variable (d ρ me) in
def Harmless (x : Attempt M R α) : Prop :=
  ∀ t (crash : Trace M R O → Prop) ok err, (∀ t', crash t') → (∀ a t', ok a t') → (∀ cause t', err cause t') →
    Attempt.Safe (d.law ρ) me crash ok err x t

namespace Harmless

theorem pure (a : α) : d.Harmless ρ me (Pure.pure a : Attempt M R α) := fun t _ _ _ _ oks _ => .pure (oks a t)

theorem throw (cause : CoreError) : d.Harmless ρ me (MonadExcept.throw cause : Attempt M R α) :=
  fun t _ _ _ _ _ errs => .throw (errs cause t)

theorem bind {x : Attempt M R α} {f : α → Attempt M R β} (first : d.Harmless ρ me x)
    (rest : ∀ a, d.Harmless ρ me (f a)) :
    d.Harmless ρ me (x >>= f) := fun t _ _ _ crashes oks errs =>
  .bind (first t _ _ _ crashes (fun a t' => rest a t' _ _ _ crashes oks errs) errs)

theorem abort : d.Harmless ρ me (Attempt.abort : Attempt M R α) :=
  fun _ _ _ _ crashes _ _ => .abort (fun _ _ => trivial) fun _ _ => crashes _

theorem ask (raw : ρ.raw me.operation) {request : Request} (keeps : request.KeepsMark) :
    d.Harmless ρ me (Attempt.ask d.segment request) := fun _ _ _ _ _ oks errs =>
  .ask (fun _ _ => ⟨rfl, keeps, .inl raw⟩) (fun answer _ _ _ => oks answer _) fun _ _ _ _ _ _ => errs _ _

theorem ensureOpen : d.Harmless ρ me Client.ensureOpen := fun _ _ _ _ _ oks errs =>
  ensureOpen_told_safe (fun t' _ _ => oks () t') fun _ _ _ => errs _ _

variable {T : Type} {client : Client T} (here : client.segment = d.segment)

theorem checkSegment (revision : Revision) : d.Harmless ρ me (client.checkSegment revision) := by
  unfold Client.checkSegment
  split
  · exact pure ()
  · exact throw _

theorem checkSegment? (revision : Option Revision) : d.Harmless ρ me (client.checkSegment? revision) := by
  cases revision with
  | none => exact pure ()
  | some revision => exact checkSegment revision

theorem markValue {position : Option Nat} {f : Option Int → Attempt M R α}
    (rest : d.Harmless ρ me (f (position.map Int.ofNat))) :
    d.Harmless ρ me (Client.markValue? position >>= f) := by
  cases position with
  | none => exact rest
  | some offset =>
    unfold Client.markValue? Client.markValue
    by_cases small : offset < 2 ^ 63
    · simp only [if_pos small]
      exact rest
    · simp only [if_neg small]
      exact fun t _ _ _ _ _ errs => .bind (.throw (errs _ t))

theorem encode (value : T) : d.Harmless ρ me (client.encode value) := by
  unfold Client.encode
  cases client.codec.encode value with
  | ok bytes => exact pure bytes
  | error cause => exact throw _

variable (raw : ρ.raw me.operation)

include here raw

theorem askClient {request : Request} (keeps : request.KeepsMark) : d.Harmless ρ me (client.ask request) := by
  unfold Client.ask
  rw [here]
  exact ask raw keeps

theorem write (latest : Option Revision) (value : T) : d.Harmless ρ me (write client latest value) := by
  cases latest with
  | some latest =>
    refine bind ensureOpen fun _ => bind (checkSegment latest) fun _ => bind (encode value) fun bytes => ?_
    refine bind (askClient here raw trivial) fun outcome => ?_
    cases outcome with
    | conflict tail => exact pure none
    | appended offset endOffset =>
      dsimp only
      cases Revision.nextEvent? latest.event with
      | some event => exact pure _
      | none => exact abort
  | none =>
    refine bind (bind ensureOpen fun _ => bind (encode value) fun bytes => ?_) fun revision => pure _
    refine bind (askClient here raw trivial) fun outcome => ?_
    cases outcome with
    | appended offset endOffset => exact pure _
    | conflict tail => exact throw _

theorem truncateTo (start : Revision) : d.Harmless ρ me (client.truncateTo start) :=
  bind ensureOpen fun _ => bind (checkSegment start) fun _ => askClient here raw trivial

theorem compareAndSetMark (expected new : Option Revision) :
    d.Harmless ρ me (client.compareAndSetMark expected new) := by
  refine bind ensureOpen fun _ => bind (checkSegment? expected) fun _ => bind (checkSegment? new) fun _ => ?_
  dsimp only
  split
  · exact throw _
  · rename_i forward
    refine markValue (markValue (askClient here raw ⟨rfl, ?_, ?_⟩))
    · rintro value same
      obtain ⟨offset, _, rfl⟩ := Option.map_eq_some_iff.mp same
      exact Int.natCast_nonneg offset
    · intro old same
      obtain ⟨offset, current, rfl⟩ := Option.map_eq_some_iff.mp same
      rw [current] at forward
      cases requested : new.map (·.offset) with
      | none =>
        rw [requested] at forward
        exact absurd rfl forward
      | some target =>
        rw [requested] at forward
        refine ⟨target, rfl, ?_⟩
        simp only [Client.regresses, decide_eq_true_eq, Nat.not_lt] at forward
        exact Int.ofNat_le.mpr forward

end Harmless

theorem harmless_of_raw {me : Caller (Operation M)} (raw : me.operation.Raw) :
    d.Harmless (conduct M R) me (d.program me.place me.operation) := by
  have raw' : (conduct M R).raw me.operation := raw
  cases operation : me.operation with
  | writeRecord latest record => exact .bind (.write rfl raw' latest record) fun _ => .pure _
  | writeBytes latest bytes => exact .bind (.write rfl raw' latest bytes) fun _ => .pure _
  | compareAndSetMark expected new => exact .bind (.compareAndSetMark rfl raw' expected new) fun _ => .pure _
  | truncateTo start => exact .bind (.truncateTo rfl raw' start) fun _ => .pure _
  | _ =>
    rw [operation] at raw
    exact raw.elim

section Promises

variable {me : Caller (Operation M)} {past t t' : Trace M R (Operation M)} (fresh : ∀ e ∈ past, e.caller.call ≠ me.call)

include fresh

theorem unmoved_of_went {allowed : Deed M R → Prop}
    (went : Went (d.law (conduct M R)) me allowed (past ++ [⟨me, .called⟩]) t)
    (other : ∀ expected target, ¬allowed (d.moving expected target)) :
    ∀ e ∈ t, e.caller.call = me.call → ∀ target, ¬e.Moves d.segment target := by
  obtain ⟨⟨more, rfl, own⟩, _⟩ := went
  rintro e member mine target ⟨expected, moves⟩
  rcases List.mem_append.mp member with member | member
  · rcases List.mem_append.mp member with member | member
    · exact fresh e member mine
    · rw [List.mem_singleton.mp member] at moves
      cases moves
  · have allowed := own e member mine
    rw [moves] at allowed
    exact other expected target allowed

theorem promise_of_steady {result : Except CoreError (Result M R)}
    (went : Went (d.law (conduct M R)) me (Deed.Steady d.segment) (past ++ [⟨me, .called⟩]) t)
    (fulfilled : d.Fulfilled me (past ++ [⟨me, .called⟩]) t result) : d.Promise me result t := by
  refine .inr ⟨fun e member mine target moves => ?_, past, went.le, fulfilled⟩
  exact absurd moves (unmoved_of_went fresh went (fun _ _ steady => steady rfl) e member mine target)

theorem promise_of_end (went : Went (d.law (conduct M R)) me (Deed.Steady d.segment) (past ++ [⟨me, .called⟩]) t) :
    d.Promise me (.error .taskFailed) (t ++ [⟨me, .gaveUp⟩]) := by
  refine .inr ⟨fun e member mine target moves => ?_, past, went.le.trans (List.prefix_append _ _), .taskFailed⟩
  rcases List.mem_append.mp member with member | member
  · exact absurd moves (unmoved_of_went fresh went (fun _ _ steady => steady rfl) e member mine target)
  · obtain ⟨expected, moves⟩ := moves
    rw [List.mem_singleton.mp member] at moves
    cases moves

theorem promise_of_compacted (compacted : d.Compacted (conduct M R) me (past ++ [⟨me, .called⟩]) t) :
    d.Promise me (.ok .nothing) t := by
  obtain ⟨snapshot, entry, t₁, t₂, before, landed, advanced⟩ := compacted
  have reached := before.steady.trans landed.steady
  have compacted : d.Compacted (conduct M R) me (past ++ [⟨me, .called⟩]) t :=
    ⟨snapshot, entry, t₁, t₂, before, landed, advanced⟩
  cases advanced with
  | superseded t₃ offset read marked newer after =>
    exact promise_of_steady fresh ((reached.trans read.steady).trans after.steady) fun _ => compacted
  | lost t₃ t₄ read between moved after =>
    exact promise_of_steady fresh ((reached.trans read.steady).trans (between.steady.trans after.steady)) fun _ =>
      compacted
  -- It has moved the mark once, to where it has cut the log off since.
  | done expected t₃ t₄ t₅ t₆ read moved between cut after =>
    have before := unmoved_of_went fresh (reached.trans read.steady) fun _ _ steady => steady rfl
    have still : ∀ deed : Deed M R, deed.Quiet d.segment → ∀ old target, deed ≠ d.moving old target := by
      rintro _ quiet old target rfl
      exact quiet rfl
    have other : ∀ old target, (d.cutting entry.offset : Deed M R) ≠ d.moving old target := by
      intro old target same
      cases same
    have since := ((between.mono still).trans (cut.went other)).trans (after.mono still)
    have low : entry.offset ≤ d.oldest t := by
      refine Nat.le_trans ?_ (oldest_le after.lawful after.le)
      rw [cut.oldest_eq.1]
      exact Nat.le_max_right _ _
    have le : past ++ [⟨me, .called⟩] <+: t := reached.le.trans (read.le.trans (moved.le.trans since.le))
    refine .inr ⟨fun e member mine target moves => .inl ?_, past, le, fun _ => compacted⟩
    obtain ⟨⟨more, rfl, own⟩, _⟩ := since
    obtain ⟨old, deed⟩ := moves
    rcases List.mem_append.mp member with member | member
    · rw [moved.last] at member
      rcases List.mem_append.mp member with member | member
      · exact absurd ⟨old, deed⟩ (before e member mine target)
      · rw [List.mem_singleton.mp member] at deed
        cases deed
        exact low
    · exact absurd deed (own e member mine old target)

omit fresh in
theorem promise_of_interrupted {cause : CoreError} (le : past ++ [⟨me, .called⟩] <+: t) (interrupted : t.Interrupted me)
    (blame : d.Blame (conduct M R) me (past ++ [⟨me, .called⟩]) t cause) : d.Promise (R := R) me (.error cause) t :=
  .inr ⟨fun _ _ _ _ _ => .inr interrupted, past, le, blame⟩

theorem promise_of_nothing (went : Went (d.law (conduct M R)) me (Deed.Steady d.segment) (past ++ [⟨me, .called⟩]) t)
    (other : me.operation ≠ .compact) : d.Promise me (.ok .nothing) t :=
  promise_of_steady fresh went fun same => absurd same other

theorem promise_of_blame {cause : CoreError}
    (went : Went (d.law (conduct M R)) me (Deed.Steady d.segment) (past ++ [⟨me, .called⟩]) t)
    (blame : d.Blame (conduct M R) me (past ++ [⟨me, .called⟩]) t cause) : d.Promise (R := R) me (.error cause) t :=
  promise_of_steady fresh went blame

theorem promise_fails :
    d.Fails (conduct M R) me (fun cause => d.Promise me (.error cause)) (past ++ [⟨me, .called⟩]) :=
  fun _ _ went blame _ => promise_of_blame fresh (went.tends.quiet d.segment).steady blame

omit fresh in
theorem proposes_of_updates (updates : me.operation.Updates) (past : Trace M R (Operation M)) (state : M.State)
    (batch : List M.Update) (result : R) (asked : past.Asked me (.acted (.generate state) (batch, result))) :
    (conduct M R).proposes past me state (.updates batch) := ⟨updates, result, asked⟩

variable (d me past) in
/-- A call that keeps the law and its promise, whatever others do that keep the law. -/
def Keeps (call : Attempt M R (Result M R)) : Prop :=
  Attempt.Safe (d.law (conduct M R)) me (d.Promise me (.error .taskFailed)) (fun a => d.Promise me (.ok a))
    (fun cause => d.Promise me (.error cause)) call (past ++ [⟨me, .called⟩])

theorem createSegment_keeps (operation : me.operation = .createSegment) :
    d.Keeps me past (d.program me.place .createSegment) := by
  refine .bind (.bind (ask_safe (promise_fails fresh) trivial (fun _ _ other => by cases other)
    fun made past' waited lawful => ?_))
  have steady : (Deed.acted (.ask d.segment .createSegment) (.ok made) : Deed M R).Steady d.segment := trivial
  exact .pure (.pure (promise_of_nothing fresh (waited.step steady lawful) (by rw [operation]; nofun)))

theorem establish_keeps {snapshot : M.Snapshot} (operation : me.operation = .establish snapshot) :
    d.Keeps me past (d.program me.place (.establish snapshot)) := by
  have founds : (conduct M R).founds me.operation := by
    rw [operation]
    trivial
  refine .bind (establish_safe me.place founds ?_ fun cause t' went => promise_of_blame fresh went.spared.steady)
  intro past' entry t₁ t' before landed after
  exact .pure (promise_of_nothing fresh ((before.spared.steady.trans landed.steady).trans after.steady)
    (by rw [operation]; nofun))

theorem establishIfAbsent_keeps {snapshot : M.Snapshot} (operation : me.operation = .establishIfAbsent snapshot) :
    d.Keeps me past (d.program me.place (.establishIfAbsent snapshot)) := by
  have founds : (conduct M R).founds me.operation := by
    rw [operation]
    trivial
  refine .bind (establishIfAbsent_safe me.place founds (fun t' went => promise_of_end fresh went.steady) ?_ ?_
    fun cause t' went => promise_of_blame fresh went.steady)
  · intro past' entry t₁ t' before landed after
    exact .pure (promise_of_steady fresh ((before.steady.trans landed.steady).trans after.steady) trivial)
  · intro t₁ t₂ t' before _ caught _ after
    have went := (before.trans (caught.quiet d.segment)).trans after
    exact .pure (promise_of_steady fresh went.steady trivial)

theorem fetchUpdates_keeps (operation : me.operation = .fetchUpdates) :
    d.Keeps me past (d.program me.place .fetchUpdates) :=
  .bind (fetchUpdates_safe me.place (fun _ went => promise_of_end fresh went.steady)
    (fun _ _ went => promise_of_blame fresh went.steady)
    fun _ went => .pure (promise_of_nothing fresh went.steady (by rw [operation]; nofun)))

theorem getState_keeps : d.Keeps me past (d.program me.place .getState) :=
  .bind (.bind (getRevisionedState_safe me.place (fun _ went => promise_of_end fresh went.steady)
    (fun _ _ went => promise_of_blame fresh went.steady)
    fun copy _ went placed ahead => .pure (.pure (promise_of_steady fresh went.steady ⟨copy, rfl, placed, ahead⟩))))

theorem getRevisionedState_keeps : d.Keeps me past (d.program me.place .getRevisionedState) :=
  .bind (getRevisionedState_safe me.place (fun _ went => promise_of_end fresh went.steady)
    (fun _ _ went => promise_of_blame fresh went.steady)
    fun _ _ went placed ahead => .pure (promise_of_steady fresh went.steady ⟨placed, ahead⟩))

theorem bytesSinceCompaction_keeps : d.Keeps me past (d.program me.place .bytesSinceCompaction) := by
  refine .bind (.bind (freshStart_safe (promise_fails fresh) me.place fun offset t₁ looked _ => ?_))
  refine .bind (fetchLatest_safe ((promise_fails fresh).after looked) me.place fun t₂ looked' => ?_)
  have went := ((looked.trans looked').tends.quiet d.segment).steady
  exact .pure (.pure (promise_of_steady fresh went trivial))

theorem close_keeps (operation : me.operation = .close) : d.Keeps me past (d.program me.place .close) :=
  .bind (.touch (fun _ _ _ need => by cases need) (fun _ _ => trivial) fun _ _ waited _ _ lawful =>
    .pure (promise_of_nothing fresh (waited.step trivial lawful) (by rw [operation]; nofun)))

section Writes

variable (lawful : Lawful (d.law (conduct M R)) (past ++ [⟨me, .called⟩]))

include lawful

theorem updateState_keeps (operation : me.operation = .updateState) :
    d.Keeps me past (d.program me.place .updateState) := by
  have updates : me.operation.Updates := by
    rw [operation]
    trivial
  refine .bind (.bind (updateStateWithResult_safe me.place lawful (fun _ went => promise_of_end fresh went)
    (fun _ _ went => promise_of_blame fresh went) (proposes_of_updates updates) fun result t' went => ?_))
  exact .pure (.pure (promise_of_nothing fresh went (by rw [operation]; nofun)))

theorem updateStateWithResult_keeps (operation : me.operation = .updateStateWithResult) :
    d.Keeps me past (d.program me.place .updateStateWithResult) := by
  have updates : me.operation.Updates := by
    rw [operation]
    trivial
  exact .bind (updateStateWithResult_safe me.place lawful (fun _ went => promise_of_end fresh went)
    (fun _ _ went => promise_of_blame fresh went) (proposes_of_updates updates)
    fun _ _ went => .pure (promise_of_steady fresh went trivial))

theorem compact_keeps (operation : me.operation = .compact) : d.Keeps me past (d.program me.place .compact) := by
  have own : ∀ past state snapshot, past.Asked me (.acted (.summarize state) snapshot) →
      (conduct M R).proposes past me state (.init snapshot) := fun past state snapshot asked => ⟨operation, asked⟩
  refine .bind (compact_safe me.place lawful (fun _ went => promise_of_end fresh went)
    (fun _ _ went => promise_of_blame fresh went) operation own ?_ ?_)
  · exact fun t' compacted => .pure (promise_of_compacted fresh compacted)
  · intro cause expected target t₁ t₂ t' before moved after interrupted blame
    exact promise_of_interrupted (before.le.trans (moved.le.trans after.le)) interrupted blame

end Writes

omit fresh in
theorem raw_keeps (raw : me.operation.Raw) : d.Keeps (R := R) me past (d.program me.place me.operation) :=
  harmless_of_raw raw _ _ _ _ (fun _ => .inl raw) (fun _ _ => .inl raw) fun _ _ => .inl raw

theorem program_safe (lawful : Lawful (d.law (conduct M R)) (past ++ [⟨me, .called⟩])) :
    d.Keeps me past (d.program me.place me.operation) := by
  by_cases raw : me.operation.Raw
  · exact raw_keeps raw
  cases operation : me.operation with
  | createSegment => exact createSegment_keeps fresh operation
  | establish snapshot => exact establish_keeps fresh operation
  | establishIfAbsent snapshot => exact establishIfAbsent_keeps fresh operation
  | fetchUpdates => exact fetchUpdates_keeps fresh operation
  | getState => exact getState_keeps fresh
  | getRevisionedState => exact getRevisionedState_keeps fresh
  | updateState => exact updateState_keeps fresh lawful operation
  | updateStateWithResult => exact updateStateWithResult_keeps fresh lawful operation
  | compact => exact compact_keeps fresh lawful operation
  | bytesSinceCompaction => exact bytesSinceCompaction_keeps fresh
  | close => exact close_keeps fresh operation
  | writeRecord | writeBytes | compareAndSetMark | truncateTo =>
    rw [operation] at raw
    exact absurd trivial raw

end Promises

variable (d R) in
abbrev Reachable (s : System M R (Operation M) (Result M R)) : Prop := System.Reachable d.program s

variable {s s' : System M R (Operation M) (Result M R)}

theorem secure_of_steps (secure : s.Secure (d.law (conduct M R)) d.Promise)
    (steps : s.Steps d.program s') : s'.Secure (d.law (conduct M R)) d.Promise :=
  secure.steps (fun _ _ lawful fresh => (program_safe fresh lawful).run) steps

/-- Only calls of replicas have been made. -/
def Polite (s : System M R (Operation M) (Result M R)) : Prop :=
  ∀ id call, s.calls id = some call → ¬call.caller.operation.Raw

theorem Polite.clean (polite : Polite s) (secure : s.Secure (d.law (conduct M R)) d.Promise) :
    Clean (conduct M R) s.trace := by
  intro e member
  obtain ⟨rest, here⟩ := secure.known e member
  exact polite _ _ here

theorem polite_of_all (reachable : d.Reachable R s)
    (checked : (s.trace.all
      fun e => (s.calls e.caller.call).all fun call => decide ¬call.caller.operation.Raw) = true) :
    Polite s := fun _ _ here => of_decide_eq_true (System.forall_calls reachable _ checked here)

theorem secure_of_reachable (reachable : d.Reachable R s) : s.Secure (d.law (conduct M R)) d.Promise :=
  secure_of_steps .initial reachable

end Deployment

@[reducible] def Model.bytes : Model where
  State := Bytes
  Update := Bytes
  Snapshot := Bytes
  apply update state _ := state ++ update
  create snapshot _ _ := snapshot

namespace Deployment

def ofBytes : Deployment Model.bytes where
  segment := ⟨"scope", "stream", 0⟩
  updates := Codec.raw
  snapshots := Codec.raw
  readBuffer _ := 64
  retry _ := .unbounded

theorem ofBytes_sound : ofBytes.Sound :=
  ⟨Codec.raw_roundTrips, Codec.raw_roundTrips, ⟨fun _ _ _ _ _ => rfl, fun _ _ _ _ _ => rfl⟩⟩

def playBytes (byte : UInt8) (schedule : List (Move (Operation Model.bytes))) :
    System Model.bytes Unit (Operation Model.bytes) (Result Model.bytes Unit) :=
  (System.Stage.initial.play ofBytes.program (fun _ => ([[byte]], ())) id schedule).system

theorem reachable_playBytes (byte : UInt8) (schedule : List (Move (Operation Model.bytes))) :
    ofBytes.Reachable Unit (playBytes byte schedule) :=
  (System.Stage.fair_initial.play schedule).steps

end Deployment

end LogReplica
