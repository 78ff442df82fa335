import LogReplica.Proofs.Concurrency.Course
import LogReplica.Proofs.Replica.Confinement
import LogReplica.Proofs.Replica.Runs

namespace LogReplica

variable {M : Model} {R O : Type}

def Deed.proposal? : Deed M R → Option (M.State × List M.Update × R)
  | .acted (.generate state) (batch, value) => some (state, batch, value)
  | _ => none

structure Account (M : Model) (R : Type) where
  proposals : List (M.State × List M.Update × R)
  landings : List Entry
  conflicts : Nat
  written : Nat

/-- What a call has done so far at a segment. -/
def Trace.account (segment : SegmentId) (me : Caller O) (t : Trace M R O) : Account M R where
  proposals := t.own me Deed.proposal?
  landings := t.own me fun deed => (⟨me, deed⟩ : Event M R O).landed? segment
  conflicts := (t.recorded me).conflicts
  written := (t.recorded me).updatesWritten

def Action.Free (action : Action M R) : Prop := action.OfReading ∨ ∃ delay, action = .touch (.sleep delay)

namespace Trace

variable {segment : SegmentId} {me : Caller O} {t t' : Trace M R O}

theorem account_of_fresh (fresh : ∀ e ∈ t, e.caller.call ≠ me.call) :
    Trace.account segment me (t ++ [⟨me, .called⟩]) = ⟨[], [], 0, 0⟩ := by
  have none : ∀ {β : Type} (f : Deed M R → Option β), t.own me f = [] := fun f =>
    List.filterMap_eq_nil_iff.mpr fun e member => if_neg (fresh e member)
  simp only [account, own_concat, recorded, none]
  rfl

variable (segment me t)

theorem account_generate (state : M.State) (batch : List M.Update) (value : R) :
    Trace.account segment me (t ++ [⟨me, .acted (.generate state) (batch, value)⟩]) =
      { t.account segment me with proposals := t.own me Deed.proposal? ++ [(state, batch, value)] } := by
  simp [account, own_concat, recorded_concat, Deed.proposal?, Deed.tally?, Event.landed?]

theorem account_append (expected : Option Nat) (data : Bytes) (offset endOffset : Nat) :
    Trace.account segment me
        (t ++ [⟨me, .acted (.ask segment (.append expected data)) (.ok (.appended offset endOffset))⟩]) =
      { t.account segment me with landings := (t.account segment me).landings ++ [⟨offset, endOffset, data⟩] } := by
  simp [account, own_concat, recorded_concat, Deed.proposal?, Deed.tally?, Event.landed?]

theorem account_unlanded {deed : Deed M R} {expected : Option Nat} {data : Bytes}
    {answer : Reply (.append expected data)} (outcome : Outcome (.ask segment (.append expected data)) answer deed)
    (other : ∀ offset endOffset, answer ≠ .ok (.appended offset endOffset)) :
    Trace.account segment me (t ++ [⟨me, deed⟩]) = t.account segment me := by
  cases outcome with
  | failed => simp [account, own_concat, recorded_concat, Deed.proposal?, Deed.tally?, Event.landed?]
  | acted =>
    rcases answer with cause | ⟨offset, endOffset⟩ | tail
    · simp [account, own_concat, recorded_concat, Deed.proposal?, Deed.tally?, Event.landed?]
    · exact absurd rfl (other offset endOffset)
    · simp [account, own_concat, recorded_concat, Deed.proposal?, Deed.tally?, Event.landed?]

theorem account_conflict : Trace.account segment me (t ++ [⟨me, .acted (.touch (.tally .conflict)) ()⟩]) =
    { t.account segment me with conflicts := (t.account segment me).conflicts + 1 } := by
  simp [account, own_concat, recorded_concat, Deed.proposal?, Deed.tally?, Event.landed?, Stats.count]

theorem account_written : Trace.account segment me (t ++ [⟨me, .acted (.touch (.tally .written)) ()⟩]) =
    { t.account segment me with written := (t.account segment me).written + 1 } := by
  simp [account, own_concat, recorded_concat, Deed.proposal?, Deed.tally?, Event.landed?, Stats.count]

end Trace

theorem Deed.silent_of_free {segment : SegmentId} {me : Caller O} {deed : Deed M R} (free : deed.Within Action.Free) :
    deed.proposal? = none ∧ (⟨me, deed⟩ : Event M R O).landed? segment = none ∧ ∀ tally, deed.tally? = some tally →
      ∀ stats : Stats, (stats.count tally).conflicts = stats.conflicts ∧
        (stats.count tally).updatesWritten = stats.updatesWritten := by
  cases deed with
  | called | gaveUp => exact free.elim
  | failed => exact ⟨rfl, rfl, nofun⟩
  | acted action answer =>
    cases action with
    | ask named request =>
      have passive : request.Passive := (free.resolve_right nofun).resolve_right id
      cases request <;> first | exact passive.elim | exact ⟨rfl, rfl, nofun⟩
    | generate | summarize => exact ((free.resolve_right nofun).elim id id).elim
    | abort => exact nomatch answer
    | touch x =>
      cases x with
      | tally tally =>
        have counts := (free.resolve_right nofun).resolve_right id
        refine ⟨rfl, rfl, ?_⟩
        rintro _ ⟨⟩ stats
        cases tally <;> first | exact counts.elim | exact ⟨rfl, rfl⟩
      | _ => exact ⟨rfl, rfl, nofun⟩

theorem Passed.account_eq {me : Caller O} {t t' : Trace M R O} (passed : Passed me (Deed.Within Action.Free) t t')
    (segment : SegmentId) : t'.account segment me = t.account segment me := by
  have silent := fun (deed : Deed M R) => @Deed.silent_of_free M R O segment me deed
  simp only [Trace.account]
  rw [passed.own_eq fun deed free => (silent deed free).1, passed.own_eq fun deed free => (silent deed free).2.1,
    passed.counted Stats.conflicts fun deed free tally counts stats => ((silent deed free).2.2 tally counts stats).1,
    passed.counted Stats.updatesWritten fun deed free tally counts stats =>
      ((silent deed free).2.2 tally counts stats).2]

variable {me : Caller O} {t : Trace M R O}

variable (me) in
abbrev Attempt.Accounts {α : Type} (ok : α → Trace M R O → Prop) (err : CoreError → Trace M R O → Prop)
    (x : Attempt M R α) (t : Trace M R O) : Prop := x.Yields (fun _ => True) me (fun t' => ⟨me, .gaveUp⟩ ∈ t') ok err t

variable {err : CoreError → Trace M R O → Prop}

theorem gaveUp_mem {past : Trace M R O} : (⟨me, .gaveUp⟩ : Event M R O) ∈ past ++ [⟨me, .gaveUp⟩] :=
  List.mem_append_right _ (List.mem_singleton_self _)

theorem Procedure.Confined.accounts {α : Type} {p : Procedure M R α} {holds : α → Prop} {post : α → Trace M R O → Prop}
    (segment : SegmentId) (confined : p.Confined Action.Free holds)
    (goes : ∀ a t', t'.account segment me = t.account segment me → holds a → post a t') :
    p.Yields (fun _ => True) me (fun t' => ⟨me, .gaveUp⟩ ∈ t') post t :=
  confined.yields (fun _ _ => gaveUp_mem) fun a t' passed => goes a t' (passed.account_eq segment)

theorem Attempt.Confined.accounts {α : Type} {x : Attempt M R α} {errs : CoreError → Prop} {ok : α → Trace M R O → Prop}
    (segment : SegmentId) (confined : x.Confined Action.Free errs)
    (goes : ∀ a t', t'.account segment me = t.account segment me → ok a t')
    (failed : ∀ cause t', t'.account segment me = t.account segment me → errs cause → err cause t') :
    x.Accounts me ok err t :=
  confined.yields (fun _ _ => gaveUp_mem) (fun a t' passed => goes a t' (passed.account_eq segment))
    fun cause t' passed => failed cause t' (passed.account_eq segment)

theorem Client.writeConditionally_accounts {T : Type} {client : Client T} {latest : Revision} {value : T}
    {ok : Option Revision → Trace M R O → Prop}
    (landed : ∀ revision entry t', t'.account client.segment me =
      { t.account client.segment me with landings := (t.account client.segment me).landings ++ [entry] } →
      client.codec.encode value = .ok entry.data → ok (some revision) t')
    (conflict : ∀ t', t'.account client.segment me = t.account client.segment me → ok none t')
    (failed : ∀ cause t', t'.account client.segment me = t.account client.segment me → cause.OfAttempt → err cause t') :
    (client.writeConditionally latest value).Accounts me ok err t := by
  have free : ∀ {α : Type} {x : Attempt M R α}, x.Inquiring → x.Confined Action.Free CoreError.OfAttempt :=
    fun inquiring => inquiring.mono (fun _ inquires => .inl (.inl inquires.reads)) fun _ => id
  unfold writeConditionally
  refine .bind ((free ensureOpen_confined).accounts client.segment (fun _ t₁ same => ?_) failed)
  refine .bind ((free (client.checkSegment_confined latest)).accounts client.segment
    (fun _ t₂ same' => ?_) fun cause t₂ same' =>
    failed cause t₂ (same'.trans same))
  have same := same'.trans same
  unfold encode
  cases encoded : client.codec.encode value with
  | error cause => exact .bind (.throw (failed _ t₂ same trivial))
  | ok bytes =>
    refine .bind (.pure (.bind (.ask (fun answer past idled _ => ?_) fun cause deed past idled outcome _ => ?_)))
    · have before : past.account client.segment me = t.account client.segment me :=
        (idled.of_idled.account_eq client.segment).trans same
      cases answer with
      | appended offset endOffset =>
        have after := Trace.account_append client.segment me past (some latest.offset) bytes offset endOffset
        rw [before] at after
        dsimp only
        cases Revision.nextEvent? latest.event with
        | some event => exact .pure (landed _ _ _ after encoded)
        | none => exact .abort fun _ _ _ => gaveUp_mem
      | conflict tail =>
        exact .pure (conflict _ ((Trace.account_unlanded _ me past
          (.acted _ _) fun _ _ other => by cases other).trans before))
    · refine failed _ _ ((Trace.account_unlanded _ me past outcome fun _ _ other => by cases other).trans ?_)
        (CoreError.ofAttempt_ofSegment cause)
      exact (idled.of_idled.account_eq client.segment).trans same

theorem RetryPolicy.most_of_exhausted {p : RetryPolicy} {attempts : Nat} (may : attempts = 0 ∨ p.allows attempts = true)
    (last : ¬p.allows (attempts + 1) = true) : ∃ most, p.maxAttempts = some most ∧ attempts + 1 = max most 1 := by
  unfold allows at may last
  cases bound : p.maxAttempts with
  | none =>
    rw [bound] at last
    exact absurd rfl last
  | some most =>
    rw [bound, Option.all_some, decide_eq_true_eq] at may last
    exact ⟨most, rfl, by omega⟩

namespace Deployment

variable {d : Deployment M}

/-- What an update has done that has ended with this result. Its last batch has landed and none before; if it is
empty, or the update has failed, none has. -/
def Accounted (d : Deployment M) (me : Caller O) (t : Trace M R O) : Except CoreError (Result M R) → Prop
  | .ok answer => ∃ earlier state batch value landings, answer = .value value ∧
    t.account d.segment me = ⟨earlier ++ [(state, batch, value)], landings, earlier.length, landings.length⟩ ∧
    (batch = [] ∧ landings = [] ∨
      batch ≠ [] ∧ ∃ entry, landings = [entry] ∧ d.codec.encode (.updates batch) = .ok entry.data)
  | .error (.retriesExhausted attempts) => ∃ proposals, t.account d.segment me = ⟨proposals, [], attempts, 0⟩ ∧
    proposals.length = attempts ∧ ∃ most, (d.retry me.place).maxAttempts = some most ∧ attempts = max most 1
  | .error .taskFailed => ⟨me, .gaveUp⟩ ∈ t
  | .error _ => ∃ proposals conflicts, t.account d.segment me = ⟨proposals, [], conflicts, 0⟩ ∧
    (proposals.length = conflicts ∨ proposals.length = conflicts + 1)

theorem accounted_of_attempt {cause : CoreError} (attempt : cause.OfAttempt)
    (account : ∃ proposals conflicts, t.account d.segment me = ⟨proposals, [], conflicts, 0⟩ ∧
      (proposals.length = conflicts ∨ proposals.length = conflicts + 1)) :
    d.Accounted me t (.error cause) := by
  cases cause <;> first | exact attempt.elim | exact account

theorem propose_accounts {state : M.State} {proposals : List (M.State × List M.Update × R)} {attempts : Nat}
    (before : t.account d.segment me = ⟨proposals, [], attempts, 0⟩) {post : Option M.Record × R → Trace M R O → Prop}
    (empty : ∀ value t', t'.account d.segment me = ⟨proposals ++ [(state, [], value)], [], attempts, 0⟩ →
      post (none, value) t')
    (proposed : ∀ batch value t', batch ≠ [] →
      t'.account d.segment me = ⟨proposals ++ [(state, batch, value)], [], attempts, 0⟩ →
      post (some (.updates batch), value) t') :
    (do
      let (updates, result) ← Procedure.perform (.generate state)
      pure (if updates.isEmpty then none else some (.updates updates), result) : Procedure M R _).Yields
        (fun _ => True) me
        (fun t' => ⟨me, .gaveUp⟩ ∈ t') post t := by
  refine Procedure.Yields.bind (.perform (fun _ _ other => by cases other) (fun _ _ _ _ => gaveUp_mem) ?_)
  rintro ⟨batch, value⟩ past idled _
  have waited := (idled.of_idled.account_eq d.segment).trans before
  have after := Trace.account_generate d.segment me past state batch value
  rw [show past.own me Deed.proposal? = proposals from congrArg Account.proposals waited, waited] at after
  cases batch with
  | nil => exact empty value _ after
  | cons update rest => exact proposed (update :: rest) value _ (List.cons_ne_nil _ _) after

theorem writeLoop_accounts (place : Nat) {left attempts : Nat} {proposals : List (M.State × List M.Update × R)}
    (before : t.account d.segment me = ⟨proposals, [], attempts, 0⟩) (made : proposals.length = attempts)
    (may : attempts = 0 ∨ (d.retry place).allows attempts = true) {ok : WriteOutcome R → Trace M R O → Prop}
    (settled : ∀ outcome earlier state batch landings t',
      t'.account d.segment me = ⟨earlier ++ [(state, batch, outcome.result)], landings, earlier.length, 0⟩ →
      (batch = [] ∧ landings = [] ∧ outcome.written = none ∨ batch ≠ [] ∧ outcome.written.isSome = true ∧
        ∃ entry, landings = [entry] ∧ d.codec.encode (.updates batch) = .ok entry.data) → ok outcome t')
    (exhausted : ∀ proposals t', t'.account d.segment me = ⟨proposals, [], proposals.length, 0⟩ →
      (∃ most, (d.retry place).maxAttempts = some most ∧ proposals.length = max most 1) →
      err (.retriesExhausted proposals.length) t')
    (failed : ∀ cause proposals conflicts t', cause.OfAttempt →
      t'.account d.segment me = ⟨proposals, [], conflicts, 0⟩ →
      (proposals.length = conflicts ∨ proposals.length = conflicts + 1) → err cause t') :
    Attempt.Accounts me ok err ((d.replica place).writeLoop (fun state => do
      let (updates, result) ← Procedure.perform (.generate state)
      pure (if updates.isEmpty then none else some (.updates updates), result)) left attempts) t := by
  -- Between two attempts as many proposals were made as conflicts counted, and nothing has landed.
  induction left generalizing t attempts proposals with
  | zero => exact .abort fun _ _ _ => gaveUp_mem
  | succ left ih =>
    unfold Replica.writeLoop
    refine .bind (.lift (((d.replica place).pause_confined attempts (.inl (.inl trivial)) fun _ => .inr
      ⟨_, rfl⟩).accounts d.segment fun _ t₁ same _ => ?_))
    refine .bind (((d.replica place).getRevisionedState_confined.mono (fun _ => .inl) fun _ => id).accounts d.segment
      (fun snapshot t₂ same' => ?_) fun cause t₂ same' attempt =>
        failed cause proposals attempts t₂ attempt ((same'.trans same).trans before) (.inl made))
    have before := (same'.trans same).trans before
    refine .bind (.lift (propose_accounts before (fun value t₃ after => ?_) fun batch value t₃ nonempty after => ?_))
    · exact .pure (settled ⟨value, none⟩ proposals snapshot.state [] [] t₃ (made ▸ after) (.inl ⟨rfl, rfl, rfl⟩))
    · have count : (proposals ++ [(snapshot.state, batch, value)]).length = attempts + 1 := by simp [made]
      refine .bind (Client.writeConditionally_accounts (fun revision entry t₄ landed encoded => ?_) (fun t₄ same => ?_)
        fun cause t₄ same attempt => failed cause _ attempts t₄ attempt (same.trans after) (.inr count))
      · refine .bind (.lift ((((d.replica place).applyWritten_confined _ _ _).mono
          (fun _ => .inl) fun _ => id).accounts d.segment
          fun _ t₅ same _ => .pure ?_))
        refine settled _ proposals snapshot.state batch [entry] t₅ ?_ (.inr ⟨nonempty, rfl, entry, rfl, encoded⟩)
        rw [same, made]
        exact landed.trans (by rw [show (d.replica place).client.segment = d.segment from rfl, after]; rfl)
      · refine .bind (.touch (x := .tally .conflict) fun _ past idled _ => ?_)
        have waited := (idled.of_idled.account_eq d.segment).trans (same.trans after)
        have tallied := Trace.account_conflict d.segment me past
        rw [waited] at tallied
        split
        · rename_i again
          exact ih tallied count (.inr again)
        · rename_i last
          refine .throw (count ▸ exhausted _ _ (count.symm ▸ tallied) ?_)
          rw [count]
          exact RetryPolicy.most_of_exhausted may last

theorem updateStateWithResult_accounts (place : Nat) (here : place = me.place)
    (before : t.account d.segment me = ⟨[], [], 0, 0⟩)
    {ok : R → Trace M R O → Prop} (updated : ∀ value t', d.Accounted me t' (.ok (.value value)) → ok value t')
    (failed : ∀ cause t', d.Accounted me t' (.error cause) → err cause t') :
    Attempt.Accounts me ok err (d.replica place).updateStateWithResult t := by
  unfold Replica.updateStateWithResult Replica.updateBy
  refine .bind (writeLoop_accounts place before rfl (.inl rfl) ?_ ?_ ?_)
  · intro outcome earlier state batch landings t₁ account cases
    rcases cases with ⟨rfl, rfl, unwritten⟩ | ⟨nonempty, written, entry, rfl, encoded⟩
    · rw [unwritten]
      exact .pure (updated _ t₁ ⟨earlier, state, [], outcome.result, [], rfl, account, .inl ⟨rfl, rfl⟩⟩)
    · rw [written]
      refine .bind (.touch (x := .tally .written) fun _ past idled _ => ?_)
      have waited := (idled.of_idled.account_eq d.segment).trans account
      have tallied := Trace.account_written d.segment me past
      rw [waited] at tallied
      exact .pure (updated _ _ ⟨earlier, state, batch, outcome.result, [entry], rfl, tallied,
        .inr ⟨nonempty, entry, rfl, encoded⟩⟩)
  · intro proposals t₁ account most
    exact failed _ t₁ ⟨proposals, account, rfl, here ▸ most⟩
  · exact fun cause proposals conflicts t₁ attempt account count =>
      failed cause t₁ (accounted_of_attempt attempt ⟨proposals, conflicts, account, count⟩)

theorem Accounted.mono {t' : Trace M R O} {result : Except CoreError (Result M R)} (accounted : d.Accounted me t result)
    (idled : Idled me t t') : d.Accounted me t' result := by
  have same : t'.account d.segment me = t.account d.segment me := idled.of_idled.account_eq d.segment
  cases result with
  | ok answer => simpa only [Accounted, same] using accounted
  | error cause =>
    cases cause with
    | taskFailed => exact idled.le.subset accounted
    | _ => simpa only [Accounted, same] using accounted

variable {s : System M R (Operation M) (Result M R)} {writer : Caller (Operation M)}

/-- The result of an update says how often it has asked its function, which batch of that has landed as its only
record, and how many conflicts it has counted. No error hides a batch that has landed. -/
theorem updates_accounted (reachable : d.Reachable R s) (updates : writer.operation = .updateStateWithResult)
    {result : Except CoreError (Result M R)} (returned : s.Returned writer result) :
    d.Accounted writer s.trace result := by
  obtain ⟨t, idled, accounted⟩ :=
    System.yielded_of_reachable (fun _ => True) (fun result t => d.Accounted writer t result)
    reachable returned (fun _ _ => trivial) trivial fun past fresh _ => by
      rw [updates]
      refine Attempt.Yields.run
        (.bind (updateStateWithResult_accounts writer.place rfl (Trace.account_of_fresh fresh) ?_ ?_))
      · exact fun value t' accounted => .pure accounted
      · exact fun cause t' accounted => accounted
  exact accounted.mono idled

/-- An update that is overtaken by another one before it writes, and tries again. -/
def outpaced : List (Move (Operation Model.bytes)) := List.flatten [
  Move.run ⟨0, 0, .createSegment⟩ 1,
  Move.run ⟨1, 0, .establish [1]⟩ 12,
  Move.run ⟨2, 0, .updateStateWithResult⟩ 8,
  Move.run ⟨3, 1, .updateStateWithResult⟩ 40,
  Move.steps 2 40]

def slower : Caller (Operation Model.bytes) := ⟨2, 0, .updateStateWithResult⟩

def settled (place : Nat) : Call Model.bytes Unit (Operation Model.bytes) (Result Model.bytes Unit) → Bool
  | ⟨⟨_, here, .updateStateWithResult⟩, .done (.ok (.value ()))⟩ => decide (here = place)
  | _ => false

theorem outpaced_accounted : ofBytes.Reachable Unit (playBytes 2 outpaced) ∧
    (playBytes 2 outpaced).Returned slower (.ok (.value ())) ∧
    ofBytes.Accounted slower (playBytes 2 outpaced).trace (.ok (.value ())) ∧
    ((playBytes 2 outpaced).trace.account ofBytes.segment slower).conflicts = 1 := by
  have reachable := reachable_playBytes 2 outpaced
  have returned : (playBytes 2 outpaced).Returned slower (.ok (.value ())) := by
    refine System.returned_of_any (reachable_playBytes 2 _) (settled 0) (fun call checked => ?_) (by decide +kernel)
    unfold settled at checked
    split at checked
    · exact ⟨of_decide_eq_true checked, rfl, rfl⟩
    · cases checked
  exact ⟨reachable, returned, updates_accounted reachable rfl returned, by decide +kernel⟩

end Deployment

end LogReplica
