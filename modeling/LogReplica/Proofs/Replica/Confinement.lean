import LogReplica.Proofs.Concurrency.Yield
import LogReplica.Replica

namespace LogReplica

variable {M : Model} {R T : Type}

def Action.Asks : Action M R → Prop
  | .ask _ request => request.Passive
  | .touch .isClosed | .abort => True
  | _ => False

def Action.Inquires : Action M R → Prop
  | .ask _ request => request.Passive
  | .touch .isClosed | .touch (.tally (.replayed _)) | .abort => True
  | _ => False

def Action.Reads : Action M R → Prop
  | .ask _ request => request.Passive
  | .touch .isClosed | .touch .cached | .touch (.remember _) | .touch (.tally (.replayed _)) | .touch (.tally .recovery)
  | .abort => True
  | _ => False

def Action.Locks : Action M R → Prop
  | .touch .lockCache | .touch .unlockCache => True
  | _ => False

theorem Action.Asks.inquires {action : Action M R} (asks : action.Asks) : action.Inquires := by
  cases action with
  | ask | abort => exact asks
  | generate | summarize => exact asks.elim
  | touch t => cases t <;> first | exact asks.elim | trivial

theorem Action.Inquires.reads {action : Action M R} (inquires : action.Inquires) : action.Reads := by
  cases action with
  | ask | abort => exact inquires
  | generate | summarize => exact inquires.elim
  | touch t =>
    cases t with
    | isClosed => trivial
    | tally tally => cases tally <;> trivial
    | _ => exact inquires.elim

theorem Action.Asks.reads {action : Action M R} (asks : action.Asks) : action.Reads := asks.inquires.reads

def Action.OfReading (action : Action M R) : Prop := action.Reads ∨ action.Locks

def CoreError.OfAttempt : CoreError → Prop
  | .retriesExhausted _ | .taskFailed => False
  | _ => True

theorem CoreError.ofAttempt_ofSegment (cause : SegmentError) : (CoreError.ofSegment cause).OfAttempt := by
  cases cause <;> trivial

/-- A call, or a part of one, that does nothing but read. -/
abbrev Attempt.Reading {α : Type} (x : Attempt M R α) : Prop := x.Confined Action.Reads CoreError.OfAttempt

abbrev Attempt.Inquiring {α : Type} (x : Attempt M R α) : Prop := x.Confined Action.Inquires CoreError.OfAttempt

abbrev Attempt.Asking {α : Type} (x : Attempt M R α) : Prop := x.Confined Action.Asks CoreError.OfAttempt

theorem Attempt.Asking.inquiring {α : Type} {x : Attempt M R α} (asking : x.Asking) : x.Inquiring :=
  asking.mono (fun _ => Action.Asks.inquires) fun _ => id

theorem Attempt.Asking.within {α : Type} {x : Attempt M R α} {allowed : Action M R → Prop} (asking : x.Asking)
    (le : ∀ action, action.Asks → allowed action) : x.Confined allowed fun _ => True :=
  asking.mono le fun _ _ => trivial

theorem Attempt.Inquiring.reading {α : Type} {x : Attempt M R α} (inquiring : x.Inquiring) : x.Reading :=
  inquiring.mono (fun _ => Action.Inquires.reads) fun _ => id

theorem Attempt.Inquiring.within {α : Type} {x : Attempt M R α} {allowed : Action M R → Prop} (inquiring : x.Inquiring)
    (le : ∀ action, action.Inquires → allowed action) : x.Confined allowed fun _ => True :=
  inquiring.mono le fun _ _ => trivial

theorem Attempt.asking_ask {segment : SegmentId} {request : Request} (passive : request.Passive) :
    (Attempt.ask segment request : Attempt M R _).Asking := .ask passive CoreError.ofAttempt_ofSegment

theorem Attempt.inquiring_ask {segment : SegmentId} {request : Request} (passive : request.Passive) :
    (Attempt.ask segment request : Attempt M R _).Inquiring := (asking_ask passive).inquiring

namespace Client

variable (c : Client T)

theorem ensureOpen_asking : (ensureOpen : Attempt M R Unit).Asking := by
  refine .bind (.touch trivial) fun closed => ?_
  split
  · exact .throw trivial
  · exact .pure ()

theorem checkSegment_asking (revision : Revision) : (c.checkSegment revision : Attempt M R Unit).Asking := by
  unfold checkSegment
  split
  · exact .pure ()
  · exact .throw trivial

theorem checkSegment?_asking (revision : Option Revision) : (c.checkSegment? revision : Attempt M R _).Asking := by
  cases revision with
  | none => exact .pure ()
  | some revision => exact c.checkSegment_asking revision

theorem fetchOldest_asking : (c.fetchOldest : Attempt M R Revision).Asking :=
  .bind ensureOpen_asking fun _ => .bind (Attempt.asking_ask trivial) fun _ => .pure _

theorem fetchLatest_asking : (c.fetchLatest : Attempt M R Revision).Asking :=
  .bind ensureOpen_asking fun _ => .bind (Attempt.asking_ask trivial) fun _ => .pure _

theorem getMark_asking : (c.getMark : Attempt M R _).Asking := by
  refine .bind ensureOpen_asking fun _ => .bind (Attempt.asking_ask trivial) fun value => ?_
  match value with
  | none => exact .pure none
  | some (.ofNat offset) => exact .pure _
  | some (.negSucc n) => exact .throw trivial

theorem readFrom_asking (start : Revision) : (c.readFrom start : Attempt M R _).Asking := by
  refine .bind ensureOpen_asking fun _ => .bind (c.checkSegment_asking start) fun _ => ?_
  refine .bind (Attempt.asking_ask trivial) fun oldest => ?_
  have rest : (do
      let tail ← c.ask .tailOffset
      pure { client := c, nextOffset := start.offset, endOffset := tail, ordinal := start.event } :
      Attempt M R (Reader T)).Asking := .bind (Attempt.asking_ask trivial) fun _ => .pure _
  split
  · exact .throw trivial
  · exact rest

theorem ensureOpen_confined : (ensureOpen : Attempt M R Unit).Inquiring := ensureOpen_asking.inquiring

theorem checkSegment_confined (revision : Revision) : (c.checkSegment revision : Attempt M R Unit).Inquiring :=
  (c.checkSegment_asking revision).inquiring

theorem fetchOldest_confined : (c.fetchOldest : Attempt M R Revision).Inquiring := c.fetchOldest_asking.inquiring

theorem fetchLatest_confined : (c.fetchLatest : Attempt M R Revision).Inquiring := c.fetchLatest_asking.inquiring

theorem getMark_confined : (c.getMark : Attempt M R _).Inquiring := c.getMark_asking.inquiring

theorem readFrom_confined (start : Revision) : (c.readFrom start : Attempt M R _).Inquiring :=
  (c.readFrom_asking start).inquiring

end Client

namespace Reader

def Pulled.OfAttempt : Pulled T → Prop
  | failed cause => cause.OfAttempt
  | _ => True

def Ending.OfAttempt : Ending → Prop
  | failed cause => cause.OfAttempt
  | _ => True

theorem pop_ofAttempt (r : Reader T) : r.pop.1.OfAttempt := by
  unfold pop
  split
  · trivial
  · split
    · trivial
    · split <;> trivial

theorem refill_asking (r : Reader T) : (r.refill : Attempt M R _).Asking :=
  .bind (Attempt.asking_ask trivial) fun _ => .pure _

theorem next_asking (r : Reader T) :
    (r.next : Procedure M R _).Confined Action.Asks fun given => given.1.OfAttempt := by
  unfold next
  split
  · trivial
  · split
    · exact r.pop_ofAttempt
    · split
      · trivial
      · refine .bind (Procedure.Confined.mono r.refill_asking (fun _ => id) fun result fails => ?_)
        cases result with
        | ok r' => exact r'.pop_ofAttempt
        | error cause => exact fails cause rfl

theorem next_confined (r : Reader T) :
    (r.next : Procedure M R _).Confined Action.Inquires fun given => given.1.OfAttempt :=
  r.next_asking.mono (fun _ => Action.Asks.inquires) fun _ => id

theorem fold_asking {σ : Type} {f : σ → Revision × T → Except CoreError σ}
    (fails : ∀ s item cause, f s item = .error cause → cause.OfAttempt) (fuel : Nat) (r : Reader T) (s : σ) :
    (fold f fuel r s : Procedure M R _).Confined Action.Asks fun given => given.1.OfAttempt := by
  induction fuel generalizing r s with
  | zero => trivial
  | succ fuel ih =>
    refine .bind (r.next_asking.mono (fun _ => id) ?_)
    rintro ⟨given, r'⟩ attempt
    cases given with
    | finished | uncounted => trivial
    | failed cause => exact attempt
    | record revision value =>
      dsimp only
      cases same : f s (revision, value) with
      | ok s' => exact ih r' s'
      | error cause => exact fails s _ cause same

theorem fold_confined {σ : Type} {f : σ → Revision × T → Except CoreError σ}
    (fails : ∀ s item cause, f s item = .error cause → cause.OfAttempt) (fuel : Nat) (r : Reader T) (s : σ) :
    (fold f fuel r s : Procedure M R _).Confined Action.Inquires fun given => given.1.OfAttempt :=
  (fold_asking fails fuel r s).mono (fun _ => Action.Asks.inquires) fun _ => id

end Reader

namespace Replica

variable (r : Replica M)

theorem replayRecord_ofAttempt (p : Progress M) (item : Revision × M.Record) (cause : CoreError)
    (failed : r.replayRecord p item = .error cause) : cause.OfAttempt := by
  unfold replayRecord applyRecord Record.apply at failed
  split at failed
  · cases failed
  · split at failed <;> cases failed
    trivial

theorem replayRecords_confined (slot : Cached M) (records : Reader M.Record) :
    (r.replayRecords slot records : Procedure M R _).Confined Action.Inquires
      fun given => ∀ cause, given.1 = .error cause → cause.OfAttempt := by
  unfold replayRecords
  refine .bind (((Reader.fold_confined r.replayRecord_ofAttempt _ records _)).mono (fun _ => id) ?_)
  rintro ⟨ending, progress⟩ attempt
  have counts : ∀ result : Except CoreError Unit, (∀ cause, result = .error cause → cause.OfAttempt) →
      (do
        if progress.replayed ≠ 0 then Procedure.touch (.tally (.replayed progress.replayed))
        pure (result, progress.slot) : Procedure M R _).Confined Action.Inquires
          fun given => ∀ cause, given.1 = .error cause → cause.OfAttempt := by
    intro result fails
    split
    · exact .bind (.touch trivial fun _ => fails)
    · exact fails
  refine .bind ?_
  cases ending with
  | complete => exact counts _ nofun
  | failed cause =>
    refine counts _ ?_
    rintro _ ⟨⟩
    exact attempt
  | uncounted => exact .abort trivial

theorem freshStart_asking : (r.freshStart : Attempt M R _).Asking := by
  refine .bind (r.client.getMark_asking) fun mark => ?_
  cases mark with
  | none => exact r.client.fetchOldest_asking
  | some mark => exact .pure mark

theorem freshStart_confined : (r.freshStart : Attempt M R _).Inquiring := r.freshStart_asking.inquiring

theorem replayFrom_within {allowed : Action M R → Prop} (le : ∀ action, action.Inquires → allowed action)
    (remembers : ∀ slot, allowed (.touch (.remember slot))) (slot : Cached M) (start : Revision) :
    (r.replayFrom slot start : Attempt M R _).Confined allowed CoreError.OfAttempt := by
  refine .bind ((r.client.readFrom_confined start).mono le fun _ => id) fun records => ?_
  refine .bind_lift ((r.replayRecords_confined slot records).mono le ?_)
  rintro ⟨result, slot'⟩ fails
  refine .bind (.touch (remembers slot')) fun _ => ?_
  cases result with
  | ok done => exact .pure ()
  | error cause => exact .throw (fails cause rfl)

theorem replayFrom_confined (slot : Cached M) (start : Revision) :
    (r.replayFrom slot start : Attempt M R _).Reading :=
  r.replayFrom_within (fun _ => Action.Inquires.reads) (fun _ => trivial) slot start

theorem recover_confined {truncated : CoreError} (attempt : truncated.OfAttempt) :
    (r.recover truncated : Attempt M R _).Reading := by
  refine .bind r.freshStart_confined.reading fun restart => ?_
  refine .bind (r.client.readFrom_confined restart).reading fun records => ?_
  refine .bind_lift (records.next_confined.mono (fun _ => Action.Inquires.reads) ?_)
  rintro ⟨first, records⟩ fails
  cases first with
  | finished => exact .throw attempt
  | failed cause => exact .throw fails
  | uncounted => exact .abort trivial
  | record revision record =>
    cases record with
    | updates batch => exact .throw attempt
    | init snapshot =>
      refine .bind (.touch trivial) fun _ => ?_
      refine .bind_lift ((r.replayRecords_confined _ records).mono (fun _ => Action.Inquires.reads) ?_)
      rintro ⟨result, slot⟩ fails
      cases result with
      | ok done => exact .bind (.touch trivial) fun _ => .touch trivial
      | error cause => exact .throw (fails cause rfl)

def resume (slot : Cached M) (start : Revision) : Attempt M R Unit := do
  match ← ExceptT.lift (r.replayFrom slot start).run with
  | .ok () => pure ()
  | .error cause => if cause.isTruncated then r.recover cause else throw cause

theorem resume_confined (slot : Cached M) (start : Revision) : (r.resume slot start : Attempt M R _).Reading := by
  refine .bind_lift (Procedure.Confined.mono (r.replayFrom_confined slot start) (fun _ => id) fun result fails => ?_)
  cases result with
  | ok done => exact .pure ()
  | error cause =>
    dsimp only
    split
    · exact r.recover_confined (fails cause rfl)
    · exact .throw (fails cause rfl)

theorem catchUp_eq : (r.catchUp : Attempt M R Unit) = Attempt.touch .cached >>= fun slot =>
    slot.elim r.freshStart (fun copy => pure copy.revision) >>= fun start => r.resume slot start := by
  refine congrArg (Attempt.touch .cached >>= ·) (funext fun slot => ?_)
  cases slot <;> rfl

def approach : Attempt M R (Except CoreError Unit) := do
  let slot ← Attempt.touch .cached
  let start ← slot.elim r.freshStart fun copy => pure copy.revision
  ExceptT.lift (r.replayFrom slot start).run

theorem approach_within {allowed : Action M R → Prop} (le : ∀ action, action.Inquires → allowed action)
    (looks : allowed (.touch .cached)) (remembers : ∀ slot, allowed (.touch (.remember slot))) :
    (r.approach : Attempt M R _).Confined allowed CoreError.OfAttempt := by
  refine .bind (.touch looks) fun slot => .bind ?_ fun start => .lift (r.replayFrom_within le remembers slot start)
  cases slot with
  | some copy => exact .pure _
  | none => exact r.freshStart_confined.mono le fun _ => id

theorem catchUp_eq_approach : (r.catchUp : Attempt M R Unit) = r.approach >>= fun result =>
    match result with
    | .ok () => pure ()
    | .error cause => if cause.isTruncated then r.recover cause else throw cause := by
  simp only [catchUp_eq, approach, bind_assoc]
  rfl

def rebuild (truncated : CoreError) (restart : Revision) : Attempt M R Unit := do
  let records ← r.client.readFrom restart
  let (first, records) ← ExceptT.lift records.next
  match first with
  | .failed cause => throw cause
  | .uncounted => Attempt.abort
  | .finished => throw truncated
  | .record _ (.updates _) => throw truncated
  | .record revision (.init snapshot) => do
    let state := M.create snapshot r.name revision
    Attempt.touch (.tally (.replayed 1))
    let (result, slot) ← ExceptT.lift (r.replayRecords (some ⟨state, revision⟩) records)
    match result with
    | .error cause => throw cause
    | .ok () => do
      Attempt.touch (.tally .recovery)
      Attempt.touch (.remember slot)

theorem catchUp_confined : (r.catchUp : Attempt M R _).Reading := by
  rw [catchUp_eq]
  refine .bind (.touch trivial) fun slot => .bind ?_ fun start => r.resume_confined slot start
  cases slot with
  | some copy => exact .pure _
  | none => exact r.freshStart_confined.reading

theorem fetch_confined : (do
      r.catchUp
      match ← Attempt.touch .cached with
      | some current => pure current
      | none => throw (.notInitialized r.segment) : Attempt M R (Revisioned M.State)).Reading := by
  refine .bind r.catchUp_confined fun _ => .bind (.touch trivial) fun slot => ?_
  cases slot with
  | some copy => exact .pure copy
  | none => exact .throw trivial

theorem getRevisionedState_confined :
    (r.getRevisionedState : Attempt M R _).Confined Action.OfReading CoreError.OfAttempt :=
  .locked (.inr trivial) (.inr trivial) (r.fetch_confined.mono (fun _ => .inl) fun _ => id)

theorem pause_confined {allowed : Action M R → Prop} (attempt : Nat) (ends : allowed .abort)
    (sleeps : ∀ delay, allowed (.touch (.sleep delay))) :
    (r.pause attempt : Procedure M R Unit).Confined allowed fun _ => True := by
  unfold pause
  split
  · exact .abort ends
  · split
    · trivial
    · exact .touch (sleeps _) fun _ => trivial

theorem applyWritten_confined (expected revision : Revision) (record : M.Record) :
    (r.applyWritten expected revision record : Procedure M R Unit).Confined Action.OfReading fun _ => True := by
  have caught : (r.catchUp : Attempt M R Unit).Confined Action.OfReading fun _ => True :=
    r.catchUp_confined.mono (fun _ => .inl) fun _ _ => trivial
  refine Procedure.Confined.bind (Procedure.Confined.mono
    (?_ : Attempt.Confined Action.OfReading (fun _ => True) (Attempt.locked _)) (fun _ => id) fun _ _ => trivial)
  refine .locked (.inr trivial) (.inr trivial) (.bind (.touch (.inl trivial)) fun slot => ?_)
  cases slot with
  | none => exact caught
  | some current =>
    dsimp only
    split
    · split
      · exact .touch (.inl trivial)
      · exact .throw trivial
    · exact caught

end Replica

inductive Action.OfWriting (segment : SegmentId) (codec : Codec T) (kind : T → Prop) : Action M R → Prop
  | reads {action : Action M R} (reading : action.OfReading) : OfWriting segment codec kind action
  | appends (expected : Option Nat) {value : T} {data : Bytes} (fits : kind value)
    (encoded : codec.encode value = .ok data) : OfWriting segment codec kind (.ask segment (.append expected data))
  | swaps {expected new : Option Nat} (forward : ¬Client.regresses expected new = true) :
    OfWriting segment codec kind
      (.ask segment (.compareAndSetAttribute .mark (expected.map Int.ofNat) (new.map Int.ofNat)))
  | truncates (offset : Nat) : OfWriting segment codec kind (.ask segment (.truncateBefore offset))
  | tallies (tally : Tally) : OfWriting segment codec kind (.touch (.tally tally))
  | sleeps (delay : Duration) : OfWriting segment codec kind (.touch (.sleep delay))

theorem Event.exists_of_landed {O : Type} {segment : SegmentId} {codec : Codec T} {kind : T → Prop} {e : Event M R O}
    {entry : Entry}
    (writing : ∀ action answer, e.deed = .acted action answer → Action.OfWriting segment codec kind action)
    (landed : e.landed? segment = some entry) : ∃ value, kind value ∧ codec.encode value = .ok entry.data := by
  unfold Event.landed? at landed
  split at landed
  · rename_i named expected data offset endOffset deed
    split at landed
    · cases landed
      cases writing _ _ deed with
      | reads reading => exact (reading.elim id id).elim
      | appends _ fits encoded => exact ⟨_, fits, encoded⟩
    · cases landed
  · cases landed

abbrev Attempt.Writing {α : Type} (c : Client T) (kind : T → Prop) (x : Attempt M R α) : Prop :=
  x.Confined (Action.OfWriting c.segment c.codec kind) fun _ => True

theorem Attempt.Reading.writing {α : Type} {x : Attempt M R α} (reading : x.Reading) (c : Client T) (kind : T → Prop) :
    x.Writing c kind := reading.mono (fun _ reads => .reads (.inl reads)) fun _ _ => trivial

namespace Client

variable (c : Client T)

theorem checkSegment?_confined (revision : Option Revision) : (c.checkSegment? revision : Attempt M R _).Inquiring :=
  (c.checkSegment?_asking revision).inquiring

theorem markValue?_cases {α : Type} (position : Option Nat) (f : Option Int → Attempt M R α) :
    (markValue? position >>= f) = f (position.map Int.ofNat) ∨
      ∃ offset, (markValue? position >>= f) = throw (.attributeRange offset) := by
  cases position with
  | none => exact .inl rfl
  | some offset =>
    unfold markValue? markValue
    by_cases small : offset < 2 ^ 63
    · simp only [if_pos small]
      exact .inl rfl
    · simp only [if_neg small]
      exact .inr ⟨offset, rfl⟩

section Within

variable {allowed : Action M R → Prop} (le : ∀ action, action.Asks → allowed action)

include le

theorem writeConditionally_within (latest : Revision) {value : T}
    (appends : ∀ data, c.codec.encode value = .ok data → allowed (.ask c.segment (.append (some latest.offset) data))) :
    (c.writeConditionally latest value : Attempt M R _).Confined allowed fun _ => True := by
  unfold writeConditionally encode
  refine .bind (ensureOpen_asking.within le) fun _ => ?_
  refine .bind ((c.checkSegment_asking latest).within le) fun _ => ?_
  cases encoded : c.codec.encode value with
  | error cause =>
    show (MonadExcept.throw (.encoding cause) : Attempt M R _).Confined allowed fun _ => True
    exact .throw trivial
  | ok bytes =>
    simp only [pure_bind]
    refine .bind (.ask (appends bytes encoded) fun _ => trivial) fun outcome => ?_
    cases outcome with
    | conflict tail => exact .pure none
    | appended offset endOffset =>
      dsimp only
      cases Revision.nextEvent? latest.event with
      | some event => exact .pure _
      | none => exact .abort (le _ trivial)

theorem writeUnconditionally_within {value : T}
    (appends : ∀ data, c.codec.encode value = .ok data → allowed (.ask c.segment (.append none data))) :
    (c.writeUnconditionally value : Attempt M R _).Confined allowed fun _ => True := by
  unfold writeUnconditionally encode
  refine .bind (ensureOpen_asking.within le) fun _ => ?_
  cases encoded : c.codec.encode value with
  | error cause =>
    show (MonadExcept.throw (.encoding cause) : Attempt M R _).Confined allowed fun _ => True
    exact .throw trivial
  | ok bytes =>
    simp only [pure_bind]
    refine .bind (.ask (appends bytes encoded) fun _ => trivial) fun outcome => ?_
    cases outcome with
    | appended offset endOffset => exact .pure _
    | conflict tail => exact .throw trivial

theorem truncateTo_within (start : Revision) (cuts : allowed (.ask c.segment (.truncateBefore start.offset))) :
    (c.truncateTo start : Attempt M R _).Confined allowed fun _ => True :=
  .bind (ensureOpen_asking.within le) fun _ => .bind ((c.checkSegment_asking start).within le) fun _ =>
    .ask cuts fun _ => trivial

theorem compareAndSetMark_within (expected new : Option Revision)
    (swaps : ¬regresses (expected.map (·.offset)) (new.map (·.offset)) = true →
      allowed (.ask c.segment (.compareAndSetAttribute .mark ((expected.map (·.offset)).map Int.ofNat)
        ((new.map (·.offset)).map Int.ofNat)))) :
    (c.compareAndSetMark expected new : Attempt M R _).Confined allowed fun _ => True := by
  refine .bind (ensureOpen_asking.within le) fun _ => ?_
  refine .bind ((c.checkSegment?_asking expected).within le) fun _ => ?_
  refine .bind ((c.checkSegment?_asking new).within le) fun _ => ?_
  dsimp only
  split
  · exact .throw trivial
  · rename_i forward
    rcases markValue?_cases (expected.map (·.offset)) _ with same | ⟨offset, same⟩ <;> rw [same]
    · rcases markValue?_cases (new.map (·.offset)) _ with same | ⟨offset, same⟩ <;> rw [same]
      · exact .ask (swaps forward) fun _ => trivial
      · exact .throw trivial
    · exact .throw trivial

end Within

end Client

namespace Replica

variable (r : Replica M) {kind : M.Record → Prop}

section Within

variable {allowed : Action M R → Prop} (reading : ∀ action, action.OfReading → allowed action)

include reading

theorem writeInitial_within (latest : Revision) {snapshot : M.Snapshot}
    (appends : ∀ data, r.client.codec.encode (.init snapshot) = .ok data →
      allowed (.ask r.client.segment (.append (some latest.offset) data))) :
    (r.writeInitial latest snapshot : Attempt M R _).Confined allowed fun _ => True := by
  refine .bind (r.client.writeConditionally_within (fun _ asks => reading _ (.inl asks.reads)) latest appends)
    fun written => ?_
  cases written with
  | none => exact .pure false
  | some revision => exact .bind (.touch (reading _ (.inl trivial))) fun _ => .pure true

theorem establishIfAbsent_within {snapshot : M.Snapshot}
    (appends : ∀ position data, r.client.codec.encode (.init snapshot) = .ok data →
      allowed (.ask r.client.segment (.append (some position) data))) :
    (r.establishIfAbsent snapshot : Attempt M R _).Confined allowed fun _ => True := by
  have inquiring : ∀ {α : Type} {x : Attempt M R α}, x.Inquiring → x.Confined allowed fun _ => True :=
    fun inquiring => inquiring.within fun _ inquires => reading _ (.inl inquires.reads)
  refine .locked (reading _ (.inr trivial)) (reading _ (.inr trivial)) ?_
  refine .bind (inquiring r.client.fetchOldest_confined) fun oldest => ?_
  refine .bind (inquiring r.client.fetchLatest_confined) fun latest => ?_
  have rest : ∀ written : Bool, (if written then pure true else do
      r.catchUp
      pure false : Attempt M R Bool).Confined allowed fun _ => True := by
    intro written
    cases written with
    | true => exact .pure true
    | false =>
      exact .bind (r.catchUp_confined.mono (fun _ reads => reading _ (.inl reads)) fun _ _ => trivial) fun _ =>
        .pure false
  split
  · exact .bind (r.writeInitial_within reading oldest (appends _)) rest
  · exact rest false

end Within

theorem writeInitial_writing (latest : Revision) {snapshot : M.Snapshot} (fits : kind (.init snapshot)) :
    (r.writeInitial latest snapshot : Attempt M R _).Writing r.client kind :=
  r.writeInitial_within (fun _ => .reads) latest fun _ encoded => .appends _ fits encoded

theorem establish_writing {snapshot : M.Snapshot} (fits : kind (.init snapshot)) :
    (r.establish snapshot : Attempt M R _).Writing r.client kind := by
  refine .locked (.reads (.inr trivial)) (.reads (.inr trivial)) ?_
  refine .bind (r.client.fetchOldest_confined.reading.writing _ _) fun oldest => ?_
  refine .bind (r.client.fetchLatest_confined.reading.writing _ _) fun latest => ?_
  split
  · exact .throw trivial
  · refine .bind (r.writeInitial_writing latest fits) fun written => ?_
    cases written with
    | true => exact .pure ()
    | false => exact .throw trivial

theorem establishIfAbsent_writing {snapshot : M.Snapshot} (fits : kind (.init snapshot)) :
    (r.establishIfAbsent snapshot : Attempt M R _).Writing r.client kind :=
  r.establishIfAbsent_within (fun _ => .reads) fun _ _ encoded => .appends _ fits encoded

theorem advanceMark_within {allowed : Action M R → Prop} (le : ∀ action, action.Asks → allowed action)
    (target : Revision) (swaps : ∀ expected new, ¬Client.regresses expected new = true →
      allowed (.ask r.client.segment (.compareAndSetAttribute .mark (expected.map Int.ofNat) (new.map Int.ofNat))))
    (cuts : ∀ offset, allowed (.ask r.client.segment (.truncateBefore offset)))
    (tallies : allowed (.touch (.tally .truncation))) :
    (r.advanceMark target : Attempt M R Unit).Confined allowed fun _ => True := by
  refine .bind (r.client.getMark_asking.within le) fun old => ?_
  split
  · exact .pure ()
  · refine .bind (r.client.compareAndSetMark_within le old (some target) (swaps _ _)) fun swapped => ?_
    split
    · exact .bind (r.client.truncateTo_within le target (cuts _)) fun _ => .touch tallies
    · exact .pure ()

theorem advanceMark_writing (target : Revision) : (r.advanceMark target : Attempt M R Unit).Writing r.client kind :=
  r.advanceMark_within (fun _ asks => .reads (.inl asks.reads)) target (fun _ _ => .swaps) .truncates
    (.tallies _)

theorem writeLoop_within {β : Type} {allowed : Action M R → Prop}
    (reading : ∀ action, action.OfReading → allowed action)
    (appends : ∀ position {record data}, kind record → r.client.codec.encode record = .ok data →
      allowed (.ask r.client.segment (.append (some position) data)))
    (conflicts : allowed (.touch (.tally .conflict))) (sleeps : ∀ delay, allowed (.touch (.sleep delay)))
    {propose : M.State → Procedure M R (Option M.Record × β)}
    (proposed : ∀ state, (propose state).Confined allowed fun proposal =>
      ∀ record, proposal.1 = some record → kind record)
    (left attempts : Nat) : (r.writeLoop propose left attempts).Confined allowed fun _ => True := by
  have asking : ∀ action : Action M R, action.Asks → allowed action := fun _ asks => reading _ (.inl asks.reads)
  induction left generalizing attempts with
  | zero => exact .abort (reading _ (.inl trivial))
  | succ left ih =>
    refine .bind (.lift (r.pause_confined attempts (reading _ (.inl trivial)) sleeps)) fun _ => ?_
    refine .bind (r.getRevisionedState_confined.mono reading fun _ _ => trivial) fun snapshot => ?_
    refine .bind_lift ((proposed snapshot.state).mono (fun _ => id) ?_)
    rintro ⟨record, result⟩ fits
    cases record with
    | none => exact .pure _
    | some record =>
      refine .bind (r.client.writeConditionally_within asking snapshot.revision fun data encoded =>
        appends _ (fits record rfl) encoded) fun written => ?_
      cases written with
      | some revision =>
        exact .bind (.lift ((r.applyWritten_confined _ revision record).mono reading fun _ => id)) fun _ => .pure _
      | none =>
        refine .bind (.touch conflicts) fun _ => ?_
        split
        · exact ih _
        · exact .throw trivial

section Proposing

variable {β : Type} {allowed : Action M R → Prop}
  (le : ∀ action, Action.OfWriting r.client.segment r.client.codec kind action → allowed action)

include le

theorem writeLoop_confined {propose : M.State → Procedure M R (Option M.Record × β)}
    (proposed : ∀ state, (propose state).Confined allowed fun proposal =>
      ∀ record, proposal.1 = some record → kind record)
    (left attempts : Nat) : (r.writeLoop propose left attempts).Confined allowed fun _ => True :=
  r.writeLoop_within (fun _ reading => le _ (.reads reading))
    (fun position _ _ fits encoded => le _ (.appends (some position) fits encoded)) (le _ (.tallies _))
    (fun _ => le _ (.sleeps _)) proposed left attempts

theorem updateBy_confined {batch : M.State → Procedure M R (List M.Update × β)}
    (proposed : ∀ state, (batch state).Confined allowed fun proposal => kind (.updates proposal.1)) :
    (r.updateBy batch).Confined allowed fun _ => True := by
  refine .bind (r.writeLoop_confined le (fun state => ?_) _ _) fun outcome => ?_
  · refine .bind ((proposed state).mono (fun _ => id) fun proposal fits record same => ?_)
    split at same
    · cases same
    · cases same
      exact fits
  split
  · exact .bind (.touch (le _ (.tallies _))) fun _ => .pure _
  · exact .pure _

theorem compactBy_confined {summary : M.State → Procedure M R M.Snapshot}
    (proposed : ∀ state, (summary state).Confined allowed fun snapshot => kind (.init snapshot)) :
    (r.compactBy summary).Confined allowed fun _ => True := by
  refine .bind (r.writeLoop_confined le (fun state => ?_) _ _) fun outcome => ?_
  · refine .bind ((proposed state).mono (fun _ => id) fun snapshot fits record same => ?_)
    cases same
    exact fits
  split
  · exact .pure ()
  · exact .bind (.touch (le _ (.tallies _))) fun _ => (r.advanceMark_writing _).mono le fun _ => id

end Proposing

end Replica

end LogReplica
