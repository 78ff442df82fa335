import LogReplica.Proofs.Replica.Conduct

namespace LogReplica

variable {M : Model} {R O α : Type}

def Trace.CandidSince (me : Caller O) (start t : Trace M R O) : Prop :=
  ∀ past segment request cause, start <+: past → past ++ [⟨me, .failed segment request cause⟩] <+: t → ¬cause.Locates

namespace Trace

variable {me : Caller O} {start t : Trace M R O}

theorem Candid.since (candid : t.Candid) : CandidSince me start t :=
  fun past segment request cause _ le => candid ⟨me, .failed segment request cause⟩ (le.subset (by simp)) _ _ _ rfl

theorem CandidSince.of_le {past : Trace M R O} (candid : CandidSince me start t) (le : past <+: t) :
    CandidSince me start past :=
  fun early segment request cause since failed => candid early segment request cause since (failed.trans le)

theorem CandidSince.after {later : Trace M R O} (candid : CandidSince me start t) (le : start <+: later) :
    CandidSince me later t :=
  fun past segment request cause since => candid past segment request cause (le.trans since)

end Trace

/-- An error that no truncation led to, for all that the call has heard since `start`. -/
def CoreError.Untruncated (me : Caller O) (start t : Trace M R O) (cause : CoreError) : Prop :=
  cause.isTruncated = true → ¬Trace.CandidSince me start t

namespace CoreError.Untruncated

variable {me : Caller O} {start t past : Trace M R O}

theorem of_failed {segment : SegmentId} {request : Request} {cause : SegmentError} (since : start <+: past) :
    (CoreError.ofSegment cause).Untruncated me start
      (past ++ [(⟨me, .failed segment request cause⟩ : Event M R O)]) := by
  intro truncated candid
  cases cause with
  | truncated => exact candid past segment request _ since (List.prefix_refl _) trivial
  | _ => cases truncated

theorem of_eq {cause : CoreError} (other : cause.isTruncated = false) : cause.Untruncated me start t := by
  intro truncated
  rw [other] at truncated
  cases truncated

theorem since {cause : CoreError} (other : cause.Untruncated me past t) (le : start <+: past) :
    cause.Untruncated me start t := fun truncated candid => other truncated (candid.after le)

end CoreError.Untruncated

namespace Deployment

variable (d : Deployment M)

/-- A fresh reader may start here: at the mark, or at the oldest position. -/
def RestartAt (t : Trace M R O) (offset : Nat) : Prop := d.mark t = some (offset : Int) ∨ d.oldest t = offset

/-- Where a reader can be: at a boundary of the log, or where it was once told to start. -/
def Anchored (t : Trace M R O) (offset : Nat) : Prop :=
  (∃ before, before <+: d.log t ∧ ending 0 before = offset) ∨
    ∃ earlier, earlier <+: t ∧ d.mark earlier = some (offset : Int)

/-- Why a call that began at `t` may have failed by `t'`. -/
inductive Blame (ρ : Conduct M R O) (me : Caller O) (t t' : Trace M R O) : CoreError → Prop
  | closed (past : Trace M R O) (since : t <+: past)
    (by_ : past ++ [⟨me, .acted (.touch .isClosed) true⟩] <+: t') : Blame ρ me t t' .closed
  | failed (request : Request) (cause : SegmentError)
    (happened : (⟨me, .failed d.segment request cause⟩ : Event M R O) ∈ t') : Blame ρ me t t' (.ofSegment cause)
  | absent (past : Trace M R O) (since : t <+: past) (by_ : past <+: t')
    (none : (World.after past).store.get? d.segment = none) : Blame ρ me t t' (.service (.noSuchSegment d.segment))
  | truncated (offset oldest : Nat) (past : Trace M R O) (since : t <+: past) (by_ : past <+: t')
    (found : d.oldest past = oldest) (low : offset < oldest) : Blame ρ me t t' (.dataTruncated d.segment offset oldest)
  | misplaced (offset tail : Nat) (start past : Trace M R O) (early : start <+: past) (by_ : past <+: t')
    (marked : d.mark start = some (offset : Int)) (apart : Apart (d.log past) offset) :
    Blame ρ me t t' (.service (.invalidOffset d.segment offset tail))
  | tooLarge (size : Nat) : Blame ρ me t t' (.service (.entryTooLarge size))
  | undecodable (e : Entry) (member : e ∈ d.log t') (cause : CodecError)
    (undecoded : d.codec.decode e.data = .error cause) :
    Blame ρ me t t' (.encoding cause)
  | unencodable (record : M.Record) (cause : CodecError) (unencoded : d.codec.encode record = .error cause) :
    Blame ρ me t t' (.encoding cause)
  | orphan (revision : Revision) (e : Entry) (start : Trace M R O) (by_ : start <+: t')
    (restart : d.RestartAt start e.offset)
    (member : e ∈ d.log t') (other : ¬d.IsSnapshot e) : Blame ρ me t t' (.orphanUpdates revision)
  | negativeMark (value : Int) (past : Trace M R O) (by_ : past <+: t') (marked : d.mark past = some value)
    (negative : value < 0) : Blame ρ me t t' (.negativeMark value)
  | outOfRange (offset : Nat) (past : Trace M R O) (by_ : past <+: t') (large : 2 ^ 63 ≤ offset)
    (inside : offset ≤ ending 0 (d.log past)) : Blame ρ me t t' (.attributeRange offset)
  | notInitialized : Blame ρ me t t' (.notInitialized d.segment)
  | alreadyInitialized : Blame ρ me t t' (.alreadyInitialized d.segment)
  | exhausted (attempts : Nat) : Blame ρ me t t' (.retriesExhausted attempts)
  | taskFailed : Blame ρ me t t' .taskFailed
  /-- What operations on the segment itself are refused is their own affair. -/
  | raw (raw : ρ.raw me.operation) (cause : CoreError) : Blame ρ me t t' cause

variable {d} {ρ : Conduct M R O} {me : Caller O} {t t' t'' past : Trace M R O}

namespace Blame

variable {cause : CoreError}

theorem since (blame : d.Blame ρ me t' t'' cause) (le : t <+: t') : d.Blame ρ me t t'' cause := by
  cases blame with
  | closed past since by_ => exact .closed past (le.trans since) by_
  | absent past since by_ none => exact .absent past (le.trans since) by_ none
  | truncated offset oldest past since by_ found low =>
    exact .truncated offset oldest past (le.trans since) by_ found low
  | misplaced offset tail start past early by_ marked apart =>
    exact .misplaced offset tail start past early by_ marked apart
  | unencodable record cause unencoded => exact .unencodable record cause unencoded
  | _ => constructor <;> assumption

theorem later (blame : d.Blame ρ me t t' cause) (le : t' <+: t'') : d.Blame ρ me t t'' cause := by
  have log : d.log t' <+: d.log t'' := Trace.history_le _ le
  cases blame with
  | closed past since by_ => exact .closed past since (by_.trans le)
  | failed request cause happened => exact .failed request cause (le.subset happened)
  | absent past since by_ none => exact .absent past since (by_.trans le) none
  | truncated offset oldest past since by_ found low =>
    exact .truncated offset oldest past since (by_.trans le) found low
  | misplaced offset tail start past early by_ marked apart =>
    exact .misplaced offset tail start past early (by_.trans le) marked apart
  | undecodable e member cause undecoded => exact .undecodable e (log.subset member) cause undecoded
  | orphan revision e start by_ restart member other =>
    exact .orphan revision e start (by_.trans le) restart (log.subset member) other
  | negativeMark value past by_ marked negative => exact .negativeMark value past (by_.trans le) marked negative
  | outOfRange offset past by_ large inside => exact .outOfRange offset past (by_.trans le) large inside
  | unencodable record cause unencoded => exact .unencodable record cause unencoded
  | _ => constructor <;> assumption

end Blame

theorem refused_or_failed {request : Request} {cause : SegmentError} {deed : Deed M R}
    (outcome : Outcome (.ask d.segment request) (.error cause) deed)
    (lawful : Lawful (d.law ρ) (past ++ [⟨me, deed⟩])) :
    deed = .failed d.segment request cause ∨ (deed = .acted (.ask d.segment request) (.error cause) ∧
      Store.Logs.Refusal (World.after past).store d.segment (d.log past) request cause) := by
  cases outcome with
  | failed => exact .inl rfl
  | acted =>
    obtain ⟨before, fits, _⟩ := lawful.of_concat
    exact .inr ⟨rfl, (before.logs d.segment).refused fits.symm⟩

theorem quiet_of_error {request : Request} {cause : SegmentError} {deed : Deed M R}
    (outcome : Outcome (.ask d.segment request) (.error cause) deed) : deed.Quiet d.segment := by
  cases outcome with
  | failed => trivial
  | acted => cases request <;> trivial

theorem spares_of_error {request : Request} {cause : SegmentError} {deed : Deed M R}
    (outcome : Outcome (.ask d.segment request) (.error cause) deed) : deed.Spares d.segment := by
  refine ⟨quiet_of_error outcome, ?_⟩
  cases outcome <;> exact nofun

theorem law_of_passive {request : Request} (passive : request.Passive) :
    d.law ρ past me (.ask d.segment request) := by
  cases request with
  | append | compareAndSetAttribute | truncateBefore => exact passive.elim
  | createSegment | readAt | tailOffset | oldestOffset | getAttribute => exact ⟨rfl, trivial, .inr trivial⟩

variable (d ρ me) in
def Fails (err : CoreError → Trace M R O → Prop) (t : Trace M R O) : Prop :=
  ∀ cause t', Went (d.law ρ) me Deed.Looks t t' → d.Blame ρ me t t' cause → cause.Untruncated me t t' → err cause t'

variable (d ρ me) in
def Ends (crash : Trace M R O → Prop) (t : Trace M R O) : Prop :=
  ∀ t', Went (d.law ρ) me Deed.Looks t t' → crash (t' ++ [⟨me, .gaveUp⟩])

theorem Fails.after {err : CoreError → Trace M R O → Prop} (fails : d.Fails ρ me err t)
    (went : Went (d.law ρ) me Deed.Looks t t') : d.Fails ρ me err t' :=
  fun cause t'' later blame other => fails cause t'' (went.trans later) (blame.since went.le) (other.since went.le)

theorem Ends.after {crash : Trace M R O → Prop} (ends : d.Ends ρ me crash t)
    (went : Went (d.law ρ) me Deed.Looks t t') : d.Ends ρ me crash t' :=
  fun t'' later => ends t'' (went.trans later)

theorem ensureOpen_told_safe {crash : Trace M R O → Prop} {err : CoreError → Trace M R O → Prop}
    {ok : Unit → Trace M R O → Prop}
    (opened : ∀ t', Went (d.law ρ) me Deed.Looks t t' → ((World.after t').memories me.place).closed = false → ok () t')
    (told : ∀ past, Went (d.law ρ) me Deed.Looks t (past ++ [⟨me, .acted (.touch .isClosed) true⟩]) → t <+: past →
      err .closed (past ++ [⟨me, .acted (.touch .isClosed) true⟩])) :
    Attempt.Safe (d.law ρ) me crash ok err Client.ensureOpen t := by
  unfold Client.ensureOpen
  refine .bind (.touch (fun _ _ _ need => by cases need) (fun _ _ => trivial) ?_)
  intro answer past waited _ same lawful
  have looks : (Deed.acted (.touch .isClosed) answer : Deed M R).Looks := trivial
  have went := waited.step looks lawful
  have memory : (World.after (past ++ [⟨me, .acted (.touch .isClosed) answer⟩])).memories me.place =
      (World.after past).memories me.place := World.memories_touched past me answer
  rw [← memory] at same
  cases answer with
  | true => exact told past went waited.le
  | false => exact opened _ went same.symm

section Asking

variable {crash : Trace M R O → Prop} {err : CoreError → Trace M R O → Prop} (fails : d.Fails ρ me err t)

include fails

theorem ask_safe {request : Request} {ok : request.Answer → Trace M R O → Prop} (passive : request.Passive)
    (other : ∀ offset budget, request ≠ .readAt offset budget)
    (served : ∀ answer past, Waited (d.law ρ) me t past →
      Lawful (d.law ρ) (past ++ [⟨me, .acted (.ask d.segment request) (.ok answer)⟩]) →
      ok answer (past ++ [⟨me, .acted (.ask d.segment request) (.ok answer)⟩])) :
    Attempt.Safe (d.law ρ) me crash ok err (Attempt.ask d.segment request) t := by
  refine Attempt.Safe.ask (fun _ _ => law_of_passive passive) served ?_
  intro cause deed past waited outcome lawful
  rcases refused_or_failed outcome lawful with rfl | ⟨rfl, refusal⟩
  · have happened : (⟨me, .failed d.segment request cause⟩ : Event M R O) ∈
        past ++ [⟨me, .failed d.segment request cause⟩] := by
      simp
    exact fails _ _ (waited.step trivial lawful) (.failed request cause happened) (.of_failed waited.le)
  · have looks : (Deed.acted (.ask d.segment request) (.error cause) : Deed M R).Looks := passive
    have went := waited.step looks lawful
    cases refusal with
    | absent _ none => exact fails _ _ went (.absent past waited.le (List.prefix_append _ _) none) (.of_eq rfl)
    | tooLarge | uncuttable => exact passive.elim
    | truncated offset budget | unreadable offset budget => exact absurd rfl (other offset budget)

theorem ensureOpen_safe {ok : Unit → Trace M R O → Prop}
    (opened : ∀ t', Went (d.law ρ) me Deed.Looks t t' → ((World.after t').memories me.place).closed = false →
      ok () t') :
    Attempt.Safe (d.law ρ) me crash ok err Client.ensureOpen t := by
  refine ensureOpen_told_safe opened fun past went since => ?_
  exact fails _ _ went (.closed past since (List.prefix_refl _)) (.of_eq rfl)

theorem tailOffset_safe {ok : Nat → Trace M R O → Prop}
    (served : ∀ tail t', Went (d.law ρ) me Deed.Looks t t' → tail = ending 0 (d.log t') → ok tail t') :
    Attempt.Safe (d.law ρ) me crash ok err (Attempt.ask d.segment .tailOffset) t := by
  refine ask_safe fails trivial (fun _ _ other => by cases other) ?_
  intro tail past waited lawful
  obtain ⟨before, fits, _⟩ := lawful.of_concat
  have reached : tail = ending 0 (d.log past) := (before.logs d.segment).tailOffset fits.symm
  obtain ⟨log, _⟩ := lawful.still_of_quiet d.segment trivial
  exact served tail _ (waited.step trivial lawful) (reached.trans (congrArg (ending 0) log.symm))

theorem oldestOffset_safe {ok : Nat → Trace M R O → Prop}
    (served : ∀ oldest t', Went (d.law ρ) me Deed.Looks t t' → oldest = d.oldest t' → ok oldest t') :
    Attempt.Safe (d.law ρ) me crash ok err (Attempt.ask d.segment .oldestOffset) t := by
  refine ask_safe fails trivial (fun _ _ other => by cases other) ?_
  intro oldest past waited lawful
  obtain ⟨_, fits, _⟩ := lawful.of_concat
  have found : oldest = d.oldest past := Store.Logs.oldestOffset fits.symm
  obtain ⟨_, buffer⟩ := lawful.still_of_quiet d.segment trivial
  exact served oldest _ (waited.step trivial lawful) (found.trans (congrArg Framed.start buffer.symm))

theorem fetchLatest_safe (place : Nat) {ok : Revision → Trace M R O → Prop}
    (fetched : ∀ t', Went (d.law ρ) me Deed.Looks t t' → ok ⟨d.segment, ending 0 (d.log t'), 0⟩ t') :
    Attempt.Safe (d.law ρ) me crash ok err (d.client place).fetchLatest t := by
  unfold Client.fetchLatest
  refine .bind (ensureOpen_safe fails fun t₁ checked _ => .bind (tailOffset_safe (fails.after checked) ?_))
  rintro _ t' went rfl
  exact fetched t' (checked.trans went)

theorem fetchOldest_safe (place : Nat) {ok : Revision → Trace M R O → Prop}
    (fetched : ∀ t', Went (d.law ρ) me Deed.Looks t t' → ok ⟨d.segment, d.oldest t', 0⟩ t') :
    Attempt.Safe (d.law ρ) me crash ok err (d.client place).fetchOldest t := by
  unfold Client.fetchOldest
  refine .bind (ensureOpen_safe fails fun t₁ checked _ => .bind (oldestOffset_safe (fails.after checked) ?_))
  rintro _ t' went rfl
  exact fetched t' (checked.trans went)

theorem getMark_safe (place : Nat) {ok : Option Revision → Trace M R O → Prop}
    (unset : ∀ t', Went (d.law ρ) me Deed.Looks t t' → d.mark t' = none → ok none t')
    (set : ∀ (offset : Nat) t', Went (d.law ρ) me Deed.Looks t t' → d.mark t' = some (offset : Int) →
      ok (some ⟨d.segment, offset, 0⟩) t') :
    Attempt.Safe (d.law ρ) me crash ok err (d.client place).getMark t := by
  unfold Client.getMark
  refine .bind (ensureOpen_safe fails fun t₁ checked _ =>
    .bind (ask_safe (fails.after checked) trivial (fun _ _ other => by cases other) ?_))
  intro value past waited lawful
  obtain ⟨_, fits, _⟩ := lawful.of_concat
  have found : value = d.mark past := Store.Logs.getMark fits.symm
  obtain ⟨_, buffer⟩ := lawful.still_of_quiet d.segment trivial
  have found := found.trans (congrArg (fun f : Framed => f.attributes.get? .mark) buffer.symm)
  have looks : (Deed.acted (.ask d.segment (.getAttribute .mark)) (.ok value) : Deed M R).Looks := trivial
  have went := checked.trans (waited.step looks lawful)
  match value with
  | none => exact unset _ went found.symm
  | some (.ofNat offset) => exact set offset _ went found.symm
  | some (.negSucc n) =>
    exact fails _ _ went (.negativeMark _ _ (List.prefix_refl _) found.symm (Int.negSucc_lt_zero n)) (.of_eq rfl)

end Asking

end Deployment

end LogReplica
