import LogReplica.Proofs.Replica.Reckoning
import LogReplica.Proofs.Replica.Undisturbed

namespace LogReplica

variable {M : Model} {R O α β : Type}

theorem Attempt.abort_bind (f : α → Attempt M R β) : (Attempt.abort >>= f : Attempt M R β) = Attempt.abort :=
  congrArg (Procedure.step .abort) (funext fun impossible => nomatch impossible)

namespace Replica

variable (r : Replica M)

def reread (truncated : CoreError) : Attempt M R (Cached M) := do
  let restart ← r.freshStart
  let records ← r.client.readFrom restart
  let (first, records) ← ExceptT.lift records.next
  match first with
  | .failed cause => throw cause
  | .uncounted => Attempt.abort
  | .finished => throw truncated
  | .record _ (.updates _) => throw truncated
  | .record revision (.init snapshot) => do
    Attempt.touch (.tally (.replayed 1))
    let (result, slot) ← ExceptT.lift (r.replayRecords (some ⟨M.create snapshot r.name revision, revision⟩) records)
    match result with
    | .error cause => throw cause
    | .ok () => pure slot

theorem recover_eq_reread (truncated : CoreError) : (r.recover truncated : Attempt M R Unit) =
    (r.reread truncated >>= fun slot => Attempt.touch (.tally .recovery) >>= fun _ =>
      Attempt.touch (.remember slot)) := by
  simp only [recover, reread, bind_assoc]
  refine congrArg (r.freshStart >>= ·) (funext fun restart => ?_)
  refine congrArg (r.client.readFrom restart >>= ·) (funext fun records => ?_)
  refine congrArg (ExceptT.lift records.next >>= ·) (funext fun given => ?_)
  obtain ⟨first, records⟩ := given
  cases first with
  | failed | finished => rfl
  | uncounted => exact (Attempt.abort_bind _).symm
  | record revision record =>
    cases record with
    | updates batch => rfl
    | init snapshot =>
      simp only [bind_assoc]
      refine congrArg (Attempt.touch (.tally (.replayed 1)) >>= ·) (funext fun _ => ?_)
      refine congrArg (ExceptT.lift (r.replayRecords _ records) >>= ·) (funext fun replayed => ?_)
      obtain ⟨result, slot⟩ := replayed
      cases result <;> rfl

theorem reread_confined (truncated : CoreError) :
    (r.reread truncated : Attempt M R _).Confined Action.Inquires fun _ => True := by
  have widen : ∀ {α : Type} {x : Attempt M R α}, x.Inquiring → x.Confined Action.Inquires fun _ => True :=
    fun inquiring => inquiring.within fun _ => id
  refine .bind (widen r.freshStart_confined) fun restart => ?_
  refine .bind (widen (r.client.readFrom_confined restart)) fun records => ?_
  refine .bind_lift (records.next_confined.mono (fun _ => id) ?_)
  rintro ⟨first, records⟩ _
  cases first with
  | failed | finished => exact .throw trivial
  | uncounted => exact .abort trivial
  | record revision record =>
    cases record with
    | updates batch => exact .throw trivial
    | init snapshot =>
      refine .bind (.touch trivial) fun _ => ?_
      refine .bind_lift ((r.replayRecords_confined _ records).mono (fun _ => id) ?_)
      rintro ⟨result, slot⟩ _
      cases result with
      | ok done => exact .pure slot
      | error cause => exact .throw trivial

end Replica

def Action.Unrecovering (action : Action M R) : Prop := action ≠ .touch (.tally .recovery)

def Action.Plain (action : Action M R) : Prop := action.Forgoes ∧ action.Unrecovering

theorem Action.Inquires.plain {action : Action M R} (inquires : action.Inquires) : action.Plain := by
  refine ⟨inquires.forgoes, ?_⟩
  rintro rfl
  exact inquires

theorem Action.Plain.of_touch {x : Touch M.State} (forgoes : ∀ slot, x ≠ .remember slot)
    (other : x ≠ .tally .recovery) : (.touch x : Action M R).Plain := by
  refine ⟨fun slot same => ?_, fun same => ?_⟩
  · cases same
    exact forgoes slot rfl
  · cases same
    exact other rfl

abbrev Attempt.Plain (x : Attempt M R α) : Prop := x.Confined Action.Plain fun _ => True

theorem Attempt.Inquiring.plain {x : Attempt M R α} (inquiring : x.Inquiring) : x.Plain :=
  inquiring.within fun _ => Action.Inquires.plain

theorem Attempt.Plain.cached : (Attempt.touch .cached : Attempt M R (Replica.Cached M)).Plain :=
  .touch (.of_touch nofun nofun)

theorem Attempt.Plain.conflict : (Attempt.touch (.tally .conflict) : Attempt M R Unit).Plain :=
  .touch (.of_touch nofun nofun)

theorem Attempt.Plain.written : (Attempt.touch (.tally .written) : Attempt M R Unit).Plain :=
  .touch (.of_touch nofun nofun)

namespace Replica

theorem pause_plain (r : Replica M) (attempt : Nat) :
    Attempt.Plain (ExceptT.lift (r.pause attempt) : Attempt M R Unit) :=
  .lift (r.pause_confined attempt ⟨nofun, nofun⟩ fun _ => .of_touch nofun nofun)

theorem batches_plain {batch : M.State → Procedure M R (List M.Update × β)}
    (proposed : ∀ state, (batch state).Confined Action.Plain fun _ => True) (state : M.State) : (do
      let (updates, result) ← batch state
      pure (if updates.isEmpty then none else some (.updates updates), result) :
        Procedure M R (Option M.Record × β)).Confined Action.Plain fun _ => True :=
  .bind ((proposed state).mono (fun _ => id) fun _ _ => trivial)

end Replica

theorem Client.writeConditionally_plain {T : Type} (c : Client T) (latest : Revision) (value : T) :
    (c.writeConditionally latest value : Attempt M R _).Plain :=
  c.writeConditionally_within (fun _ asks => asks.inquires.plain) latest fun _ _ => ⟨nofun, nofun⟩

theorem Attempt.of_failed {cause : CoreError} {holds : α → Prop} (a : α)
    (same : (.error cause : Except CoreError α) = .ok a) : holds a := by
  cases same

def Deed.Forgoes (deed : Deed M R) : Prop := ∀ slot answer, deed ≠ .acted (.touch (.remember slot)) answer

theorem Passed.forgoes {me : Caller O} {t t' : Trace M R O} (passed : Passed me (Deed.Within Action.Plain) t t') :
    Passed me Deed.Forgoes t t' := by
  refine passed.mono fun deed within slot answer same => ?_
  rw [same] at within
  exact within.1 slot rfl

theorem Passed.unrecovering {me : Caller O} {t t' : Trace M R O} (passed : Passed me (Deed.Within Action.Plain) t t') :
    Passed me (Deed.Within Action.Unrecovering) t t' :=
  passed.mono fun _ within => within.mono fun _ => And.right

theorem Trace.cache_of_forgoing {t more : Trace M R O} {place : Nat}
    (forgoing : ∀ e ∈ more, e.caller.place = place → e.deed.Forgoes) :
    (t ++ more).cache place = t.cache place := by
  induction more using List.reverseRecOn with
  | nil => rw [List.append_nil]
  | append_singleton more e ih =>
    rw [← ih fun e' member => forgoing e' (List.mem_append_left _ member), ← List.append_assoc]
    rcases Trace.cache_concat (t ++ more) e place with same | ⟨slot, answer, here, remembers, _⟩
    · exact same
    · exact absurd remembers (forgoing e (List.mem_append_right _ (List.mem_singleton_self e)) here slot answer)

namespace Deployment

variable {d : Deployment M} {ρ : Conduct M R O} {me : Caller O} {t t' t₁ t₂ : Trace M R O} {place : Nat}

theorem Blame.pos_of_truncated {cause : CoreError} (blame : d.Blame ρ me t t' cause) (polite : ¬ρ.raw me.operation)
    (lawful : Lawful (d.law ρ) t') (candid : t'.Candid) (truncated : cause.isTruncated = true) : 0 < d.oldest t' := by
  cases blame with
  | truncated offset oldest past _ by_ found low =>
    have := oldest_le lawful by_
    omega
  | failed request cause happened =>
    cases cause with
    | truncated => exact absurd trivial (candid _ happened _ _ _ rfl)
    | _ => cases truncated
  | raw raw => exact absurd raw polite
  | _ => cases truncated

/-- From `t` to `t'` the log is cut off nowhere. Either it has never been, or there is a copy at the place of the call,
and no other call. -/
structure Calm (d : Deployment M) (ρ : Conduct M R O) (me : Caller O) (t t' : Trace M R O) : Prop where
  lawful : Lawful (d.law ρ) t'
  candid : t'.Candid
  polite : ¬ρ.raw me.operation
  le : t <+: t'
  still : d.oldest t' = d.oldest t
  guarded : d.oldest t' = 0 ∨ t.cache me.place ≠ none ∧
    ∃ more, t' = t ++ more ∧ ∀ e ∈ more, e.caller.place = me.place → e.caller.call = me.call

variable (d) in
/-- How often the call has recovered, and once more if its place has to recover yet. -/
def arrears (me : Caller O) (t : Trace M R O) : Nat :=
  (t.recorded me).truncationRecoveries + if d.Lagging t me.place then 1 else 0

theorem recoveries_eq (passed : Passed me (Deed.Within Action.Unrecovering) t t') :
    (t'.recorded me).truncationRecoveries = (t.recorded me).truncationRecoveries := by
  refine passed.counted Stats.truncationRecoveries fun deed within tally counted stats => ?_
  cases tally with
  | recovery =>
    unfold Deed.tally? at counted
    split at counted
    · cases counted
      exact absurd rfl within
    · cases counted
  | _ => rfl

theorem not_lagging_of_oldest (whole : d.oldest t = 0) : d.Lagging t place = false := by
  cases cached : t.cache place <;> simp [Lagging, cached, whole]

theorem not_lagging_of_reached (lawful : Lawful (d.law ρ) t') (le : t <+: t') (still : d.oldest t' = d.oldest t)
    (reached : ∀ copy, t'.cache place = some copy → ending 0 (d.log t) ≤ copy.revision.offset) :
    d.Lagging t' place = false := by
  have low : d.oldest t ≤ ending 0 (d.log t) := ((lawful.of_le le).logs d.segment).start_le
  cases cached : t'.cache place with
  | none => simp [Lagging, cached]
  | some copy =>
    have := reached copy cached
    simp only [Lagging, cached, Option.any_some, decide_eq_false_iff_not]
    omega

variable (d me) in
/-- At the end of a loop of writes its place has not fallen behind, and has a copy as new as the one that was written
to. -/
structure KeptUp (t' : Trace M R O) (outcome : WriteOutcome β) : Prop where
  caughtUp : d.Lagging t' me.place = false
  reached : ∀ expected revision, outcome.written = some (expected, revision) →
    ∃ copy, t'.cache me.place = some copy ∧ expected.offset ≤ copy.revision.offset

namespace Calm

theorem between (calm : d.Calm ρ me t t') (since : t <+: t₁) (le : t₁ <+: t₂) (by_ : t₂ <+: t') :
    d.Calm ρ me t₁ t₂ := by
  have lawful := calm.lawful.of_le by_
  have low := oldest_le (lawful.of_le le) since
  have mid := oldest_le lawful le
  have high := oldest_le calm.lawful by_
  have still := calm.still
  refine ⟨lawful, calm.candid.of_le by_, calm.polite, le, by omega, ?_⟩
  rcases calm.guarded with whole | ⟨copied, more, split, alone⟩
  · exact .inl (by omega)
  · refine .inr ⟨fun none => ?_, ?_⟩
    · obtain ⟨copy, cached⟩ := Option.ne_none_iff_exists'.mp copied
      obtain ⟨_, here, _⟩ := noOlder (lawful.of_le le) since me.place copy cached
      rw [none] at here
      cases here
    · obtain ⟨before, rfl⟩ := since
      obtain ⟨during, rfl⟩ := le
      obtain ⟨after, rfl⟩ := by_
      rw [List.append_assoc, List.append_assoc] at split
      obtain rfl := List.append_cancel_left split
      exact ⟨during, rfl, fun e member => alone e (by simp [member])⟩

variable (calm : d.Calm ρ me t t')

include calm

theorem lagging_of_not (caughtUp : d.Lagging t me.place = false) : d.Lagging t' me.place = false := by
  rcases calm.guarded with whole | ⟨copied, _⟩
  · exact not_lagging_of_oldest whole
  · obtain ⟨copy, cached⟩ := Option.ne_none_iff_exists'.mp copied
    obtain ⟨copy', cached', le⟩ := noOlder calm.lawful calm.le me.place copy cached
    have still := calm.still
    simp only [Lagging, cached, cached', Option.any_some, decide_eq_false_iff_not] at caughtUp ⊢
    omega

theorem lagging_eq (passed : Passed me Deed.Forgoes t t') :
    d.Lagging t' me.place = d.Lagging t me.place := by
  rcases calm.guarded with whole | ⟨_, more, rfl, alone⟩
  · rw [not_lagging_of_oldest whole, not_lagging_of_oldest (calm.still ▸ whole)]
  · have forgoing : ∀ e ∈ more, e.caller.place = me.place → e.deed.Forgoes := by
      obtain ⟨_, same, own⟩ := passed
      obtain rfl := List.append_cancel_left same
      exact fun e member here => own e member (alone e member here)
    rw [Lagging, Lagging, Trace.cache_of_forgoing forgoing, calm.still]

theorem arrears_of_plain (passed : Passed me (Deed.Within Action.Plain) t t') : d.arrears me t' = d.arrears me t := by
  rw [arrears, arrears, recoveries_eq passed.unrecovering, calm.lagging_eq passed.forgoes]

theorem arrears_of_unrecovering (caughtUp : d.Lagging t me.place = false)
    (passed : Passed me (Deed.Within Action.Unrecovering) t t') : d.arrears me t' = d.arrears me t := by
  rw [arrears, arrears, recoveries_eq passed, caughtUp, calm.lagging_of_not caughtUp]

theorem arrears_of_leads {x : Attempt M R α} {result : Except CoreError α} (plain : x.Plain)
    (leads : x.run.Leads me t result t') : d.arrears me t' = d.arrears me t :=
  calm.arrears_of_plain (leads.passed plain)

theorem leads_plain {x : Attempt M R β} {f : β → Attempt M R α} {result : Except CoreError α} (plain : x.Plain)
    (leads : (x >>= f).run.Leads me t result t') :
    (∃ b t₁, x.run.Leads me t (.ok b) t₁ ∧ d.Calm ρ me t₁ t' ∧ d.arrears me t₁ = d.arrears me t ∧
      d.Lagging t₁ me.place = d.Lagging t me.place ∧ (f b).run.Leads me t₁ result t') ∨
      ∃ cause, result = .error cause ∧ d.arrears me t' = d.arrears me t := by
  rcases Attempt.leads_bind leads with ⟨b, t₁, first, rest⟩ | ⟨cause, first, rfl⟩
  · have before := calm.between (List.prefix_refl _) first.le rest.le
    have kept := before.lagging_eq (first.passed plain).forgoes
    exact .inl ⟨b, t₁, first, calm.between first.le rest.le (List.prefix_refl _),
      before.arrears_of_leads plain first, kept, rest⟩
  · exact .inr ⟨cause, rfl, calm.arrears_of_leads plain first⟩

variable (held : (World.after t).holders me.place .cache = some me.call)

include held

theorem arrears_of_stranded {result : Except CoreError (Except CoreError Unit)} (behind : d.Lagging t me.place = true)
    (leads : (d.replica place).approach.run.Leads me t result t') : d.arrears me t' = d.arrears me t := by
  unfold Replica.approach at leads
  rcases Attempt.leads_bind leads with ⟨slot, t₁, looked, leads⟩ | ⟨_, looked, _⟩
  swap
  · obtain ⟨_, _, _, _, ⟨⟩⟩ := Attempt.leads_touch looked
  have calm₁ := calm.between (List.prefix_refl _) looked.le leads.le
  obtain ⟨went, cached⟩ := cached_leads calm₁.lawful looked
  have same : d.arrears me t₁ = d.arrears me t :=
    calm₁.arrears_of_leads Attempt.Plain.cached looked
  rw [went.cache_eq held] at cached
  have calm₂ := calm.between looked.le leads.le (List.prefix_refl _)
  cases slot with
  | none => simp [Lagging, cached] at behind
  | some copy =>
    obtain ⟨answer, replayed, _⟩ := Attempt.leads_lift leads
    have below : copy.revision.offset < d.oldest t := by simpa [Lagging, cached] using behind
    have here := (placed calm₁.lawful (went.cache_eq held ▸ cached)).segment
    rcases Attempt.leads_bind replayed with ⟨reader, t₂, opened, rest⟩ | ⟨cause, refused, _⟩
    · have lawful₂ := calm₂.lawful.of_le rest.le
      have high := Attempt.promised (fun _ _ => d.oldest t₁ ≤ copy.revision.offset) opened lawful₂
        (readFrom_safe (fun _ _ _ _ _ => trivial) place here (fun _ _ high => high) fun _ _ _ => trivial)
      exact absurd (Nat.le_trans (oldest_le calm₁.lawful looked.le) high) (Nat.not_le.mpr below)
    · rw [calm₂.arrears_of_leads ((d.client place).readFrom_confined _).plain refused, same]

theorem approach_arrears {result : Except CoreError (Except CoreError Unit)}
    (leads : (d.replica place).approach.run.Leads me t result t') : d.arrears me t' = d.arrears me t := by
  cases behind : d.Lagging t me.place with
  | true => exact calm.arrears_of_stranded held behind leads
  | false =>
    refine calm.arrears_of_unrecovering behind (leads.passed ((d.replica place).approach_within ?_ nofun nofun))
    exact fun _ inquires => inquires.plain.2

theorem approach_caught {answer : Except CoreError Unit}
    (leads : (d.replica place).approach.run.Leads me t (.ok answer) t') :
    (World.after t').holders me.place .cache = some me.call ∧ (answer = .ok () → d.Lagging t' me.place = false) ∧
      ∀ cause, answer = .error cause → cause.isTruncated = true → d.Lagging t' me.place = true := by
  let post (answer : Except CoreError Unit) (t' : Trace M R O) : Prop :=
    Went (d.law ρ) me Deed.Tends t t' ∧ (answer = .ok () → d.Abreast me t t') ∧
      ∀ cause, answer = .error cause → d.Blame ρ me t t' cause ∧
        ∀ copy, t'.cache me.place = some copy → d.Behind me t copy.revision.offset t' cause
  have safe : Attempt.Safe (d.law ρ) me (fun _ => True) post (fun _ _ => True) (d.replica place).approach t := by
    refine approach_safe place held (fun _ _ => trivial) (fun _ went abreast => ⟨went, fun _ => abreast, nofun⟩) ?_
      fun _ _ _ _ _ => trivial
    intro cause t' went blame behind
    refine ⟨went, nofun, ?_⟩
    rintro _ ⟨⟩
    exact ⟨blame, behind⟩
  obtain ⟨went, arrived, stopped⟩ := Attempt.promised post leads calm.lawful safe
  refine ⟨went.holds held, fun ends => ?_, fun cause failed truncated => ?_⟩
  · exact not_lagging_of_reached calm.lawful calm.le calm.still fun _ => (arrived ends).le
  · obtain ⟨blame, behind⟩ := stopped cause failed
    cases cached : t'.cache me.place with
    | some copy => simpa [Lagging, cached] using behind copy cached truncated calm.candid.since
    | none =>
      rcases calm.guarded with whole | ⟨copied, _⟩
      · exact absurd whole (Nat.ne_of_gt (blame.pos_of_truncated calm.polite calm.lawful calm.candid truncated))
      · obtain ⟨copy, there⟩ := Option.ne_none_iff_exists'.mp copied
        obtain ⟨_, here, _⟩ := noOlder calm.lawful calm.le me.place copy there
        rw [cached] at here
        cases here

theorem recover_caught {cause : CoreError} {result : Except CoreError Unit} (behind : d.Lagging t me.place = true)
    (leads : ((d.replica place).recover cause).run.Leads me t result t') :
    d.arrears me t' = d.arrears me t ∧ (result = .ok () → d.Lagging t' me.place = false) := by
  have plain : ((d.replica place).reread cause : Attempt M R _).Plain :=
    ((d.replica place).reread_confined cause).mono (fun _ => Action.Inquires.plain) fun _ => id
  have recovers := leads
  rw [Replica.recover_eq_reread] at leads
  rcases Attempt.leads_bind leads with ⟨slot, t₁, reread, rest⟩ | ⟨cause', failed, rfl⟩
  · have calm₁ := calm.between (List.prefix_refl _) reread.le rest.le
    obtain ⟨past, _, idled, rest⟩ := Attempt.leads_touch_bind rest
    obtain ⟨past', _, idled', rfl, rfl⟩ := Attempt.leads_touch rest
    have settled : d.Lagging (past' ++ [⟨me, .acted (.touch (.remember slot)) ()⟩]) me.place = false := by
      obtain ⟨copy, cached, reached⟩ := Attempt.promised (fun _ t' => ∃ copy, t'.cache me.place = some copy ∧
        ending 0 (d.log t) ≤ copy.revision.offset) recovers calm.lawful (recover_safe place held (fun _ _ => trivial)
          (fun copy _ _ cached reached => ⟨copy, cached, reached⟩) (fun _ _ _ _ => trivial) fun _ _ => trivial)
      refine not_lagging_of_reached calm.lawful calm.le calm.still fun other there => ?_
      rw [cached] at there
      exact Option.some.inj there ▸ reached
    have counted : (Trace.recorded me (past' ++ [⟨me, .acted (.touch (.remember slot)) ()⟩])).truncationRecoveries =
        (t₁.recorded me).truncationRecoveries + 1 := by
      rw [Trace.recorded_concat, idled'.recorded_eq nofun, Trace.recorded_concat, idled.recorded_eq nofun]
      rfl
    have same := calm₁.arrears_of_leads plain reread
    have behind₁ := calm₁.lagging_eq (reread.passed plain).forgoes
    refine ⟨?_, fun _ => settled⟩
    rw [← same, arrears, arrears, settled, counted, behind₁, behind]
    rfl
  · exact ⟨calm.arrears_of_leads plain failed, nofun⟩

theorem catchUp_caught {result : Except CoreError Unit}
    (leads : (d.replica place).catchUp.run.Leads me t result t') :
    d.arrears me t' = d.arrears me t ∧ (result = .ok () → d.Lagging t' me.place = false) := by
  rw [Replica.catchUp_eq_approach] at leads
  rcases Attempt.leads_bind leads with ⟨answer, t₁, approached, rest⟩ | ⟨cause, failed, rfl⟩
  · have calm₁ := calm.between (List.prefix_refl _) approached.le rest.le
    have calm₂ := calm.between approached.le rest.le (List.prefix_refl _)
    have same := calm₁.approach_arrears held approached
    obtain ⟨held₁, arrived, stopped⟩ := calm₁.approach_caught held approached
    cases answer with
    | ok done =>
      cases rest
      exact ⟨same, fun _ => arrived rfl⟩
    | error cause =>
      dsimp only at rest
      split at rest
      · rename_i truncated
        obtain ⟨same', recovered⟩ := calm₂.recover_caught held₁ (stopped cause rfl truncated) rest
        exact ⟨same'.trans same, recovered⟩
      · cases rest
        exact ⟨same, nofun⟩
  · exact ⟨calm.approach_arrears held failed, nofun⟩

omit held in
theorem leads_locked {body : Attempt M R α} {result : Except CoreError α}
    (leads : (Attempt.locked body).run.Leads me t result t') :
    ∃ t₁ t₂, d.Calm ρ me t₁ t₂ ∧ (World.after t₁).holders me.place .cache = some me.call ∧
      body.run.Leads me t₁ result t₂ ∧ d.arrears me t₁ = d.arrears me t ∧ d.arrears me t' = d.arrears me t₂ ∧
      d.Lagging t₁ me.place = d.Lagging t me.place ∧ d.Lagging t' me.place = d.Lagging t₂ me.place ∧ t₂ <+: t' := by
  obtain ⟨t₁, t₂, enters, leaves, held, inside⟩ := Attempt.leads_locked leads
  have enters : Passed me (Deed.Within Action.Plain) t t₁ := enters.mono fun _ within => within.mono fun _ same =>
    same ▸ .of_touch nofun nofun
  have leaves : Passed me (Deed.Within Action.Plain) t₂ t' := leaves.mono fun _ within => within.mono fun _ same =>
    same ▸ .of_touch nofun nofun
  have before := calm.between (List.prefix_refl _) enters.le (inside.le.trans leaves.le)
  have after := calm.between (enters.le.trans inside.le) leaves.le (List.prefix_refl _)
  exact ⟨t₁, t₂, calm.between enters.le inside.le leaves.le, held, inside, before.arrears_of_plain enters,
    after.arrears_of_plain leaves, before.lagging_eq enters.forgoes, after.lagging_eq leaves.forgoes,
    leaves.le⟩

omit held in
theorem getRevisionedState_caught {result : Except CoreError (Revisioned M.State)}
    (leads : (d.replica place).getRevisionedState.run.Leads me t result t') :
    d.arrears me t' = d.arrears me t ∧ ∀ copy, result = .ok copy → d.Lagging t' me.place = false := by
  obtain ⟨t₁, t₂, calm, held, inside, before, after, _, last, _⟩ := calm.leads_locked leads
  rw [after, last, ← before]
  rcases Attempt.leads_bind inside with ⟨_, t₃, caught, rest⟩ | ⟨cause, caught, rfl⟩
  · obtain ⟨same, settled⟩ := (calm.between (List.prefix_refl _) caught.le rest.le).catchUp_caught held caught
    have calm' := calm.between caught.le rest.le (List.prefix_refl _)
    rcases Attempt.leads_bind rest with ⟨slot, t₄, looked, ended⟩ | ⟨_, looked, _⟩
    swap
    · obtain ⟨_, _, _, _, ⟨⟩⟩ := Attempt.leads_touch looked
    obtain rfl : t₄ = t₂ := by cases slot <;> cases ended <;> rfl
    have same' := calm'.arrears_of_leads Attempt.Plain.cached looked
    exact ⟨same'.trans same, fun _ _ => calm'.lagging_of_not (settled rfl)⟩
  · exact ⟨(calm.catchUp_caught held caught).1, Attempt.of_failed⟩

omit held in
theorem applyWritten_arrears {expected revision : Revision} {record : M.Record}
    (caughtUp : d.Lagging t me.place = false)
    (leads : ((d.replica place).applyWritten expected revision record : Procedure M R Unit).Leads me t () t') :
    d.arrears me t' = d.arrears me t := by
  obtain ⟨result, t₀, leads, ended⟩ := Procedure.Leads.of_bind leads
  cases ended
  obtain ⟨t₁, t₂, calm, held, inside, before, after, first, _⟩ := calm.leads_locked leads
  rw [after, ← before]
  rw [caughtUp] at first
  rcases Attempt.leads_bind inside with ⟨slot, t₃, looked, rest⟩ | ⟨_, looked, _⟩
  swap
  · obtain ⟨_, _, _, _, ⟨⟩⟩ := Attempt.leads_touch looked
  have calm₁ := calm.between (List.prefix_refl _) looked.le rest.le
  have calm₂ := calm.between looked.le rest.le (List.prefix_refl _)
  have same := calm₁.arrears_of_leads Attempt.Plain.cached looked
  have held₁ := (cached_leads calm₁.lawful looked).1.tends.holds held
  have reads (leads : (d.replica place).catchUp.run.Leads me t₃ result t₂) : d.arrears me t₂ = d.arrears me t₁ :=
    (calm₂.catchUp_caught held₁ leads).1.trans same
  cases slot with
  | none => exact reads rest
  | some current =>
    dsimp only at rest
    split at rest
    · split at rest
      · rename_i next _
        have uncounted : (Attempt.touch (.remember (some next)) : Attempt M R Unit).Confined Action.Unrecovering
          fun _ => True := .touch nofun
        exact (calm₂.arrears_of_unrecovering (calm₁.lagging_of_not first) (rest.passed uncounted)).trans same
      · cases rest
        exact same
    · exact reads rest

omit held in
theorem writeLoop_caught {propose : M.State → Procedure M R (Option M.Record × β)}
    (proposed : ∀ state, (propose state).Confined Action.Plain fun _ => True) {left attempts : Nat}
    {result : Except CoreError (WriteOutcome β)}
    (leads : ((d.replica place).writeLoop propose left attempts).run.Leads me t result t') :
    d.arrears me t' = d.arrears me t ∧ ∀ outcome, result = .ok outcome → d.KeptUp me t' outcome := by
  -- On the attempts left; each one begins with a reading, after which the place has not fallen behind.
  induction left generalizing t attempts with
  | zero => exact absurd leads Attempt.not_leads_abort
  | succ left ih =>
    unfold Replica.writeLoop at leads
    rcases calm.leads_plain ((d.replica place).pause_plain attempts) leads with
      ⟨_, t₁, _, calm, same₁, _, leads⟩ | ⟨cause, rfl, same⟩
    swap
    · exact ⟨same, Attempt.of_failed⟩
    rw [← same₁]
    rcases Attempt.leads_bind leads with ⟨copy, t₂, got, leads⟩ | ⟨cause, got, rfl⟩
    swap
    · exact ⟨(calm.getRevisionedState_caught got).1, Attempt.of_failed⟩
    obtain ⟨same₂, settled⟩ := (calm.between (List.prefix_refl _) got.le leads.le).getRevisionedState_caught got
    have settled₂ := settled copy rfl
    have seen := (getRevisionedState_leads (calm.lawful.of_le leads.le) got).cached
    obtain ⟨_, kept, reached⟩ := noOlder calm.lawful leads.le me.place copy seen
    have calm := calm.between got.le leads.le (List.prefix_refl _)
    rw [← same₂]
    rcases calm.leads_plain (.lift (proposed copy.state)) leads with
      ⟨⟨proposal, value⟩, t₃, _, calm, same₃, settled₃, leads⟩ | ⟨cause, rfl, same⟩
    swap
    · exact ⟨same, Attempt.of_failed⟩
    rw [← same₃]
    rw [settled₂] at settled₃
    cases proposal with
    | none =>
      cases leads
      refine ⟨rfl, ?_⟩
      rintro _ ⟨⟩
      refine ⟨settled₃, ?_⟩
      rintro _ _ ⟨⟩
    | some record =>
      have writes := Client.writeConditionally_plain (M := M) (R := R) (d.replica place).client copy.revision record
      rcases calm.leads_plain writes leads with ⟨written, t₄, _, calm, same₄, settled₄, leads⟩ | ⟨cause, rfl, same⟩
      swap
      · exact ⟨same, Attempt.of_failed⟩
      rw [← same₄]
      rw [settled₃] at settled₄
      cases written with
      | some revision =>
        rcases Attempt.leads_bind leads with ⟨_, t₅, applied, leads⟩ | ⟨_, applied, _⟩
        swap
        · obtain ⟨_, _, ⟨⟩⟩ := Attempt.leads_lift applied
        cases leads
        obtain ⟨_, applied, _⟩ := Attempt.leads_lift applied
        refine ⟨calm.applyWritten_arrears settled₄ applied, ?_⟩
        rintro _ ⟨⟩
        refine ⟨calm.lagging_of_not settled₄, ?_⟩
        rintro _ _ ⟨⟩
        exact ⟨_, kept, reached⟩
      | none =>
        rcases calm.leads_plain Attempt.Plain.conflict leads with
          ⟨_, t₅, _, calm, same₅, _, leads⟩ | ⟨cause, rfl, same⟩
        swap
        · exact ⟨same, Attempt.of_failed⟩
        rw [← same₅]
        split at leads
        · exact ih calm leads
        · cases leads
          exact ⟨rfl, Attempt.of_failed⟩

omit held in
theorem updateBy_caught {batch : M.State → Procedure M R (List M.Update × β)}
    (proposed : ∀ state, (batch state).Confined Action.Plain fun _ => True) {result : Except CoreError β}
    (leads : ((d.replica place).updateBy batch).run.Leads me t result t') :
    d.arrears me t' = d.arrears me t ∧ ∀ value, result = .ok value → d.Lagging t' me.place = false := by
  have proposed := Replica.batches_plain proposed
  rcases Attempt.leads_bind leads with ⟨outcome, t₁, wrote, rest⟩ | ⟨cause, failed, rfl⟩
  swap
  · exact ⟨(calm.writeLoop_caught proposed failed).1, Attempt.of_failed⟩
  obtain ⟨same, settled⟩ := (calm.between (List.prefix_refl _) wrote.le rest.le).writeLoop_caught proposed wrote
  have calm := calm.between wrote.le rest.le (List.prefix_refl _)
  have counts : (do
      if outcome.written.isSome then Attempt.touch (.tally .written)
      pure outcome.result : Attempt M R β).Plain := by
    split
    · exact .bind Attempt.Plain.written fun _ => .pure _
    · exact .pure _
  exact ⟨(calm.arrears_of_leads counts rest).trans same, fun _ _ => calm.lagging_of_not (settled outcome rfl).caughtUp⟩

end Calm

end Deployment

end LogReplica
