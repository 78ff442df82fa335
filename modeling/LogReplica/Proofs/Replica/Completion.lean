import LogReplica.Proofs.Replica.Lagging
import LogReplica.Proofs.Replica.Transparency

namespace LogReplica

variable {M : Model} {R O β : Type} {me : Caller O} {t t' : Trace M R O}

structure Completed where
  written : Nat
  compactions : Nat

def Trace.completed (me : Caller O) (t : Trace M R O) : Completed where
  written := (t.recorded me).updatesWritten
  compactions := (t.recorded me).compactions

def Action.Incomplete (action : Action M R) : Prop :=
  action ≠ .touch (.tally .written) ∧ action ≠ .touch (.tally .compaction)

theorem Action.OfReading.incomplete {action : Action M R} (reading : action.OfReading) : action.Incomplete := by
  constructor <;> rintro rfl <;> exact (reading.elim id id).elim

theorem Passed.completed_eq (passed : Passed me (Deed.Within Action.Incomplete) t t') :
    t'.completed me = t.completed me := by
  have silent : ∀ deed : Deed M R, deed.Within Action.Incomplete → ∀ tally, deed.tally? = some tally →
      ∀ stats : Stats, (stats.count tally).updatesWritten = stats.updatesWritten ∧
        (stats.count tally).compactions = stats.compactions := by
    intro deed within tally counted stats
    unfold Deed.tally? at counted
    split at counted
    · cases counted
      cases tally with
      | written => exact absurd rfl within.1
      | compaction => exact absurd rfl within.2
      | _ => exact ⟨rfl, rfl⟩
    · cases counted
  have written := passed.counted Stats.updatesWritten fun deed within tally counted stats =>
    (silent deed within tally counted stats).1
  have compactions := passed.counted Stats.compactions fun deed within tally counted stats =>
    (silent deed within tally counted stats).2
  rw [Trace.completed, Trace.completed, written, compactions]

theorem Trace.completed_tally (past : Trace M R O) (tally : Tally) (answer : Unit) :
    Trace.completed me (past ++ [⟨me, .acted (.touch (.tally tally)) answer⟩]) =
      ⟨((past.recorded me).count tally).updatesWritten, ((past.recorded me).count tally).compactions⟩ := by
  rw [Trace.completed, Trace.recorded_concat]
  rfl

namespace Deployment

variable {d : Deployment M} {ρ : Conduct M R O} {place : Nat}

/-- What a loop of writes has come to: nothing that was proposed, or one record that has landed where it was expected
to. -/
inductive Looped (d : Deployment M) (ρ : Conduct M R O) (me : Caller O) (kind : Option M.Record → Prop)
    (t t' : Trace M R O) : Option (Revision × Revision) → Prop
  | unwritten (quiet : Went (d.law ρ) me (Deed.Quiet d.segment) t t') (fits : kind none) : Looped d ρ me kind t t' none
  | wrote {expected written : Revision} (record : M.Record) (entry : Entry) (past t₁ : Trace M R O)
    (before : Went (d.law ρ) me (Deed.Quiet d.segment) t past) (landed : d.Landed ρ me record entry past t₁)
    (fits : kind (some record)) (after : Went (d.law ρ) me (Deed.Quiet d.segment) t₁ t')
    (here : expected.segment = d.segment) (begins : expected.offset = entry.offset) :
    Looped d ρ me kind t t' (some (expected, written))

theorem Landed.alone {record : M.Record} {entry : Entry} {past t₁ : Trace M R O}
    (landed : d.Landed ρ me record entry past t₁) (before : Went (d.law ρ) me (Deed.Quiet d.segment) t past)
    (after : Went (d.law ρ) me (Deed.Quiet d.segment) t₁ t') (only : Trace.Only me t t') :
    d.log t' = d.log t ++ [entry] ∧ d.oldest t' = d.oldest t := by
  obtain ⟨log₀, buffer₀⟩ := still_of_only before
    (only.between (List.prefix_refl _) before.le (landed.did.le.trans after.le))
  obtain ⟨log₁, buffer₁⟩ := still_of_only after
    (only.between (before.le.trans landed.did.le) after.le (List.prefix_refl _))
  have oldest₀ : d.oldest past = d.oldest t := congrArg Framed.start buffer₀
  have oldest₁ : d.oldest t' = d.oldest t₁ := congrArg Framed.start buffer₁
  exact ⟨by rw [log₁, landed.log, log₀], by rw [oldest₁, landed.bounds.2, oldest₀]⟩

theorem Looped.still {kind : Option M.Record → Prop} {written : Option (Revision × Revision)}
    (looped : d.Looped ρ me kind t t' written) (only : Trace.Only me t t') : d.oldest t' = d.oldest t := by
  cases looped with
  | unwritten quiet => exact congrArg Framed.start (still_of_only quiet only).2
  | wrote record entry past t₁ before landed _ after => exact (landed.alone before after only).2

section Looping

variable {kind : Option M.Record → Prop} {propose : M.State → Procedure M R (Option M.Record × β)}
  {left attempts : Nat} (lawful : Lawful (d.law ρ) t')

include lawful

theorem writeLoop_leads (own : d.Proposes ρ me t (fun _ => True) kind propose) {outcome : WriteOutcome β}
    (leads : ((d.replica place).writeLoop propose left attempts).run.Leads me t (.ok outcome) t') :
    Looped d ρ me kind t t' outcome.written := by
  refine Attempt.promised (fun outcome t' => Looped d ρ me kind t t' outcome.written) leads lawful
    (writeLoop_safe place own left attempts (Went.refl (lawful.of_le leads.le)) (fun _ _ => trivial) ?_ ?_
      fun _ _ _ _ => trivial)
  · exact fun _ _ quiet fits => .unwritten quiet fits
  · exact fun _ _ _ record entry past t₁ t' before landed fits after here begins =>
      .wrote record entry past t₁ before landed fits after here begins

omit lawful in
theorem writeLoop_completed (proposed : ∀ state, (propose state).Confined Action.Incomplete fun _ => True)
    {result : Except CoreError (WriteOutcome β)}
    (leads : ((d.replica place).writeLoop propose left attempts).run.Leads me t result t') :
    t'.completed me = t.completed me := by
  have fits : ∀ state, (propose state).Confined Action.Incomplete fun proposal =>
      ∀ record, proposal.1 = some record → True :=
    fun state => (proposed state).mono (fun _ => id) fun _ _ _ _ => trivial
  exact (leads.passed ((d.replica place).writeLoop_within (fun _ => Action.OfReading.incomplete)
    (fun _ _ _ _ _ => ⟨nofun, nofun⟩) ⟨nofun, nofun⟩ (fun _ => ⟨nofun, nofun⟩) fits left attempts)).completed_eq

end Looping

inductive Updated (d : Deployment M) (ρ : Conduct M R O) (me : Caller O) (kind : Option M.Record → Prop)
    (t t' : Trace M R O) : Prop
  | unwritten (quiet : Went (d.law ρ) me (Deed.Quiet d.segment) t t') (fits : kind none)
    (same : t'.completed me = t.completed me)
  | wrote (record : M.Record) (entry : Entry) (past t₁ : Trace M R O)
    (before : Went (d.law ρ) me (Deed.Quiet d.segment) t past) (landed : d.Landed ρ me record entry past t₁)
    (fits : kind (some record)) (after : Went (d.law ρ) me (Deed.Quiet d.segment) t₁ t')
    (counted : t'.completed me = { t.completed me with written := (t.completed me).written + 1 })

theorem updateBy_leads {batch : M.State → Procedure M R (List M.Update × β)} {kind : Option M.Record → Prop} {value : β}
    (own : d.Proposes ρ me t (fun _ => True) kind fun state => do
      let (updates, result) ← batch state
      pure (if updates.isEmpty then none else some (.updates updates), result))
    (proposed : ∀ state, (batch state).Confined Action.Incomplete fun _ => True) (lawful : Lawful (d.law ρ) t')
    (leads : ((d.replica place).updateBy batch).run.Leads me t (.ok value) t') : d.Updated ρ me kind t t' := by
  rcases Attempt.leads_bind leads with ⟨outcome, t₁, looped, rest⟩ | ⟨_, _, ⟨⟩⟩
  have proposed : ∀ state, (do
      let (updates, result) ← batch state
      pure (if updates.isEmpty then none else some (.updates updates), result) :
        Procedure M R (Option M.Record × β)).Confined Action.Incomplete fun _ => True :=
    fun state => .bind ((proposed state).mono (fun _ => id) fun _ _ => trivial)
  have same := writeLoop_completed proposed looped
  have ended := writeLoop_leads (lawful.of_le rest.le) own looped
  obtain ⟨_, written⟩ := outcome
  cases ended with
  | unwritten quiet fits =>
    cases rest
    exact .unwritten quiet fits same
  | wrote record entry past t₂ before landed fits after =>
    obtain ⟨past', _, idled, rest⟩ := Attempt.leads_touch_bind rest
    cases rest
    have quiet : Went (d.law ρ) me (Deed.Quiet d.segment) t₁ _ := (idled.step trivial).went lawful
    refine .wrote record entry past t₂ before landed fits (after.trans quiet) ?_
    rw [Trace.completed_tally, idled.recorded_eq nofun, ← same]
    rfl

structure Concluded (d : Deployment M) (ρ : Conduct M R O) (me : Caller O)
    (loop : Attempt M R (WriteOutcome Unit)) (target : Revision) (t t₁ t' : Trace M R O) : Prop where
  looped : ∃ revision, loop.run.Leads me t (.ok ⟨(), some (target, revision)⟩) t₁
  still : Trace.Only me t t₁ → d.oldest t₁ = d.oldest t
  advancing : Passed me (Deed.Within Action.Plain) t₁ t'
  advanced : d.Advanced ρ me target.offset t₁ t'
  compacted : d.Compacted ρ me t t'
  counted : t'.completed me = { t.completed me with compactions := (t.completed me).compactions + 1 }

theorem compactBy_leads {summary : M.State → Procedure M R M.Snapshot} (compacts : ρ.compacts me.operation)
    (own : d.Proposes ρ me t (fun _ => True) (fun proposal => ∃ snapshot, proposal = some (.init snapshot))
      fun state => do
        let snapshot ← summary state
        pure (some (.init snapshot), ()))
    (proposed : ∀ state, (summary state).Confined Action.Incomplete fun _ => True) (lawful : Lawful (d.law ρ) t')
    (leads : ((d.replica place).compactBy summary).run.Leads me t (.ok ()) t') :
    ∃ target t₁, d.Concluded ρ me ((d.replica place).writeWithRetry fun state => do
      let snapshot ← summary state
      pure (some (.init snapshot), ())) target t t₁ t' := by
  rcases Attempt.leads_bind leads with ⟨⟨_, written⟩, t₁, looped, rest⟩ | ⟨_, _, ⟨⟩⟩
  have proposed : ∀ state, (do
      let snapshot ← summary state
      pure (some (.init snapshot), ()) : Procedure M R (Option M.Record × Unit)).Confined Action.Incomplete
        fun _ => True :=
    fun state => .bind ((proposed state).mono (fun _ => id) fun _ _ => trivial)
  have same := writeLoop_completed proposed looped
  have ended := writeLoop_leads (lawful.of_le rest.le) own looped
  have still := ended.still
  cases ended with
  | unwritten quiet fits => obtain ⟨_, ⟨⟩⟩ := fits
  | @wrote expected revision record entry past t₂ before landed fits after here begins =>
    obtain ⟨snapshot, ⟨⟩⟩ := fits
    obtain ⟨past', _, idled, rest⟩ := Attempt.leads_touch_bind rest
    have quiet : Went (d.law ρ) me (Deed.Quiet d.segment) t₁ _ := (idled.step trivial).went (lawful.of_le rest.le)
    have after' := after.trans quiet
    have wrote := (landed.wrote.mono after'.le : d.Wrote _ me entry.offset)
    have advanced : d.Advanced ρ me expected.offset _ t' :=
      Attempt.promised (fun _ t' => d.Advanced ρ me expected.offset _ t') rest lawful
        (advanceMark_safe place (fun _ _ _ _ => trivial) compacts here (begins ▸ wrote) (fun _ advanced => advanced)
          fun _ _ _ _ _ _ _ _ _ _ => trivial)
    have counts : (.acted (.touch (.tally .compaction)) () : Deed M R).Within Action.Plain :=
      Action.Plain.of_touch nofun nofun
    have plain := (d.replica place).advanceMark_within (M := M) (R := R) (fun _ asks => asks.inquires.plain) expected
      (fun _ _ _ => ⟨nofun, nofun⟩) (fun _ => ⟨nofun, nofun⟩) (.of_touch nofun nofun)
    have incomplete := (d.replica place).advanceMark_within (M := M) (R := R)
      (fun _ asks => Action.OfReading.incomplete (.inl asks.reads)) expected (fun _ _ _ => ⟨nofun, nofun⟩)
      (fun _ => ⟨nofun, nofun⟩) ⟨nofun, nofun⟩
    refine ⟨expected, t₁, ⟨revision, looped⟩, still, Passed.trans (idled.of_idled.concat counts) (rest.passed plain),
      advanced.since quiet, ⟨snapshot, entry, past, t₂, before, landed, begins ▸ advanced.since after'⟩, ?_⟩
    rw [(rest.passed incomplete).completed_eq, Trace.completed_tally, idled.recorded_eq nofun, ← same]
    rfl

theorem Advanced.oldest_le {target : Nat} (advanced : d.Advanced ρ me target t t') (only : Trace.Only me t t') :
    d.oldest t' ≤ max (d.oldest t) target := by
  have kept : ∀ {a b : Trace M R O}, Went (d.law ρ) me (Deed.Quiet d.segment) a b → t <+: a → b <+: t' →
      d.oldest b = d.oldest a := fun quiet early late =>
    congrArg Framed.start (still_of_only quiet (only.between early quiet.le late)).2
  cases advanced with
  | superseded t₁ _ before _ _ after =>
    rw [kept after before.le (List.prefix_refl _), kept before (List.prefix_refl _) after.le]
    exact Nat.le_max_left _ _
  | lost t₁ t₂ before between _ after =>
    have late := between.le.trans after.le
    rw [kept after (before.le.trans between.le) (List.prefix_refl _), kept between before.le after.le,
      kept before (List.prefix_refl _) late]
    exact Nat.le_max_left _ _
  | done expected t₁ t₂ t₃ t₄ before moved between cut after =>
    have late := between.le.trans (cut.le.trans after.le)
    have early := before.le.trans moved.le
    refine Nat.le_of_eq ?_
    rw [kept after (early.trans (between.le.trans cut.le)) (List.prefix_refl _), cut.oldest_eq.1,
      kept between early (cut.le.trans after.le), moved.mark_eq.2.1,
      kept before (List.prefix_refl _) (moved.le.trans late)]

theorem Concluded.caught {propose : M.State → Procedure M R (Option M.Record × Unit)} {target : Revision}
    {t₁ : Trace M R O} (proposed : ∀ state, (propose state).Confined Action.Plain fun _ => True)
    (concluded : d.Concluded ρ me ((d.replica place).writeWithRetry propose) target t t₁ t') (only : Trace.Only me t t')
    (lawful : Lawful (d.law ρ) t') (candid : t'.Candid) (polite : ¬ρ.raw me.operation) (whole : d.oldest t = 0) :
    (t'.recorded me).truncationRecoveries = d.arrears me t ∧ d.Lagging t' me.place = false := by
  obtain ⟨revision, looped⟩ := concluded.looped
  have le := concluded.advancing.le
  have still := concluded.still (only.between (List.prefix_refl _) looped.le le)
  have calm : d.Calm ρ me t t₁ :=
    ⟨lawful.of_le le, candid.of_le le, polite, looped.le, still, .inl (still.trans whole)⟩
  obtain ⟨same, settled⟩ := calm.writeLoop_caught proposed looped
  obtain ⟨caughtUp, reached⟩ := settled _ rfl
  obtain ⟨copy, cached, far⟩ := reached target revision rfl
  obtain ⟨copy', cached', further⟩ := noOlder lawful le me.place copy cached
  have low := concluded.advanced.oldest_le (only.between looped.le le (List.prefix_refl _))
  constructor
  · rw [← same, arrears, caughtUp]
    exact recoveries_eq concluded.advancing.unrecovering
  · simp only [Lagging, cached, cached', Option.any_some, decide_eq_false_iff_not] at caughtUp ⊢
    omega

theorem writeInitial_cached {latest : Revision} {snapshot : M.Snapshot}
    (leads : ((d.replica place).writeInitial latest snapshot).run.Leads me t (.ok true) t') :
    t'.cache me.place ≠ none := by
  rcases Attempt.leads_bind leads with ⟨written, t₁, _, leads⟩ | ⟨_, _, ⟨⟩⟩
  cases written with
  | none => cases leads
  | some revision =>
    obtain ⟨past, _, _, leads⟩ := Attempt.leads_touch_bind leads
    cases leads
    rw [Trace.cache, World.memories_touched]
    exact Option.some_ne_none _

theorem writeInitial_unrecovering (r : Replica M) (latest : Revision) (snapshot : M.Snapshot) :
    (r.writeInitial latest snapshot : Attempt M R _).Confined Action.Unrecovering fun _ => True := by
  refine .bind (r.client.writeConditionally_within (fun _ asks => asks.inquires.plain.2) latest fun _ _ => nofun)
    fun written => ?_
  cases written with
  | none => exact .pure false
  | some revision => exact .bind (.touch nofun) fun _ => .pure true

theorem establishIfAbsent_leads {snapshot : M.Snapshot} {written : Bool} (calm : d.Calm ρ me t t')
    (clean : Clean ρ t') (founds : ρ.founds me.operation) (caughtUp : d.Lagging t me.place = false)
    (leads : ((d.replica place).establishIfAbsent snapshot).run.Leads me t (.ok written) t') :
    d.arrears me t' = d.arrears me t ∧ t'.cache me.place ≠ none := by
  obtain ⟨t₁, t₂, calm', held, inside, before, after, first, _, le⟩ := calm.leads_locked leads
  have kept : t₂.cache me.place ≠ none → t'.cache me.place ≠ none := by
    intro here none
    obtain ⟨copy, cached⟩ := Option.ne_none_iff_exists'.mp here
    obtain ⟨_, there, _⟩ := noOlder calm.lawful le me.place copy cached
    rw [none] at there
    cases there
  suffices settled : d.arrears me t₂ = d.arrears me t₁ ∧ t₂.cache me.place ≠ none by
    rw [after, settled.1, before]
    exact ⟨rfl, kept settled.2⟩
  rw [caughtUp] at first
  rcases Attempt.leads_bind inside with ⟨oldest, t₃, saw, inside⟩ | ⟨_, _, ⟨⟩⟩
  rcases Attempt.leads_bind inside with ⟨latest, t₄, looked, inside⟩ | ⟨_, _, ⟨⟩⟩
  have lawful₄ := calm'.lawful.of_le inside.le
  have lawful₃ := lawful₄.of_le looked.le
  obtain rfl := fetchOldest_leads lawful₃ saw
  obtain rfl := fetchLatest_leads lawful₄ looked
  have plain : Passed me (Deed.Within Action.Plain) t₁ t₄ :=
    (saw.passed (d.client place).fetchOldest_confined.plain).trans
      (looked.passed (d.client place).fetchLatest_confined.plain)
  have held₃ := (went_of_inquiring (d.client place).fetchOldest_confined saw lawful₃).tends.holds held
  have held₄ := (went_of_inquiring (d.client place).fetchLatest_confined looked lawful₄).tends.holds held₃
  have catches : ∀ {t₅ answer}, Passed me (Deed.Within Action.Unrecovering) t₁ t₅ → d.log t₅ ≠ [] →
      (World.after t₅).holders me.place .cache = some me.call →
      (do (d.replica place).catchUp; pure false : Attempt M R Bool).run.Leads me t₅ (.ok answer) t₂ →
      d.arrears me t₂ = d.arrears me t₁ ∧ t₂.cache me.place ≠ none := by
    intro t₅ answer passed begun held₅ leads
    rcases Attempt.leads_bind leads with ⟨_, t₆, caught, leads⟩ | ⟨_, _, ⟨⟩⟩
    cases leads
    have same := (calm'.between (List.prefix_refl _) passed.le caught.le).arrears_of_unrecovering first passed
    have same' := ((calm'.between passed.le caught.le (List.prefix_refl _)).catchUp_caught held₅ caught).1
    have abreast := Attempt.promised (fun _ t' => d.Abreast me t₅ t') caught calm'.lawful
      (catchUp_safe place (fun _ _ => trivial) (fun _ _ abreast => abreast) (fun _ _ _ _ => trivial) held₅)
    obtain ⟨copy, cached, _⟩ := abreast.exists_copy calm'.lawful (clean.of_le le) begun
    rw [cached]
    exact ⟨same'.trans same, nofun⟩
  dsimp only at inside
  split at inside
  · rcases Attempt.leads_bind inside with ⟨written, t₅, tried, rest⟩ | ⟨_, _, ⟨⟩⟩
    have lawful₅ := calm'.lawful.of_le rest.le
    have passed := plain.unrecovering.trans (tried.passed (writeInitial_unrecovering _ _ _))
    cases written with
    | true =>
      cases rest
      exact ⟨calm'.arrears_of_unrecovering first passed, writeInitial_cached tried⟩
    | false =>
      let post (written : Bool) (t : Trace M R O) : Prop := written = false →
        d.log t ≠ [] ∧ (World.after t).holders me.place .cache = some me.call
      obtain ⟨begun, held₅⟩ := Attempt.promised post tried lawful₅
        (writeInitial_safe place founds ⟨t₃, looked.le, rfl⟩ held₄ (fun _ _ _ _ _ _ _ _ => nofun)
          (fun t went apart _ => ⟨written_of_apart went.lawful (looked.le.trans went.le) apart,
            (went.mono fun _ tries => tries.2).retains held₄⟩) fun _ _ _ _ => trivial) rfl
      exact catches passed begun held₅ rest
  · rename_i apart
    refine catches plain.unrecovering (written_of_apart lawful₄ looked.le fun same => apart ?_) held₄ inside
    exact ⟨rfl, same.symm⟩

end Deployment

end LogReplica
