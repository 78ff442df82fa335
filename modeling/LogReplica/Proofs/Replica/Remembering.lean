import LogReplica.Proofs.Concurrency.Duty
import LogReplica.Proofs.Replica.Numbering
import LogReplica.Proofs.Replica.Runs

namespace LogReplica

variable {M : Model} {R O : Type}

def Action.Forgoes (action : Action M R) : Prop := ∀ slot, action ≠ .touch (.remember slot)

theorem Action.Inquires.forgoes {action : Action M R} (inquires : action.Inquires) : action.Forgoes := by
  rintro slot rfl
  exact inquires

def Action.Abstains : Action M R → Prop
  | .ask _ (.append ..) => False
  | .touch x => x.takes? = none ∧ x.gives? = none ∧ ∀ slot, x ≠ .remember slot
  | _ => True

theorem Action.Inquires.abstains {action : Action M R} (inquires : action.Inquires) : action.Abstains := by
  cases action with
  | ask segment request => cases request <;> first | exact inquires.elim | trivial
  | generate | summarize | abort => trivial
  | touch x => cases x <;> first | exact inquires.elim | exact ⟨rfl, rfl, nofun⟩

theorem Replica.pause_abstains (r : Replica M) (attempt : Nat) :
    Attempt.Confined Action.Abstains (fun _ => True) (ExceptT.lift (r.pause attempt) : Attempt M R Unit) :=
  .lift (r.pause_confined attempt trivial fun _ => ⟨rfl, rfl, nofun⟩)

namespace Deed

variable {deed : Deed M R}

theorem looks_of_inquires (within : deed.Within Action.Inquires) : deed.Looks := by
  cases deed with
  | called | gaveUp => exact within
  | failed => trivial
  | acted action answer =>
    cases action with
    | ask => exact within
    | generate | summarize => exact within.elim
    | abort => exact nomatch answer
    | touch x => cases x <;> trivial

theorem tends_of_reads (within : deed.Within Action.Reads) : deed.Tends := by
  cases deed with
  | called | gaveUp => exact within
  | failed => trivial
  | acted action answer =>
    cases action with
    | ask => exact within
    | generate | summarize => exact within.elim
    | abort => exact nomatch answer
    | touch x => cases x <;> first | exact within.elim | trivial

theorem retains_of_abstains (within : deed.Within Action.Abstains) : deed.Retains := by
  cases deed with
  | called | gaveUp => exact within
  | failed => trivial
  | acted action answer =>
    cases action with
    | ask | generate | summarize => trivial
    | abort => exact nomatch answer
    | touch x => exact ⟨within.1, within.2.1⟩

end Deed

/-- The copy that a call writes on top of: what was in its cache when it gave back the lock, the last time so far. -/
structure Drafts (me : Caller O) (copy : Revisioned M.State) (seen past : Trace M R O) : Prop where
  left : ∃ before, seen = before ++ [⟨me, .acted (.touch .unlockCache) ()⟩]
  cached : seen.cache me.place = some copy
  passed : Passed me (Deed.Leaves .cache) seen past

namespace Drafts

variable {me : Caller O} {copy copy' : Revisioned M.State} {seen seen' past past' : Trace M R O}

theorem mono (drafts : Drafts me copy seen past) (passed : Passed me (Deed.Leaves .cache) past past') :
    Drafts me copy seen past' := ⟨drafts.left, drafts.cached, drafts.passed.trans passed⟩

theorem unique (drafts : Drafts me copy seen past) (drafts' : Drafts me copy' seen' past) :
    seen = seen' ∧ copy = copy' := by
  have shorter : ∀ {copy copy' : Revisioned M.State} {seen seen' : Trace M R O}, Drafts me copy seen past →
      Drafts me copy' seen' past → seen <+: seen' → seen = seen' := by
    intro copy copy' seen seen' drafts drafts' le
    obtain ⟨before, rfl⟩ := drafts'.left
    rcases List.prefix_concat_iff.mp le with same | ⟨rest, rfl⟩
    · exact same
    · obtain ⟨more, rfl, own⟩ := drafts.passed
      obtain ⟨more', split, _⟩ := drafts'.passed
      have gave : (⟨me, .acted (.touch .unlockCache) ()⟩ : Event M R O) ∈ more := by
        rw [List.append_assoc, List.append_assoc] at split
        rw [List.append_cancel_left split]
        simp
      exact absurd rfl (own _ gave rfl).2
  have same : seen = seen' := by
    rcases List.prefix_or_prefix_of_prefix drafts.passed.le drafts'.passed.le with first | second
    · exact shorter drafts drafts' first
    · exact (shorter drafts' drafts second).symm
  subst same
  exact ⟨rfl, Option.some.inj (drafts.cached.symm.trans drafts'.cached)⟩

end Drafts

namespace Deployment

variable {d : Deployment M} {ρ : Conduct M R O} {me : Caller O} {t t' : Trace M R O} {slot : Replica.Cached M}
  {place : Nat}

inductive Remembers (d : Deployment M) (ρ : Conduct M R O) (me : Caller O) (past : Trace M R O) :
    Replica.Cached M → Prop
  | replayed {slot : Replica.Cached M} (start : Revision) (begins : d.Begins past (past.cache me.place) start)
    (passes : d.Passes past (past.cache me.place) start slot) : Remembers d ρ me past slot
  | rebuilt (entered : Trace M R O) (held : (World.after entered).holders me.place .cache = some me.call)
    (tended : Went (d.law ρ) me Deed.Tends entered past) (copy : Revisioned M.State) (counted : d.Counted past copy)
    (behind : ∀ old, past.cache me.place = some old → Trace.CandidSince me entered past →
      old.revision.offset < d.oldest past ∧ old.revision.offset < copy.revision.offset) :
    Remembers d ρ me past (some copy)
  | founded (founds : ρ.founds me.operation) (record : M.Record) (entry : Entry) (before after : Trace M R O)
    (began : ∃ earlier, earlier <+: before ∧ d.oldest earlier = entry.offset)
    (landed : d.Landed ρ me record entry before after)
    (held : (World.after after).holders me.place .cache = some me.call)
    (looked : Went (d.law ρ) me Deed.Looks after past) (copy : Revisioned M.State)
    (resumed : d.resume none 0 [entry] = .ok (some copy)) : Remembers d ρ me past (some copy)
  | applied (copy current next : Revisioned M.State) (cached : past.cache me.place = some current)
    (same : current.revision.SamePosition copy.revision) (record : M.Record) (entry : Entry)
    (seen before after : Trace M R O) (drafts : Drafts me copy seen before)
    (landed : d.Landed ρ me record entry before after) (by_ : after <+: past)
    (begins : entry.offset = copy.revision.offset)
    (handed : d.hand (some current) (entry, ⟨d.segment, entry.endOffset, copy.revision.event + 1⟩) = .ok (some next)) :
    Remembers d ρ me past (some next)

theorem Remembers.later (remembers : d.Remembers ρ me t slot)
    (held : (World.after t).holders me.place .cache = some me.call) (went : Went (d.law ρ) me Deed.Looks t t') :
    d.Remembers ρ me t' slot := by
  have same := went.cache_eq held
  cases remembers with
  | replayed start begins passes =>
    rw [← same] at begins passes
    exact .replayed start (begins.mono went.le) (passes.mono went.le)
  | rebuilt entered held' tended copy counted behind =>
    refine .rebuilt entered held' (tended.trans went.tends) copy (counted.mono went.le) fun old cached candid => ?_
    obtain ⟨low, further⟩ := behind old (same ▸ cached) (candid.of_le went.le)
    exact ⟨Nat.lt_of_lt_of_le low (oldest_le went.lawful went.le), further⟩
  | founded founds record entry before after began landed held' looked copy resumed =>
    exact .founded founds record entry before after began landed held' (looked.trans went) copy resumed
  | applied copy current next cached position record entry seen before after drafts landed by_ begins handed =>
    exact .applied copy current next (same.trans cached) position record entry seen before after drafts landed
      (by_.trans went.le) begins handed

variable (d) in
/-- What a call owes for what it puts into its cache, and for a record that it lets follow from that. -/
def upkeep (ρ : Conduct M R O) : Law M R O := fun past me action =>
  match action with
  | .touch (.remember slot) => d.Remembers ρ me past slot
  | .ask _ (.append expected _) => ρ.raw me.operation ∨ ρ.founds me.operation ∨
    ∃ copy seen, Drafts me copy seen past ∧ expected = some copy.revision.offset
  | _ => True

theorem upkeep_of_abstaining {past : Trace M R O} {action : Action M R} (abstains : action.Abstains) :
    d.upkeep ρ past me action := by
  unfold upkeep
  split
  · exact absurd rfl (abstains.2.2 _)
  · exact abstains.elim
  · trivial

section Paths

theorem went_of_inquiring {β : Type} {p : Procedure M R β} {holds : β → Prop} {b : β}
    (confined : p.Confined Action.Inquires holds) (leads : p.Leads me t b t') (lawful : Lawful (d.law ρ) t') :
    Went (d.law ρ) me Deed.Looks t t' :=
  ((leads.passed confined).mono fun _ => Deed.looks_of_inquires).went lawful

theorem cached_leads (lawful : Lawful (d.law ρ) t')
    (leads : (Attempt.touch .cached : Attempt M R (Replica.Cached M)).run.Leads me t (.ok slot) t') :
    Went (d.law ρ) me Deed.Looks t t' ∧ t'.cache me.place = slot :=
  Attempt.promised (fun slot t' => Went (d.law ρ) me Deed.Looks t t' ∧ t'.cache me.place = slot) leads lawful
    (cached_safe fun _ _ went cached => ⟨went, cached⟩)

variable (d) in
def reader (place : Nat) (start : Revision) (t : Trace M R O) : Reader M.Record where
  client := d.client place
  nextOffset := start.offset
  endOffset := ending 0 (d.log t)
  ordinal := start.event

theorem readFrom_leads {start : Revision} (here : start.segment = d.segment) {reader : Reader M.Record}
    (lawful : Lawful (d.law ρ) t') (leads : ((d.client place).readFrom start).run.Leads me t (.ok reader) t') :
    reader = d.reader place start t' := by
  refine Attempt.promised (fun reader t' => reader = d.reader place start t') leads lawful ?_
  exact readFrom_safe (fun _ _ _ _ _ => trivial) place here (fun _ _ _ => rfl) fun _ _ _ => trivial

theorem freshStart_leads {restart : Revision} (lawful : Lawful (d.law ρ) t')
    (leads : (d.replica place).freshStart.run.Leads me t (.ok restart) t') :
    ∃ offset, restart = ⟨d.segment, offset, 0⟩ ∧ d.RestartAt t' offset := by
  let fresh (restart : Revision) (t' : Trace M R O) : Prop :=
    ∃ offset, restart = ⟨d.segment, offset, 0⟩ ∧ d.RestartAt t' offset
  refine Attempt.promised fresh leads lawful (freshStart_safe (fun _ _ _ _ _ => trivial) place ?_)
  exact fun offset _ _ restarts => ⟨offset, rfl, restarts⟩

theorem fetchOldest_leads {revision : Revision} (lawful : Lawful (d.law ρ) t')
    (leads : (d.client place).fetchOldest.run.Leads me t (.ok revision) t') :
    revision = ⟨d.segment, d.oldest t', 0⟩ :=
  Attempt.promised (fun revision t' => revision = ⟨d.segment, d.oldest t', 0⟩) leads lawful
    (fetchOldest_safe (fun _ _ _ _ _ => trivial) place fun _ _ => rfl)

theorem fetchLatest_leads {revision : Revision} (lawful : Lawful (d.law ρ) t')
    (leads : (d.client place).fetchLatest.run.Leads me t (.ok revision) t') :
    revision = ⟨d.segment, ending 0 (d.log t'), 0⟩ :=
  Attempt.promised (fun revision t' => revision = ⟨d.segment, ending 0 (d.log t'), 0⟩) leads lawful
    (fetchLatest_safe (fun _ _ _ _ _ => trivial) place fun _ _ => rfl)

theorem replayRecords_reaches {position : Nat} {reader : Reader M.Record} {copy : Revisioned M.State}
    (lawful : Lawful (d.law ρ) t') (reads : d.Reads place t reader position) (aligned : d.Aligned t slot position)
    (leads : ((d.replica place).replayRecords slot reader : Procedure M R _).Leads me t (.ok (), some copy) t') :
    reader.endOffset ≤ copy.revision.offset := by
  let post (answer : Except CoreError Unit × Replica.Cached M) (_ : Trace M R O) : Prop :=
    answer.1 = .ok () → ∀ copy, answer.2 = some copy → reader.endOffset ≤ copy.revision.offset
  have safe :
      ((d.replica place).replayRecords slot reader : Procedure M R _).Safe (d.law ρ) me (fun _ => True) post t := by
    refine replayRecords_safe (lawful.of_le leads.le) reads aligned (fun _ _ => trivial) ?_ fun _ _ _ _ _ _ _ _ => nofun
    intro slot' position' t' _ onward through _ copy same
    rw [(onward.aligned.copy copy same).2]
    exact through
  exact leads.promised lawful safe rfl copy rfl

theorem getRevisionedState_leads {copy : Revisioned M.State} (lawful : Lawful (d.law ρ) t')
    (leads : (d.replica place).getRevisionedState.run.Leads me t (.ok copy) t') : Drafts me copy t' t' := by
  obtain ⟨entered, t₁, left, _, inside, idled, rfl⟩ := Attempt.leads_section leads
  have lawful := lawful.of_concat.1
  have lawful₁ := lawful.of_le idled.le
  have held := World.holders_locked entered me ()
  rcases Attempt.leads_bind inside with ⟨_, t₂, caught, rest⟩ | ⟨_, _, ⟨⟩⟩
  rcases Attempt.leads_bind rest with ⟨slot, t₃, looked, rest⟩ | ⟨_, _, ⟨⟩⟩
  obtain ⟨went, cached⟩ := cached_leads (lawful₁.of_le rest.le) looked
  have tended : Passed me Deed.Tends (entered ++ [⟨me, .acted (.touch .lockCache) ()⟩]) t₂ :=
    (caught.passed (d.replica place).catchUp_confined).mono fun _ => Deed.tends_of_reads
  cases slot with
  | none => cases rest
  | some copy' =>
    cases rest
    have held₁ := went.tends.holds ((tended.went (went.lawful.of_le went.le)).holds held)
    have waited : Went (d.law ρ) me Deed.Looks t₁ left := idled.of_idled.went lawful
    refine ⟨⟨left, rfl⟩, ?_, Passed.refl _⟩
    rcases Trace.cache_concat left ⟨me, .acted (.touch .unlockCache) ()⟩ me.place with same | ⟨_, _, _, ⟨⟩, _⟩
    exact same.trans ((waited.cache_eq held₁).trans cached)

theorem writeConditionally_leads {latest revision : Revision} {record : M.Record} (lawful : Lawful (d.law ρ) t')
    (leads : ((d.client place).writeConditionally latest record).run.Leads me t (.ok (some revision)) t') :
    ∃ past entry, Went (d.law ρ) me Deed.Looks t past ∧ d.Landed ρ me record entry past t' ∧
      entry.offset = latest.offset ∧ revision = ⟨d.segment, entry.endOffset, latest.event + 1⟩ := by
  unfold Client.writeConditionally at leads
  rcases Attempt.leads_bind leads with ⟨_, t₁, checked, leads⟩ | ⟨_, _, ⟨⟩⟩
  rcases Attempt.leads_bind leads with ⟨_, t₂, checked', leads⟩ | ⟨_, _, ⟨⟩⟩
  unfold Client.encode at leads
  cases encoded : (d.client place).codec.encode record with
  | error cause =>
    rw [encoded] at leads
    cases leads
  | ok bytes =>
    rw [encoded] at leads
    rcases Attempt.leads_bind leads with ⟨_, t₃, written, leads⟩ | ⟨_, _, ⟨⟩⟩
    cases written
    rcases Attempt.leads_bind leads with ⟨outcome, t₄, asked, leads⟩ | ⟨_, _, ⟨⟩⟩
    obtain ⟨past, idled, rfl⟩ := Attempt.leads_ask asked
    have opens := Client.ensureOpen_confined (M := M) (R := R)
    have checks := (d.client place).checkSegment_confined (M := M) (R := R) latest
    have passed := ((checked.passed opens).trans (checked'.passed checks)).mono fun _ => Deed.looks_of_inquires
    have lawful₄ := lawful.of_le leads.le
    have went := (passed.trans idled.of_idled).went lawful₄.of_concat.1
    cases outcome with
    | conflict tail => cases leads
    | appended offset endOffset =>
      obtain ⟨same, landed⟩ := landed_of_answer encoded lawful₄
      dsimp only at leads
      cases counted : Revision.nextEvent? latest.event with
      | none =>
        rw [counted] at leads
        exact absurd leads Attempt.not_leads_abort
      | some event =>
        rw [counted, Revision.eq_succ_of_nextEvent? counted] at leads
        cases leads
        exact ⟨past, _, went, landed, same, rfl⟩

variable (d) in
def firstCopy (snapshot : M.Snapshot) (entry : Entry) : Revisioned M.State :=
  ⟨M.create snapshot d.name ⟨d.segment, entry.endOffset, 1⟩, ⟨d.segment, entry.endOffset, 1⟩⟩

theorem hand_init {snapshot : M.Snapshot} {entry : Entry} (decoded : d.codec.decode entry.data = .ok (.init snapshot)) :
    d.hand none (entry, ⟨d.segment, entry.endOffset, 1⟩) = .ok (some (d.firstCopy snapshot entry)) :=
  hand_eq_ok.mpr ⟨_, decoded, rfl, rfl⟩

theorem resume_init {snapshot : M.Snapshot} {entry : Entry}
    (decoded : d.codec.decode entry.data = .ok (.init snapshot)) :
    d.resume none 0 [entry] = .ok (some (d.firstCopy snapshot entry)) := by
  rw [resume_cons, hand_init decoded]
  rfl

theorem next_leads_snapshot {place offset : Nat} {reader : Reader M.Record} {revision : Revision}
    {snapshot : M.Snapshot} (lawful : Lawful (d.law ρ) t') (fresh : ∃ start, start <+: t ∧ d.RestartAt start offset)
    (leads : ((d.reader place ⟨d.segment, offset, 0⟩ t).next : Procedure M R _).Leads me t
      (.record revision (.init snapshot), reader) t') :
    ∃ e, revision = ⟨d.segment, e.endOffset, 1⟩ ∧
      d.Pulls place t' (d.reader place ⟨d.segment, offset, 0⟩ t) reader offset e (.init snapshot) 1 ∧
      d.Aligned t' (some (d.firstCopy snapshot e)) e.endOffset := by
  have aligned : d.Aligned t none offset := ⟨nofun, fun _ => fresh⟩
  obtain ⟨e, ordinal, rfl, pulls⟩ := next_leads lawful (reads_of_readFrom place (Nat.zero_le offset) t)
    (aligned.anchored (lawful.of_le leads.le)) leads
  obtain rfl : ordinal = 0 + 1 := Revision.eq_succ_of_nextEvent? pulls.counted
  exact ⟨e, rfl, pulls, aligned_of_snapshot pulls.entry (fun _ => pulls.decoded) pulls.numbered⟩

theorem Landed.passes {record : M.Record} {entry : Entry} {before after : Trace M R O}
    {current next : Revisioned M.State} (landed : d.Landed ρ me record entry before after) (le : after <+: t)
    (known : current.revision.segment = d.segment) (begins : entry.offset = current.revision.offset)
    (handed : d.hand (some current) (entry, ⟨d.segment, entry.endOffset, current.revision.event + 1⟩) =
      .ok (some next)) : d.Passes t (some current) current.revision (some next) := by
  have last : ∃ front, front ++ [entry] <+: d.log t ∧ ending 0 front = entry.offset :=
    ⟨d.log before, landed.log ▸ Trace.history_le d.segment le, landed.begins.symm⟩
  have start : (⟨d.segment, entry.offset, current.revision.event⟩ : Revision) = current.revision := by
    rw [← known, begins]
  exact start ▸ Passes.of_hand last handed

end Paths

variable (d ρ me) in
abbrev Upholds {α : Type} (x : Attempt M R α) (t : Trace M R O) : Prop :=
  Attempt.Minds (Lawful (d.law ρ)) (d.upkeep ρ) me x t

section Upholding

variable {α β : Type}

theorem upholds_of_abstaining {x : Attempt M R α} (confined : x.Confined Action.Abstains fun _ => True) :
    d.Upholds ρ me x t :=
  Procedure.Minds.of_confined confined fun _ _ => upkeep_of_abstaining

theorem upholds_touch {x : Touch M.State} (abstains : Action.Abstains (.touch x : Action M R)) :
    d.Upholds ρ me (Attempt.touch x) t :=
  .touch fun _ _ _ => upkeep_of_abstaining abstains

theorem upholds_of_lawful {x : Attempt M R α} (upholds : Lawful (d.law ρ) t → d.Upholds ρ me x t) :
    d.Upholds ρ me x t := Procedure.Minds.of_fine (fun le lawful => lawful.of_le le) upholds

theorem inquire_lift_upholds {p : Procedure M R β} {holds : β → Prop} {f : β → Attempt M R α}
    (confined : p.Confined Action.Inquires holds)
    (rest : ∀ b t', p.Leads me t b t' → Went (d.law ρ) me Deed.Looks t t' → d.Upholds ρ me (f b) t') :
    d.Upholds ρ me (ExceptT.lift p >>= f) t := by
  refine .bind_lift (.of_confined confined fun _ _ inquires => upkeep_of_abstaining inquires.abstains) ?_
  intro b t' leads
  exact upholds_of_lawful fun lawful => rest b t' leads (went_of_inquiring confined leads lawful)

theorem inquire_upholds {x : Attempt M R β} {f : β → Attempt M R α} (inquiring : x.Inquiring)
    (rest : ∀ b t', x.run.Leads me t (.ok b) t' → Went (d.law ρ) me Deed.Looks t t' → d.Upholds ρ me (f b) t') :
    d.Upholds ρ me (x >>= f) t := by
  refine .bind (upholds_of_abstaining (inquiring.within fun _ => Action.Inquires.abstains)) fun b t' leads => ?_
  exact upholds_of_lawful fun lawful => rest b t' leads (went_of_inquiring inquiring leads lawful)

theorem tally_upholds {tally : Tally} {f : Unit → Attempt M R α}
    (rest : ∀ t', Went (d.law ρ) me Deed.Looks t t' → d.Upholds ρ me (f ()) t') :
    d.Upholds ρ me (Attempt.touch (.tally tally) >>= f) t := by
  refine .bind (upholds_touch ⟨rfl, rfl, nofun⟩) fun _ t' leads => upholds_of_lawful fun lawful => ?_
  obtain ⟨past, _, idled, rfl, _⟩ := Attempt.leads_touch leads
  exact rest _ ((idled.step trivial).went lawful)

theorem remember_upholds (held : (World.after t).holders me.place .cache = some me.call)
    (owed : Lawful (d.law ρ) t → d.Remembers ρ me t slot) : d.Upholds ρ me (Attempt.touch (.remember slot)) t := by
  refine .touch fun past idled lawful => ?_
  have waited : Went (d.law ρ) me Deed.Looks t past := idled.of_idled.went lawful
  exact (owed (lawful.of_le idled.le)).later held waited

theorem replayFrom_upholds {start : Revision} (held : (World.after t).holders me.place .cache = some me.call)
    (cached : t.cache me.place = slot) (here : start.segment = d.segment) (numbered : start.event ≤ start.offset)
    (aligned : d.Aligned t slot start.offset) (begins : d.Begins t slot start) :
    d.Upholds ρ me ((d.replica place).replayFrom slot start) t := by
  unfold Replica.replayFrom
  refine inquire_upholds ((d.client place).readFrom_confined start) ?_
  intro reader t₁ opened went₁
  obtain rfl := readFrom_leads here went₁.lawful opened
  refine inquire_lift_upholds ((d.replica place).replayRecords_confined slot _) ?_
  rintro ⟨result, slot'⟩ t₂ replayed went₂
  have went := went₁.trans went₂
  refine .bind (remember_upholds (went.tends.holds held) fun _ => ?_) fun _ t₃ _ => by cases result <;> trivial
  have start' : (⟨d.segment, start.offset, start.event⟩ : Revision) = start := by rw [← here]
  have passes := replayRecords_passes went₂.lawful (reads_of_readFrom place numbered t₁) (aligned.mono went₁.le)
    replayed
  rw [← cached, ← went.cache_eq held] at begins passes
  exact .replayed start (begins.mono went.le) (start' ▸ passes)

theorem approach_upholds (held : (World.after t).holders me.place .cache = some me.call) :
    d.Upholds ρ me (d.replica place).approach t := by
  unfold Replica.approach
  refine .bind (upholds_touch ⟨rfl, rfl, nofun⟩) fun slot t₁ looked => upholds_of_lawful fun lawful₁ => ?_
  obtain ⟨went, cached⟩ := cached_leads lawful₁ looked
  have held₁ := went.tends.holds held
  cases slot with
  | some copy =>
    refine .bind trivial fun start t₂ begun => ?_
    cases begun
    have known := placed lawful₁ cached
    refine .lift (replayFrom_upholds held₁ cached known.segment known.numbered ⟨?_, nofun⟩ ⟨?_, nofun⟩)
    · rintro _ ⟨⟩
      exact ⟨known, rfl⟩
    · rintro _ ⟨⟩
      rfl
  | none =>
    refine inquire_upholds (d.replica place).freshStart_confined ?_
    intro start t₂ begun went₂
    obtain ⟨offset, rfl, restarts⟩ := freshStart_leads went₂.lawful begun
    have fresh : ∃ start, start <+: t₂ ∧ d.RestartAt start offset := ⟨t₂, List.prefix_refl _, restarts⟩
    exact .lift (replayFrom_upholds (went₂.tends.holds held₁) ((went₂.cache_eq held₁).trans cached) rfl
      (Nat.zero_le _) ⟨nofun, fun _ => fresh⟩ ⟨nofun, fun _ => ⟨rfl, fresh⟩⟩)

theorem recover_upholds {cause : CoreError} {entered : Trace M R O}
    (entering : (World.after entered).holders me.place .cache = some me.call)
    (tended : Went (d.law ρ) me Deed.Tends entered t)
    (behind : ∀ old, t.cache me.place = some old → Trace.CandidSince me entered t → old.revision.offset < d.oldest t) :
    d.Upholds ρ me ((d.replica place).recover cause) t := by
  have held := tended.holds entering
  unfold Replica.recover
  refine inquire_upholds (d.replica place).freshStart_confined ?_
  intro restart t₁ begun went₁
  obtain ⟨offset, rfl, restarts⟩ := freshStart_leads went₁.lawful begun
  refine inquire_upholds ((d.client place).readFrom_confined _) ?_
  intro reader t₂ opened went₂
  obtain rfl := readFrom_leads rfl went₂.lawful opened
  have fresh : ∃ start, start <+: t₂ ∧ d.RestartAt start offset := ⟨t₁, opened.le, restarts⟩
  refine inquire_lift_upholds (Reader.next_confined _) ?_
  rintro ⟨given, reader⟩ t₃ pulled went₃
  cases given with
  | failed | finished => trivial
  | uncounted => exact upholds_of_abstaining (.abort trivial)
  | record revision record =>
    cases record with
    | updates batch => trivial
    | init snapshot =>
      obtain ⟨e, rfl, pulls, aligned⟩ := next_leads_snapshot went₃.lawful fresh pulled
      have passes : d.Passes t₃ none ⟨d.segment, offset, 0⟩ (some (d.firstCopy snapshot e)) :=
        .of_hand pulls.entry (hand_init pulls.decoded)
      refine tally_upholds ?_
      intro t₄ went₄
      refine inquire_lift_upholds ((d.replica place).replayRecords_confined _ reader) ?_
      rintro ⟨result, slot⟩ t₅ replayed went₅
      cases result with
      | error cause => trivial
      | ok nothing =>
        have reads := pulls.reads.mono went₄.le
        have onward := replayRecords_passes went₅.lawful reads (aligned.mono went₄.le) replayed
        have chain := log_chain went₅.lawful
        rw [pulls.ordinal] at onward
        obtain ⟨copy, rfl⟩ : ∃ copy, slot = some copy := by
          rcases onward.eq_or_lt chain with rfl | ⟨copy, rfl, _⟩
          · exact ⟨_, rfl⟩
          · exact ⟨copy, rfl⟩
        have known : ∀ old : Revisioned M.State, none = some old → old.revision = ⟨d.segment, offset, 0⟩ := nofun
        have passes := (passes.mono (went₄.le.trans went₅.le)).trans chain known onward
        have reaches := replayRecords_reaches went₅.lawful reads (aligned.mono went₄.le) replayed
        refine tally_upholds ?_
        intro t₆ went₆
        have went := ((((went₁.trans went₂).trans went₃).trans went₄).trans went₅).trans went₆
        refine remember_upholds (went.tends.holds held) fun _ => ?_
        have begins : d.Begins t₅ none ⟨d.segment, offset, 0⟩ :=
          ⟨nofun, fun _ => ⟨rfl, t₁, went₂.le.trans (went₃.le.trans (went₄.le.trans went₅.le)), restarts⟩⟩
        refine .rebuilt entered entering (tended.trans went.tends) copy
          ((passes.counted chain begins nofun copy rfl).mono went₆.le) fun old there candid => ?_
        rw [went.cache_eq held] at there
        have low := behind old there (candid.of_le went.le)
        have le : t <+: t₂ := (went₁.trans went₂).le
        refine ⟨Nat.lt_of_lt_of_le low (oldest_le went.lawful went.le), ?_⟩
        calc
          old.revision.offset < d.oldest t := low
          _ ≤ ending 0 (d.log t) := (tended.lawful.logs d.segment).start_le
          _ ≤ ending 0 (d.log t₂) := ending_mono went₂.lawful le
          _ = reader.endOffset := pulls.limit.symm
          _ ≤ copy.revision.offset := reaches

theorem catchUp_upholds (held : (World.after t).holders me.place .cache = some me.call) :
    d.Upholds ρ me (d.replica place).catchUp t := by
  rw [Replica.catchUp_eq_approach]
  refine .bind (approach_upholds held) fun answer t₁ approached => upholds_of_lawful fun lawful₁ => ?_
  let post (answer : Except CoreError Unit) (t' : Trace M R O) : Prop := ∀ cause, answer = .error cause →
    Went (d.law ρ) me Deed.Tends t t' ∧
      ∀ old, t'.cache me.place = some old → d.Behind me t old.revision.offset t' cause
  have safe : Attempt.Safe (d.law ρ) me (fun _ => True) post (fun _ _ => True) (d.replica place).approach t := by
    refine approach_safe place held (fun _ _ => trivial) (fun _ _ _ => nofun) ?_ fun _ _ _ _ _ => trivial
    rintro cause t went _ behind _ ⟨⟩
    exact ⟨went, behind⟩
  cases answer with
  | ok nothing => trivial
  | error cause =>
    obtain ⟨tended, behind⟩ := approached.promised lawful₁ safe cause rfl
    dsimp only
    split
    · rename_i truncated
      exact recover_upholds held tended fun old there => behind old there truncated
    · trivial

theorem locked_upholds {body : Attempt M R α}
    (inside : ∀ t', t <+: t' → (World.after t').holders me.place .cache = some me.call → d.Upholds ρ me body t') :
    d.Upholds ρ me (Attempt.locked body) t :=
  .locked (fun _ => trivial) (fun _ => trivial) fun past idled =>
    inside _ (idled.le_concat _) (World.holders_locked past me ())

theorem getRevisionedState_upholds : d.Upholds ρ me (d.replica place).getRevisionedState t := by
  refine locked_upholds fun t₁ _ held => .bind (catchUp_upholds held) fun _ t₂ _ => ?_
  exact .bind (upholds_touch ⟨rfl, rfl, nofun⟩) fun slot t₃ _ => by cases slot <;> trivial

section Appending

variable {latest : Revision} {record : M.Record}

theorem writeConditionally_upholds_of_exempt (exempt : ρ.raw me.operation ∨ ρ.founds me.operation) :
    d.Upholds ρ me ((d.client place).writeConditionally latest record) t := by
  let owed (action : Action M R) : Prop := ∀ past, d.upkeep ρ past me action
  have confined : ((d.client place).writeConditionally latest record : Attempt M R _).Confined owed fun _ => True :=
    (d.client place).writeConditionally_within (fun _ asks _ => upkeep_of_abstaining asks.inquires.abstains) latest
      fun _ _ _ => exempt.imp_right .inl
  exact .of_confined confined fun past _ owed => owed past

theorem writeConditionally_upholds_of_drafts {copy : Revisioned M.State} {seen : Trace M R O}
    (drafts : Drafts me copy seen t) :
    d.Upholds ρ me ((d.client place).writeConditionally copy.revision record) t := by
  have leaves : ∀ {t t' : Trace M R O}, Went (d.law ρ) me Deed.Looks t t' → Passed me (Deed.Leaves .cache) t t' :=
    fun went => (went.mono fun _ looks => looks.tends.retains.leaves .cache).grows
  unfold Client.writeConditionally Client.encode
  refine inquire_upholds Client.ensureOpen_confined fun _ t₁ _ went₁ => ?_
  refine inquire_upholds ((d.client place).checkSegment_confined _) fun _ t₂ _ went₂ => ?_
  cases (d.client place).codec.encode record with
  | error cause => trivial
  | ok bytes =>
    refine .bind trivial fun _ _ written => ?_
    cases written
    refine .bind (.ask fun past idled _ => .inr (.inr ⟨copy, seen, ?_, rfl⟩)) fun outcome t₃ _ => ?_
    · exact drafts.mono ((leaves (went₁.trans went₂)).trans idled.of_idled)
    · cases outcome with
      | conflict tail => trivial
      | appended offset endOffset =>
        dsimp only
        cases Revision.nextEvent? copy.revision.event with
        | some event => trivial
        | none => exact upholds_of_abstaining (.abort trivial)

end Appending

section Trips

variable (trips : d.codec.RoundTrips)

include trips

theorem writeInitial_upholds {position : Nat} {snapshot : M.Snapshot} (founds : ρ.founds me.operation)
    (began : ∃ earlier, earlier <+: t ∧ d.oldest earlier = position)
    (held : (World.after t).holders me.place .cache = some me.call) :
    d.Upholds ρ me ((d.replica place).writeInitial ⟨d.segment, position, 0⟩ snapshot) t := by
  unfold Replica.writeInitial
  refine .bind (writeConditionally_upholds_of_exempt (.inr founds)) fun written t₁ leads =>
    upholds_of_lawful fun lawful₁ => ?_
  cases written with
  | none => trivial
  | some revision =>
    obtain ⟨past, entry, went, landed, begins, rfl⟩ := writeConditionally_leads lawful₁ leads
    have held₁ : (World.after t₁).holders me.place .cache = some me.call := by
      rw [landed.memories.2]
      exact went.tends.holds held
    refine .bind (remember_upholds held₁ fun _ => ?_) fun _ _ _ => trivial
    obtain ⟨earlier, early, oldest⟩ := began
    exact .founded founds _ entry past t₁ ⟨earlier, early.trans went.le, oldest.trans begins.symm⟩ landed held₁
      (.refl lawful₁) _ (resume_init (trips _ _ landed.encoded))

theorem establish_upholds (founds : ρ.founds me.operation) {snapshot : M.Snapshot} :
    d.Upholds ρ me ((d.replica place).establish snapshot) t := by
  unfold Replica.establish
  refine locked_upholds fun t₁ _ held => ?_
  refine inquire_upholds (d.client place).fetchOldest_confined fun oldest t₂ saw went₂ => ?_
  refine inquire_upholds (d.client place).fetchLatest_confined fun latest t₃ looked went₃ => ?_
  obtain rfl := fetchOldest_leads went₂.lawful saw
  obtain rfl := fetchLatest_leads went₃.lawful looked
  split
  · trivial
  · rename_i same
    have same : (⟨d.segment, ending 0 (d.log t₃), 0⟩ : Revision).SamePosition ⟨d.segment, d.oldest t₂, 0⟩ :=
      not_not.mp same
    have began : ∃ earlier, earlier <+: t₃ ∧ d.oldest earlier = ending 0 (d.log t₃) := ⟨t₂, looked.le, same.2.symm⟩
    exact .bind (writeInitial_upholds trips founds began ((went₂.trans went₃).tends.holds held)) fun written _ _ => by
      cases written <;> trivial

theorem establishIfAbsent_upholds (founds : ρ.founds me.operation) {snapshot : M.Snapshot} :
    d.Upholds ρ me ((d.replica place).establishIfAbsent snapshot) t := by
  unfold Replica.establishIfAbsent
  refine locked_upholds fun t₁ _ held => ?_
  refine inquire_upholds (d.client place).fetchOldest_confined fun oldest t₂ saw went₂ => ?_
  refine inquire_upholds (d.client place).fetchLatest_confined fun latest t₃ looked went₃ => ?_
  obtain rfl := fetchOldest_leads went₂.lawful saw
  have held₃ := (went₂.trans went₃).tends.holds held
  have caught : ∀ t', (World.after t').holders me.place .cache = some me.call → d.Upholds ρ me (do
      (d.replica place).catchUp
      pure false) t' := fun t' held => .bind (catchUp_upholds held) fun _ _ _ => trivial
  split
  · have began : ∃ earlier, earlier <+: t₃ ∧ d.oldest earlier = d.oldest t₂ := ⟨t₂, looked.le, rfl⟩
    refine .bind (writeInitial_upholds trips founds began held₃) fun written t₄ tried =>
      upholds_of_lawful fun lawful₄ => ?_
    have held₄ : (World.after t₄).holders me.place .cache = some me.call := by
      refine Attempt.promised (fun _ t' => (World.after t').holders me.place .cache = some me.call) tried
        lawful₄ (writeInitial_safe place founds began held₃ ?_ ?_ fun _ _ _ _ => trivial)
      · exact fun _ _ _ _ _ _ _ held => held
      · exact fun _ tried _ => (tried.mono fun _ tries => tries.2).retains held₃
    cases written with
    | true => trivial
    | false => exact caught t₄ held₄
  · exact caught t₃ held₃

theorem applyWritten_upholds {record : M.Record} {entry : Entry} {copy : Revisioned M.State}
    {seen before after : Trace M R O} (drafts : Drafts me copy seen before)
    (landed : d.Landed ρ me record entry before after) (by_ : after <+: t)
    (begins : entry.offset = copy.revision.offset) :
    ((d.replica place).applyWritten copy.revision ⟨d.segment, entry.endOffset, copy.revision.event + 1⟩ record :
      Procedure M R Unit).Minds (Lawful (d.law ρ)) (d.upkeep ρ) me t := by
  unfold Replica.applyWritten
  refine Procedure.Minds.bind (locked_upholds fun t₁ le held => ?_) fun _ _ _ => trivial
  refine .bind (upholds_touch ⟨rfl, rfl, nofun⟩) fun slot t₂ looked => upholds_of_lawful fun lawful₂ => ?_
  obtain ⟨went, cached⟩ := cached_leads lawful₂ looked
  have held₂ := went.tends.holds held
  cases slot with
  | none => exact catchUp_upholds held₂
  | some current =>
    dsimp only
    split
    · rename_i same
      cases applied : (d.replica place).applyRecord record (some current.state)
        ⟨d.segment, entry.endOffset, copy.revision.event + 1⟩ with
      | error cause => trivial
      | ok next =>
        refine remember_upholds held₂ fun _ => ?_
        refine .applied copy current next cached same record entry seen before after drafts landed
          (by_.trans (le.trans went.le)) begins ?_
        have applied : (record.apply (some current.state) d.name ⟨d.segment, entry.endOffset,
            copy.revision.event + 1⟩).map (fun state => (⟨state, _⟩ : Revisioned M.State)) = .ok next := applied
        cases made : record.apply (some current.state) d.name
            ⟨d.segment, entry.endOffset, copy.revision.event + 1⟩ with
        | error cause => simp [made, Except.map] at applied
        | ok state =>
          rw [made] at applied
          cases applied
          exact hand_eq_ok.mpr ⟨record, trips _ _ landed.encoded, made, rfl⟩
    · exact catchUp_upholds held₂

section Proposing

theorem writeLoop_upholds {propose : M.State → Procedure M R (Option M.Record × β)}
    (proposed : ∀ state, (propose state).Confined Action.Abstains fun _ => True) (left attempts : Nat) :
    d.Upholds ρ me ((d.replica place).writeLoop propose left attempts) t := by
  -- On the attempts left; each one begins by taking a copy from the cache.
  induction left generalizing t attempts with
  | zero => exact upholds_of_abstaining (.abort trivial)
  | succ left ih =>
    unfold Replica.writeLoop
    refine .bind (upholds_of_abstaining ((d.replica place).pause_abstains attempts)) fun _ t₁ _ => ?_
    refine .bind getRevisionedState_upholds fun copy t₂ got => upholds_of_lawful fun lawful₂ => ?_
    have drafts := getRevisionedState_leads lawful₂ got
    refine .bind_lift (.of_confined (proposed copy.state) fun _ _ => upkeep_of_abstaining) ?_
    rintro ⟨proposal, result⟩ t₃ asked
    have drafts := drafts.mono ((asked.passed (proposed copy.state)).mono fun _ within =>
      (Deed.retains_of_abstains within).leaves .cache)
    cases proposal with
    | none => trivial
    | some record =>
      refine .bind (writeConditionally_upholds_of_drafts drafts) fun written t₄ tried =>
        upholds_of_lawful fun lawful₄ => ?_
      cases written with
      | some revision =>
        obtain ⟨before, entry, went, landed, begins, rfl⟩ := writeConditionally_leads lawful₄ tried
        have drafts := drafts.mono (went.mono fun _ looks => looks.tends.retains.leaves .cache).grows
        exact .bind_lift (applyWritten_upholds trips drafts landed (List.prefix_refl _) begins) fun _ _ _ => trivial
      | none =>
        refine .bind (upholds_touch ⟨rfl, rfl, fun _ same => by cases same⟩) fun _ t₅ _ => ?_
        split
        · exact ih (attempts + 1)
        · trivial

theorem updateBy_upholds {batch : M.State → Procedure M R (List M.Update × β)}
    (proposed : ∀ state, (batch state).Confined Action.Abstains fun _ => True) :
    d.Upholds ρ me ((d.replica place).updateBy batch) t := by
  refine .bind (writeLoop_upholds trips (fun state => ?_) _ _) fun outcome t₁ _ => ?_
  · exact .bind ((proposed state).mono (fun _ => id) fun _ _ => trivial)
  · split
    · exact .bind (upholds_touch ⟨rfl, rfl, nofun⟩) fun _ _ _ => trivial
    · trivial

theorem compactBy_upholds {summary : M.State → Procedure M R M.Snapshot}
    (proposed : ∀ state, (summary state).Confined Action.Abstains fun _ => True) :
    d.Upholds ρ me ((d.replica place).compactBy summary) t := by
  refine .bind (writeLoop_upholds trips (fun state => ?_) _ _) fun outcome t₁ _ => ?_
  · exact .bind ((proposed state).mono (fun _ => id) fun _ _ => trivial)
  · split
    · trivial
    · exact .bind (upholds_touch ⟨rfl, rfl, nofun⟩) fun _ _ _ => upholds_of_abstaining
        ((d.replica place).advanceMark_within (fun _ asks => asks.inquires.abstains) _ (fun _ _ _ => trivial)
          (fun _ => trivial) ⟨rfl, rfl, nofun⟩)

end Proposing

end Trips

end Upholding

theorem upholds_of_forgoing {α : Type} {x : Attempt M R α} (raw : ρ.raw me.operation)
    (confined : x.Confined Action.Forgoes fun _ => True) : d.Upholds ρ me x t := by
  refine .of_confined confined fun past action forgoes => ?_
  unfold upkeep
  split
  · exact absurd rfl (forgoes _)
  · exact .inl raw
  · trivial

theorem program_upholds {me : Caller (Operation M)} {t : Trace M R (Operation M)} (trips : d.codec.RoundTrips) :
    d.Upholds (conduct M R) me (d.program me.place me.operation) t := by
  have forgoes : ∀ action : Action M R, action.Asks → action.Forgoes := fun _ asks => asks.inquires.forgoes
  have inquires : ∀ {α : Type} {x : Attempt M R α} {t}, x.Inquiring → d.Upholds (conduct M R) me x t :=
    fun inquiring => upholds_of_abstaining (inquiring.within fun _ => Action.Inquires.abstains)
  have done : ∀ {α β : Type} {x : Attempt M R α} {f : α → β} {t}, d.Upholds (conduct M R) me x t →
      d.Upholds (conduct M R) me (x >>= fun a => pure (f a)) t := fun upholds => .bind upholds fun _ _ _ => trivial
  have updates : ∀ t, d.Upholds (conduct M R) me (d.replica me.place).updateStateWithResult t := fun t =>
    updateBy_upholds trips fun state => .perform trivial fun _ => trivial
  cases operation : me.operation with
  | createSegment => exact done (done (inquires (Attempt.inquiring_ask trivial)))
  | establish snapshot =>
    have founds : (conduct M R).founds me.operation := by
      rw [operation]
      trivial
    exact done (establish_upholds trips founds)
  | establishIfAbsent snapshot =>
    have founds : (conduct M R).founds me.operation := by
      rw [operation]
      trivial
    exact done (establishIfAbsent_upholds trips founds)
  | fetchUpdates => exact done (locked_upholds fun _ _ held => catchUp_upholds held)
  | getState => exact done (done getRevisionedState_upholds)
  | getRevisionedState => exact done getRevisionedState_upholds
  | updateState => exact done (done (updates _))
  | updateStateWithResult => exact done (updates _)
  | compact => exact done (compactBy_upholds trips fun state => .perform trivial fun _ => trivial)
  | bytesSinceCompaction =>
    refine done (inquires ?_)
    exact .bind (d.replica me.place).freshStart_confined fun _ =>
      .bind (d.client me.place).fetchLatest_confined fun _ => .pure _
  | close => exact done (upholds_touch ⟨rfl, rfl, nofun⟩)
  | writeRecord | writeBytes | compareAndSetMark | truncateTo =>
    have raw : (conduct M R).raw me.operation := by
      rw [operation]
      trivial
    refine done (upholds_of_forgoing raw ?_)
    first
    | exact write_within _ forgoes _ fun _ _ _ => nofun
    | exact (d.client me.place).compareAndSetMark_within forgoes _ _ fun _ => nofun
    | exact (d.client me.place).truncateTo_within forgoes _ nofun

section Runs

variable {s : System M R (Operation M) (Result M R)} (trips : d.codec.RoundTrips) (reachable : d.Reachable R s)
  {past : Trace M R (Operation M)} {e : Event M R (Operation M)} (le : past ++ [e] <+: s.trace)

include trips reachable le

theorem upkept_of_reachable {action : Action M R} {answer : action.Answer} (acted : e.deed = .acted action answer) :
    d.upkeep (conduct M R) past e.caller action := by
  have minded : s.Minded (Lawful (d.law (conduct M R))) (d.upkeep (conduct M R)) :=
    System.minded_of_reachable (fun caller past _ => program_upholds trips) reachable
  have lawful := (secure_of_reachable reachable).lawful
  exact minded.owed le acted (lawful.of_le ((List.prefix_append _ _).trans le))

theorem remembers_of_reachable {slot : Replica.Cached M} {answer : Unit}
    (acted : e.deed = .acted (.touch (.remember slot)) answer) : d.Remembers (conduct M R) e.caller past slot :=
  upkept_of_reachable trips reachable le acted

theorem drafts_of_landed {entry : Entry} (landed : e.landed? d.segment = some entry)
    (polite : ¬e.caller.operation.Raw) (later : ¬e.caller.operation.Founds) :
    ∃ copy seen, Drafts e.caller copy seen past ∧ entry.offset = copy.revision.offset := by
  have lawful := (secure_of_reachable reachable).lawful.of_le le
  obtain ⟨expected, deed, _, wanted⟩ := lawful.append_of_landed landed
  rcases upkept_of_reachable trips reachable le deed with raw | founds | ⟨copy, seen, drafts, rfl⟩
  · exact absurd raw polite
  · exact absurd founds later
  · exact ⟨copy, seen, drafts, (wanted _ rfl).symm⟩

end Runs

end Deployment

end LogReplica
