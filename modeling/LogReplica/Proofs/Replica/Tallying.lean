import LogReplica.Proofs.Replica.Remembering

namespace LogReplica

variable {M : Model} {R O : Type}

def Action.Unbooked : Action M R → Prop
  | .touch .lockCache | .touch .unlockCache | .touch (.remember _) | .touch (.tally (.replayed _)) => False
  | _ => True

theorem Action.Asks.unbooked {action : Action M R} (asks : action.Asks) : action.Unbooked := by
  cases action with
  | touch x => cases x <;> first | exact asks.elim | trivial
  | _ => trivial

theorem Attempt.Asking.unbooked {α : Type} {x : Attempt M R α} (asking : x.Asking) :
    x.Confined Action.Unbooked fun _ => True := asking.within fun _ => Action.Asks.unbooked

/-- How many of the records that a call has counted are in no cache yet, when there were `n` before this deed. -/
def Deed.pending (n : Nat) : Deed M R → Nat
  | .called | .acted (.touch .lockCache) _ | .acted (.touch (.remember _)) _ => 0
  | .acted (.touch (.tally (.replayed records))) _ => n + records
  | _ => n

theorem Deed.pending_of_unbooked {deed : Deed M R} (within : deed.Within Action.Unbooked) (n : Nat) :
    deed.pending n = n := by
  cases deed with
  | called | gaveUp => exact within.elim
  | failed => rfl
  | acted action answer =>
    cases action with
    | ask | generate | summarize => rfl
    | abort => cases answer
    | touch x =>
      cases x with
      | lockCache | unlockCache | remember => exact within.elim
      | tally tally => cases tally <;> first | exact within.elim | rfl
      | _ => rfl

theorem Deed.leaves_of_unbooked {deed : Deed M R} (within : deed.Within Action.Unbooked) : deed.Leaves .cache := by
  cases deed with
  | called | gaveUp => exact within.elim
  | failed => trivial
  | acted action answer =>
    cases action with
    | ask | generate | summarize => trivial
    | abort => cases answer
    | touch x => cases x <;> first | exact within.elim | (constructor <;> rintro ⟨⟩)

/-- How many replayed records a call has counted since it was made, or has taken its lock or filled its cache. -/
def Trace.pending (me : Caller O) (t : Trace M R O) : Nat := t.gather (fun c => c.call = me.call) Deed.pending 0

section Pending

variable {me : Caller O} {t t' : Trace M R O}

@[simp] theorem Trace.pending_concat (me : Caller O) (t : Trace M R O) (deed : Deed M R) :
    Trace.pending me (t ++ [⟨me, deed⟩]) = deed.pending (t.pending me) := gather_concat rfl

theorem Trace.pending_of_other {e : Event M R O} (other : e.caller.call ≠ me.call) :
    Trace.pending me (t ++ [e]) = t.pending me := gather_of_other other

theorem Passed.pending_eq {allowed : Deed M R → Prop} (passed : Passed me allowed t t')
    (silent : ∀ deed, allowed deed → ∀ n, deed.pending n = n) : t'.pending me = t.pending me := passed.gather_eq silent

theorem Passed.pending_of_idled (idled : Idled me t t') : t'.pending me = t.pending me :=
  Passed.pending_eq idled fun _ never => never.elim

theorem Passed.holds_of_unbooked {law : Law M R O} (passed : Passed me (Deed.Within Action.Unbooked) t t')
    (lawful : Lawful law t') (held : (World.after t).holders me.place .cache = some me.call) :
    (World.after t').holders me.place .cache = some me.call :=
  ((passed.mono fun _ => Deed.leaves_of_unbooked).went lawful).leaves held

theorem Procedure.Leads.pending_eq {α : Type} {p : Procedure M R α} {a : α} {holds : α → Prop}
    (leads : p.Leads me t a t') (confined : p.Confined Action.Unbooked holds) : t'.pending me = t.pending me :=
  (leads.passed confined).pending_eq fun _ => Deed.pending_of_unbooked

end Pending

namespace Deployment

variable {d : Deployment M} {ρ : Conduct M R O} {me : Caller O} {t t' : Trace M R O} {slot : Replica.Cached M}
  {place : Nat}

variable (d) in
/-- A copy that `n` records of the log make up, from a snapshot on at a place where fresh readers once started. -/
def Rebuilds (t : Trace M R O) (copy : Revisioned M.State) (n : Nat) : Prop :=
  ∃ before e rest, before ++ e :: rest <+: d.log t ∧
    (∃ earlier, earlier <+: t ∧ d.RestartAt earlier (ending 0 before)) ∧ d.IsSnapshot e ∧
    d.resume none 0 (e :: rest) = .ok (some copy) ∧ n = rest.length + 1

variable (d) in
/-- Records that are counted and in no cache: none at all, or those of a copy that has been rebuilt so far. -/
def Loose (t : Trace M R O) (n : Nat) : Prop := n = 0 ∨ ∃ copy, d.Rebuilds t copy n

/-- How many records a call adds to its cache after `past`, when it puts this there. -/
inductive Folds (d : Deployment M) (ρ : Conduct M R O) (me : Caller O) (past : Trace M R O) :
    Replica.Cached M → Nat → Prop
  | stays : Folds d ρ me past (past.cache me.place) 0
  | replayed (start : Revision) (begins : d.Begins past (past.cache me.place) start) (before : List Entry) (e : Entry)
    (rest : List Entry) (front : before ++ e :: rest <+: d.log past) (position : ending 0 before = start.offset)
    (copy : Revisioned M.State) (resumed : d.resume (past.cache me.place) start.event (e :: rest) = .ok (some copy)) :
    Folds d ρ me past (some copy) (rest.length + 1)
  | rebuilt (copy : Revisioned M.State) (n : Nat) (rebuilds : d.Rebuilds past copy n) : Folds d ρ me past (some copy) n
  | own (record : M.Record) (entry : Entry) (before after : Trace M R O)
    (landed : d.Landed ρ me record entry before after) (by_ : after <+: past) (copy : Revisioned M.State)
    (ends : copy.revision.offset = entry.endOffset)
    (applied : record.apply ((past.cache me.place).map (·.state)) d.name copy.revision = .ok copy.state) :
    Folds d ρ me past (some copy) 0

theorem Rebuilds.mono {copy : Revisioned M.State} {n : Nat} (rebuilds : d.Rebuilds t copy n) (le : t <+: t') :
    d.Rebuilds t' copy n := by
  obtain ⟨before, e, rest, front, ⟨earlier, early, restart⟩, snapshot, resumed, count⟩ := rebuilds
  exact ⟨before, e, rest, front.trans (Trace.history_le _ le), ⟨earlier, early.trans le, restart⟩, snapshot, resumed,
    count⟩

theorem Loose.mono {n : Nat} (loose : d.Loose t n) (le : t <+: t') : d.Loose t' n := by
  rcases loose with none | ⟨copy, rebuilds⟩
  · exact .inl none
  · exact .inr ⟨copy, rebuilds.mono le⟩

variable (d) in
def booking (ρ : Conduct M R O) : Law M R O := fun past me action =>
  match action with
  | .touch (.remember slot) => d.Folds ρ me past slot (past.pending me)
  | .touch (.tally (.replayed _)) => (World.after past).holders me.place .cache = some me.call
  | _ => d.Loose past (past.pending me)

theorem booking_of_unbooked {past : Trace M R O} {action : Action M R} (unbooked : action.Unbooked)
    (loose : d.Loose past (past.pending me)) : d.booking ρ past me action := by
  unfold booking
  split
  · exact unbooked.elim
  · exact unbooked.elim
  · exact loose

variable (d ρ me) in
/-- Whatever the call does on its way, it does its duty by what it counts, and at the end nothing else is left of
that. -/
structure Settles {α : Type} (p : Procedure M R α) (t : Trace M R O) : Prop where
  minds : p.Minds (Lawful (d.law ρ)) (d.booking ρ) me t
  loose : ∀ a t', p.Leads me t a t' → Lawful (d.law ρ) t' → d.Loose t' (t'.pending me)

section Replays

theorem Folds.of_passes {start : Revision} {slot' : Replica.Cached M} {n : Nat} (cached : t.cache me.place = slot)
    (begins : d.Begins t slot start) (passes : d.Passes t slot start slot')
    (advances : Advances slot start.event slot' n) : d.Folds ρ me t slot' n := by
  subst cached
  have event : ∀ copy, t.cache me.place = some copy → copy.revision.event = start.event := fun copy here =>
    congrArg Revision.event (begins.copy copy here)
  cases passes with
  | stays =>
    rcases advances with ⟨_, rfl⟩ | ⟨copy, here, counted⟩
    · exact .stays
    · obtain rfl : n = 0 := by have := event copy here; omega
      exact .stays
  | resumed before e rest copy front position folded =>
    have reached := congrArg Revision.event
      (revision_of_resume_of_ne_nil (List.cons_ne_nil e rest) folded start.offset)
    have reached : copy.revision.event = start.event + (rest.length + 1) := reached
    rcases advances with ⟨here, _⟩ | ⟨_, ⟨⟩, counted⟩
    · have := event copy here.symm
      omega
    · obtain rfl : n = rest.length + 1 := by omega
      exact .replayed start begins before e rest front position copy folded

theorem Rebuilds.of_passes {position n : Nat} {e : Entry} {snapshot : M.Snapshot} {slot' : Replica.Cached M}
    (chain : Contiguous 0 (d.log t)) (entry : ∃ before, before ++ [e] <+: d.log t ∧ ending 0 before = position)
    (restart : ∃ earlier, earlier <+: t ∧ d.RestartAt earlier position)
    (decoded : d.codec.decode e.data = .ok (.init snapshot))
    (passes : d.Passes t (some (d.firstCopy snapshot e)) ⟨d.segment, e.endOffset, 1⟩ slot')
    (advances : Advances (some (d.firstCopy snapshot e)) 1 slot' n) :
    ∃ copy, slot' = some copy ∧ d.Rebuilds t copy (n + 1) := by
  obtain ⟨before, front, rfl⟩ := entry
  have made := resume_init decoded
  have counted : (d.firstCopy snapshot e).revision.event = 1 := rfl
  cases passes with
  | stays =>
    obtain rfl : n = 0 := by
      rcases advances with ⟨_, none⟩ | ⟨_, ⟨⟩, same⟩
      · exact none
      · omega
    exact ⟨_, rfl, before, e, [], front, restart, ⟨snapshot, decoded⟩, made, rfl⟩
  | resumed before' e' rest copy front' position' folded =>
    obtain rfl : before' = before ++ [e] :=
      chain.prefix_eq ((List.prefix_append _ _).trans front') front (by simpa using position')
    have reached := congrArg Revision.event
      (revision_of_resume_of_ne_nil (List.cons_ne_nil e' rest) folded e.endOffset)
    have reached : copy.revision.event = 1 + (rest.length + 1) := reached
    obtain rfl : n = rest.length + 1 := by
      rcases advances with ⟨here, _⟩ | ⟨_, ⟨⟩, same⟩
      · cases here
        omega
      · omega
    refine ⟨copy, rfl, before, e, e' :: rest, by simpa using front', restart, ⟨snapshot, decoded⟩, ?_, rfl⟩
    rw [← List.singleton_append, resume_append, made]
    exact folded

theorem settle_leads {given : Reader.Ending} {result : Except CoreError Unit}
    (leads : (given.settle : Procedure M R _).Leads me t result t') : t' = t := by
  cases given with
  | complete | failed =>
    cases leads
    rfl
  | uncounted =>
    cases leads with
    | @step _ _ answer => exact nomatch answer

theorem replayRecords_counts {position : Nat} {reader : Reader M.Record} {result : Except CoreError Unit}
    {slot' : Replica.Cached M} (lawful : Lawful (d.law ρ) t') (reads : d.Reads place t reader position)
    (aligned : d.Aligned t slot position)
    (leads : ((d.replica place).replayRecords slot reader : Procedure M R _).Leads me t (result, slot') t') :
    d.Passes t' slot ⟨d.segment, position, reader.ordinal⟩ slot' ∧
      ∃ n, t'.pending me = t.pending me + n ∧ Advances slot reader.ordinal slot' n := by
  obtain ⟨⟨given, p⟩, t₁, folds, settled⟩ := Procedure.Leads.of_bind leads
  obtain ⟨result', t₂, settles, rest⟩ := Procedure.Leads.of_bind settled
  obtain rfl := settle_leads settles
  obtain ⟨passes, n, counted, advances⟩ := fold_passes (lawful.of_le rest.le) reads aligned folds
  have before := folds.pending_eq ((reader.fold_asking (d.replica place).replayRecord_ofAttempt _ _).mono
    (fun _ => Action.Asks.unbooked) fun _ => id)
  have counted : p.replayed = n := by simpa using counted
  have le := rest.le
  dsimp only at rest
  split at rest
  · obtain ⟨_, t₃, tallies, ended⟩ := Procedure.Leads.of_bind rest
    cases ended
    cases tallies with
    | step idled outcome ended =>
      cases ended
      cases outcome
      refine ⟨passes.mono le, n, ?_, advances⟩
      rw [Trace.pending_concat, Passed.pending_of_idled idled, before, ← counted]
      rfl
  · rename_i none
    cases rest
    obtain rfl : n = 0 := by omega
    exact ⟨passes.mono le, 0, before, advances⟩

end Replays

namespace Settles

variable {α β : Type}

theorem done {a : α} (loose : d.Loose t (t.pending me)) : d.Settles ρ me (Procedure.done a : Procedure M R α) t :=
  ⟨trivial, fun _ _ leads _ => by cases leads; exact loose⟩

theorem follow {p : Procedure M R β} {f : β → Procedure M R α}
    (first : p.Minds (Lawful (d.law ρ)) (d.booking ρ) me t)
    (rest : ∀ b t', p.Leads me t b t' → Lawful (d.law ρ) t' → d.Settles ρ me (f b) t') :
    d.Settles ρ me (p.bind f) t := by
  refine ⟨.bind first fun b t' leads => .of_fine (fun le lawful => lawful.of_le le) fun lawful =>
    (rest b t' leads lawful).minds, fun a t' leads lawful => ?_⟩
  obtain ⟨b, t₁, before, after⟩ := Procedure.Leads.of_bind leads
  exact (rest b t₁ before (lawful.of_le after.le)).loose a t' after lawful

theorem bind {x : Attempt M R β} {f : β → Attempt M R α} (first : d.Settles ρ me x.run t)
    (rest : ∀ b t', x.run.Leads me t (.ok b) t' → Lawful (d.law ρ) t' → d.Loose t' (t'.pending me) →
      d.Settles ρ me (f b).run t') : d.Settles ρ me (x >>= f).run t := by
  refine follow first.minds fun result t' leads lawful => ?_
  have loose := first.loose result t' leads lawful
  cases result with
  | ok b => exact rest b t' leads lawful loose
  | error cause => exact .done loose

theorem bind_lift {p : Procedure M R β} {f : β → Attempt M R α}
    (first : p.Minds (Lawful (d.law ρ)) (d.booking ρ) me t)
    (rest : ∀ b t', p.Leads me t b t' → Lawful (d.law ρ) t' → d.Settles ρ me (f b).run t') :
    d.Settles ρ me (ExceptT.lift p >>= f).run t := by
  show d.Settles ρ me ((p.bind fun b => Procedure.done (Except.ok b)).bind _) t
  rw [Procedure.bind_assoc]
  exact follow first rest

theorem map {p : Procedure M R β} {f : β → α} (settles : d.Settles ρ me p t) :
    d.Settles ρ me (p.bind fun b => .done (f b)) t :=
  follow settles.minds fun b t' leads lawful => .done (settles.loose b t' leads lawful)

theorem lift {p : Procedure M R β} (settles : d.Settles ρ me p t) :
    d.Settles ρ me (ExceptT.lift p : Attempt M R β).run t := settles.map

theorem of_unbooked {p : Procedure M R α} {holds : α → Prop} (confined : p.Confined Action.Unbooked holds)
    (loose : d.Loose t (t.pending me)) : d.Settles ρ me p t := by
  have kept : ∀ t', Passed me (Deed.Within Action.Unbooked) t t' → d.Loose t' (t'.pending me) := by
    intro t' passed
    rw [passed.pending_eq fun _ => Deed.pending_of_unbooked]
    exact loose.mono passed.le
  exact ⟨.of_passed confined fun past action passed _ unbooked => booking_of_unbooked unbooked (kept past passed),
    fun a t' leads _ => kept t' (leads.passed confined)⟩

theorem abort (loose : d.Loose t (t.pending me)) : d.Settles ρ me (Attempt.abort : Attempt M R α).run t := by
  have ends : (Attempt.abort : Attempt M R α).Confined Action.Unbooked fun _ => True := .abort trivial
  exact of_unbooked ends loose

theorem unbooked_bind {x : Attempt M R β} {f : β → Attempt M R α} (confined : x.Confined Action.Unbooked fun _ => True)
    (loose : d.Loose t (t.pending me))
    (rest : ∀ b t', x.run.Leads me t (.ok b) t' → Lawful (d.law ρ) t' → t'.pending me = t.pending me →
      d.Loose t' (t'.pending me) → d.Settles ρ me (f b).run t') : d.Settles ρ me (x >>= f).run t :=
  bind (of_unbooked confined loose) fun b t' leads lawful loose =>
    rest b t' leads lawful (leads.pending_eq confined) loose

theorem ask_bind {x : Attempt M R β} {f : β → Attempt M R α} (asking : x.Asking) (loose : d.Loose t (t.pending me))
    (rest : ∀ b t', x.run.Leads me t (.ok b) t' → Went (d.law ρ) me Deed.Looks t t' → t'.pending me = t.pending me →
      d.Loose t' (t'.pending me) → d.Settles ρ me (f b).run t') : d.Settles ρ me (x >>= f).run t :=
  unbooked_bind asking.unbooked loose fun b t' leads lawful =>
    rest b t' leads (went_of_inquiring asking.inquiring leads lawful)

end Settles

section Settling

variable {α β : Type}

theorem Folds.later {n : Nat} (folds : d.Folds ρ me t slot n)
    (held : (World.after t).holders me.place .cache = some me.call) (went : Went (d.law ρ) me Deed.Looks t t') :
    d.Folds ρ me t' slot n := by
  have same := went.cache_eq held
  cases folds with
  | stays =>
    rw [← same]
    exact .stays
  | replayed start begins before e rest front position copy resumed =>
    rw [← same] at begins resumed
    exact .replayed start (begins.mono went.le) before e rest (front.trans (Trace.history_le _ went.le)) position copy
      resumed
  | rebuilt copy n rebuilds => exact .rebuilt copy n (rebuilds.mono went.le)
  | own record entry before after landed by_ copy ends applied =>
    rw [← same] at applied
    exact .own record entry before after landed (by_.trans went.le) copy ends applied

theorem remember_settles (held : (World.after t).holders me.place .cache = some me.call)
    (owed : d.Folds ρ me t slot (t.pending me)) :
    d.Settles ρ me (Attempt.touch (.remember slot) : Attempt M R _).run t := by
  refine ⟨Attempt.Minds.touch fun past idled lawful => ?_, fun result t' leads lawful => ?_⟩
  · have went : Went (d.law ρ) me Deed.Looks t past := idled.of_idled.went lawful
    have folds := owed.later held went
    rwa [← Passed.pending_of_idled idled] at folds
  · obtain ⟨past, answer, idled, rfl, _⟩ := Attempt.leads_touch leads
    exact .inl (Trace.pending_concat me past _)

theorem replayed_minds {n : Nat} (held : (World.after t).holders me.place .cache = some me.call) :
    (Procedure.touch (.tally (.replayed n)) : Procedure M R Unit).Minds (Lawful (d.law ρ)) (d.booking ρ) me t := by
  refine fun past idled => ⟨fun lawful => ?_, fun _ _ _ => trivial⟩
  have went : Went (d.law ρ) me Deed.Looks t past := idled.of_idled.went lawful
  exact went.tends.holds held

theorem replayRecords_minds {reader : Reader M.Record} (held : (World.after t).holders me.place .cache = some me.call)
    (loose : d.Loose t (t.pending me)) :
    ((d.replica place).replayRecords slot reader : Procedure M R _).Minds (Lawful (d.law ρ)) (d.booking ρ) me t := by
  have asking := reader.fold_asking (M := M) (R := R) (d.replica place).replayRecord_ofAttempt (reader.bound + 1)
    ⟨slot, 0⟩
  have folding : d.Settles ρ me
      (reader.fold (d.replica place).replayRecord (reader.bound + 1) ⟨slot, 0⟩ : Procedure M R _) t :=
    .of_unbooked (asking.mono (fun _ => Action.Asks.unbooked) fun _ => id) loose
  unfold Replica.replayRecords
  refine .bind folding.minds ?_
  rintro ⟨given, p⟩ t₁ folds
  refine .of_fine (fun le lawful => lawful.of_le le) fun lawful₁ => ?_
  have loose₁ := folding.loose _ _ folds lawful₁
  have inquiring := asking.mono (fun _ => Action.Asks.inquires) fun _ => id
  have held₁ := (went_of_inquiring inquiring folds lawful₁).tends.holds held
  have ends : (given.settle : Procedure M R _).Confined Action.Unbooked fun _ => True := by
    cases given <;> first | trivial | exact .abort trivial
  have settles : d.Settles ρ me (given.settle : Procedure M R _) t₁ := .of_unbooked ends loose₁
  refine .bind settles.minds fun result t₂ settled => ?_
  obtain rfl := settle_leads settled
  dsimp only
  split
  · exact .bind (replayed_minds held₁) fun _ _ _ => trivial
  · trivial

theorem replayFrom_settles {start : Revision} (held : (World.after t).holders me.place .cache = some me.call)
    (cached : t.cache me.place = slot) (here : start.segment = d.segment) (numbered : start.event ≤ start.offset)
    (aligned : d.Aligned t slot start.offset) (begins : d.Begins t slot start) (zero : t.pending me = 0) :
    d.Settles ρ me ((d.replica place).replayFrom slot start).run t := by
  unfold Replica.replayFrom
  refine .ask_bind ((d.client place).readFrom_asking start) (.inl zero) ?_
  intro reader t₁ opened went₁ unbooked₁ loose₁
  obtain rfl := readFrom_leads here went₁.lawful opened
  have held₁ := went₁.tends.holds held
  refine .bind_lift (replayRecords_minds held₁ loose₁) ?_
  rintro ⟨result, slot'⟩ t₂ replayed lawful₂
  have went₂ := went_of_inquiring ((d.replica place).replayRecords_confined slot _) replayed lawful₂
  have went := went₁.trans went₂
  obtain ⟨passes, n, counted, advances⟩ :=
    replayRecords_counts lawful₂ (reads_of_readFrom place numbered t₁) (aligned.mono went₁.le) replayed
  have start' : (⟨d.segment, start.offset, start.event⟩ : Revision) = start := by rw [← here]
  have folds : d.Folds ρ me t₂ slot' n :=
    .of_passes ((went.cache_eq held).trans cached) (begins.mono went.le) (start' ▸ passes) advances
  obtain rfl : t₂.pending me = n := by rw [counted, unbooked₁, zero, Nat.zero_add]
  refine .bind (remember_settles (went₂.tends.holds held₁) folds) fun _ t₃ _ _ loose => ?_
  cases result <;> exact .done loose

theorem replayFrom_pending {start : Revision} {result : Except CoreError Unit} (zero : t.pending me = 0)
    (leads : ((d.replica place).replayFrom slot start).run.Leads me t result t') : t'.pending me = 0 := by
  unfold Replica.replayFrom at leads
  rcases Attempt.leads_bind leads with ⟨reader, t₁, opened, leads⟩ | ⟨cause, opened, rfl⟩
  · obtain ⟨⟨result', slot'⟩, t₂, replayed, leads⟩ := Attempt.leads_lift_bind leads
    obtain ⟨past, answer, idled, leads⟩ := Attempt.leads_touch_bind leads
    cases result' <;> cases leads <;> exact Trace.pending_concat me past _
  · exact (opened.pending_eq ((d.client place).readFrom_asking start).unbooked).trans zero

theorem approach_settles (held : (World.after t).holders me.place .cache = some me.call) (zero : t.pending me = 0) :
    d.Settles ρ me (d.replica place).approach.run t := by
  unfold Replica.approach
  refine .unbooked_bind (.touch trivial) (.inl zero) fun slot t₁ looked lawful₁ unbooked₁ loose₁ => ?_
  obtain ⟨went, cached⟩ := cached_leads lawful₁ looked
  have held₁ := went.tends.holds held
  have zero₁ := unbooked₁.trans zero
  cases slot with
  | some copy =>
    refine .bind (.done loose₁) fun start t₂ begun _ _ => ?_
    cases begun
    have known := placed lawful₁ cached
    refine .lift (replayFrom_settles held₁ cached known.segment known.numbered ⟨?_, nofun⟩ ⟨?_, nofun⟩ zero₁)
    · rintro _ ⟨⟩
      exact ⟨known, rfl⟩
    · rintro _ ⟨⟩
      rfl
  | none =>
    refine .ask_bind (d.replica place).freshStart_asking loose₁ fun start t₂ begun went₂ unbooked₂ _ => ?_
    obtain ⟨offset, rfl, restarts⟩ := freshStart_leads went₂.lawful begun
    have fresh : ∃ start, start <+: t₂ ∧ d.RestartAt start offset := ⟨t₂, List.prefix_refl _, restarts⟩
    exact .lift (replayFrom_settles (went₂.tends.holds held₁) ((went₂.cache_eq held₁).trans cached) rfl
      (Nat.zero_le _) ⟨nofun, fun _ => fresh⟩ ⟨nofun, fun _ => ⟨rfl, fresh⟩⟩ (unbooked₂.trans zero₁))

theorem approach_pending {result : Except CoreError (Except CoreError Unit)} (zero : t.pending me = 0)
    (leads : (d.replica place).approach.run.Leads me t result t') : t'.pending me = 0 := by
  have looks : (Attempt.touch .cached : Attempt M R (Replica.Cached M)).Confined Action.Unbooked fun _ => True :=
    .touch trivial
  unfold Replica.approach at leads
  rcases Attempt.leads_bind leads with ⟨slot, t₁, looked, leads⟩ | ⟨cause, failed, rfl⟩
  · have zero₁ := (looked.pending_eq looks).trans zero
    rcases Attempt.leads_bind leads with ⟨start, t₂, begun, leads⟩ | ⟨cause, failed, rfl⟩
    · obtain ⟨result', replayed, rfl⟩ := Attempt.leads_lift leads
      refine replayFrom_pending ?_ replayed
      cases slot with
      | some copy =>
        cases begun
        exact zero₁
      | none => exact (begun.pending_eq (d.replica place).freshStart_asking.unbooked).trans zero₁
    · cases slot with
      | some copy => cases failed
      | none => exact (failed.pending_eq (d.replica place).freshStart_asking.unbooked).trans zero₁
  · exact (failed.pending_eq looks).trans zero

theorem recover_settles {cause : CoreError} (held : (World.after t).holders me.place .cache = some me.call)
    (zero : t.pending me = 0) : d.Settles ρ me ((d.replica place).recover cause).run t := by
  unfold Replica.recover
  refine .ask_bind (d.replica place).freshStart_asking (.inl zero) fun restart t₁ begun went₁ unbooked₁ loose₁ => ?_
  obtain ⟨offset, rfl, restarts⟩ := freshStart_leads went₁.lawful begun
  refine .ask_bind ((d.client place).readFrom_asking _) loose₁ fun reader t₂ opened went₂ unbooked₂ loose₂ => ?_
  obtain rfl := readFrom_leads rfl went₂.lawful opened
  have pulling := (Reader.next_asking (M := M) (R := R) (d.reader place ⟨d.segment, offset, 0⟩ t₂)).mono
    (fun _ => Action.Asks.unbooked) fun _ => id
  have pulls : d.Settles ρ me (d.reader place ⟨d.segment, offset, 0⟩ t₂).next t₂ := .of_unbooked pulling loose₂
  refine .bind_lift pulls.minds ?_
  rintro ⟨given, reader⟩ t₃ pulled lawful₃
  have loose₃ := pulls.loose _ _ pulled lawful₃
  have zero₃ : t₃.pending me = 0 := by rw [pulled.pending_eq pulling, unbooked₂, unbooked₁, zero]
  cases given with
  | failed | finished => exact .done loose₃
  | uncounted => exact .abort loose₃
  | record revision record =>
    cases record with
    | updates batch => exact .done loose₃
    | init snapshot =>
      have went₃ := went_of_inquiring (Reader.next_confined _) pulled lawful₃
      have fresh : ∃ start, start <+: t₂ ∧ d.RestartAt start offset := ⟨t₁, went₂.le, restarts⟩
      obtain ⟨e, rfl, pulls, aligned⟩ := next_leads_snapshot lawful₃ fresh pulled
      have restart : ∃ earlier, earlier <+: t₃ ∧ d.RestartAt earlier offset :=
        ⟨t₁, went₂.le.trans went₃.le, restarts⟩
      have held₃ := ((went₁.trans went₂).trans went₃).tends.holds held
      refine .bind_lift (replayed_minds held₃) fun _ t₄ tallied lawful₄ => ?_
      have one : t₄.pending me = 1 ∧ Went (d.law ρ) me Deed.Looks t₃ t₄ := by
        cases tallied with
        | step idled outcome ended =>
          cases ended
          cases outcome
          refine ⟨?_, (idled.step trivial).went lawful₄⟩
          rw [Trace.pending_concat, Passed.pending_of_idled idled, zero₃]
          rfl
      obtain ⟨one, went₄⟩ := one
      have entry : ∃ before, before ++ [e] <+: d.log t₄ ∧ ending 0 before = offset := by
        obtain ⟨before, front, position⟩ := pulls.entry
        exact ⟨before, front.trans (Trace.history_le _ went₄.le), position⟩
      -- What has been counted so far is the snapshot, and then also what the replay adds to it.
      have rebuilds : ∀ {t' slot' n}, Lawful (d.law ρ) t' → t₄ <+: t' → t'.pending me = 1 + n →
          d.Passes t' (some (d.firstCopy snapshot e)) ⟨d.segment, e.endOffset, 1⟩ slot' →
          Advances (some (d.firstCopy snapshot e)) 1 slot' n →
          ∃ copy, slot' = some copy ∧ d.Rebuilds t' copy (t'.pending me) := by
        intro t' slot' n lawful le counted passes advances
        obtain ⟨before, front, position⟩ := entry
        obtain ⟨earlier, early, restarts⟩ := restart
        rw [counted, Nat.add_comm]
        exact Rebuilds.of_passes (log_chain lawful) ⟨before, front.trans (Trace.history_le _ le), position⟩
          ⟨earlier, early.trans (went₄.le.trans le), restarts⟩ pulls.decoded passes advances
      have held₄ := went₄.tends.holds held₃
      obtain ⟨_, _, begun₄⟩ := rebuilds lawful₄ (List.prefix_refl _) one .stays (.inl ⟨rfl, rfl⟩)
      refine .bind_lift (replayRecords_minds held₄ (.inr ⟨_, begun₄⟩)) ?_
      rintro ⟨result, slot⟩ t₅ replayed lawful₅
      have went₅ := went_of_inquiring ((d.replica place).replayRecords_confined _ reader) replayed lawful₅
      obtain ⟨passes, n, counted, advances⟩ :=
        replayRecords_counts lawful₅ (pulls.reads.mono went₄.le) (aligned.mono went₄.le) replayed
      rw [pulls.ordinal] at passes advances
      rw [one] at counted
      obtain ⟨copy, rfl, built⟩ := rebuilds lawful₅ went₅.le counted passes advances
      have loose₅ : d.Loose t₅ (t₅.pending me) := .inr ⟨copy, built⟩
      cases result with
      | error cause => exact .done loose₅
      | ok nothing =>
        refine .unbooked_bind (.touch trivial) loose₅ fun _ t₆ tallied lawful₆ unbooked₆ _ => ?_
        obtain ⟨past, _, idled, rfl, _⟩ := Attempt.leads_touch tallied
        have went₆ : Went (d.law ρ) me Deed.Looks t₅ _ := (idled.step trivial).went lawful₆
        refine remember_settles ((went₅.trans went₆).tends.holds held₄) (.rebuilt copy _ ?_)
        rw [unbooked₆]
        exact built.mono went₆.le

theorem catchUp_settles (held : (World.after t).holders me.place .cache = some me.call) (zero : t.pending me = 0) :
    d.Settles ρ me (d.replica place).catchUp.run t := by
  rw [Replica.catchUp_eq_approach]
  refine .bind (approach_settles held zero) fun answer t₁ approached lawful₁ loose₁ => ?_
  cases answer with
  | ok nothing => exact .done loose₁
  | error cause =>
    dsimp only
    split
    · have tended : Passed me Deed.Tends t t₁ :=
        (approached.passed ((d.replica place).approach_within (fun _ => Action.Inquires.reads) trivial
          fun _ => trivial)).mono fun _ => Deed.tends_of_reads
      exact recover_settles ((tended.went lawful₁).holds held) (approach_pending zero approached)
    · exact .done loose₁

theorem locked_settles {body : Attempt M R α} (loose : d.Loose t (t.pending me))
    (inside : ∀ t' : Trace M R O, t <+: t' → (World.after t').holders me.place .cache = some me.call →
      t'.pending me = 0 → d.Settles ρ me body.run t') : d.Settles ρ me (Attempt.locked body).run t := by
  have entered : ∀ past, Idled me t past → d.Settles ρ me body.run (past ++ [⟨me, .acted (.touch .lockCache) ()⟩]) :=
    fun past idled => inside _ (idled.le_concat _) (World.holders_locked past me ()) (Trace.pending_concat me past _)
  unfold Attempt.locked
  refine .follow (fun past idled => ⟨fun _ => ?_, fun _ _ _ => trivial⟩) fun _ t₁ enters lawful₁ => ?_
  · show d.Loose past (past.pending me)
    rw [Passed.pending_of_idled idled]
    exact loose.mono idled.le
  · cases enters with
    | step idled outcome ended =>
      cases ended
      cases outcome
      have settles := entered _ idled
      refine .follow settles.minds fun result t₂ through lawful₂ => ?_
      have loose₂ := settles.loose _ _ through lawful₂
      refine .follow (fun past idled => ⟨fun _ => ?_, fun _ _ _ => trivial⟩) fun _ t₃ leaves _ => ?_
      · show d.Loose past (past.pending me)
        rw [Passed.pending_of_idled idled]
        exact loose₂.mono idled.le
      · cases leaves with
        | step idled outcome ended =>
          cases ended
          cases outcome
          refine .done ?_
          rw [Trace.pending_concat, Passed.pending_of_idled idled]
          exact loose₂.mono (idled.le_concat _)

theorem getRevisionedState_settles (loose : d.Loose t (t.pending me)) :
    d.Settles ρ me (d.replica place).getRevisionedState.run t := by
  refine locked_settles loose fun t₁ _ held zero => .bind (catchUp_settles held zero) fun _ t₂ _ _ loose₂ => ?_
  refine .unbooked_bind (.touch trivial) loose₂ fun slot t₃ _ _ _ loose₃ => ?_
  cases slot <;> exact .done loose₃

section Appending

variable {latest : Revision} {record : M.Record} {snapshot : M.Snapshot}

theorem writeConditionally_unbooked :
    ((d.client place).writeConditionally latest record : Attempt M R _).Confined Action.Unbooked fun _ => True :=
  (d.client place).writeConditionally_within (fun _ => Action.Asks.unbooked) latest fun _ _ => trivial

theorem writeInitial_settles (held : (World.after t).holders me.place .cache = some me.call) (zero : t.pending me = 0) :
    d.Settles ρ me ((d.replica place).writeInitial latest snapshot).run t := by
  unfold Replica.writeInitial
  refine .unbooked_bind writeConditionally_unbooked (.inl zero) fun written t₁ wrote lawful₁ unbooked₁ loose₁ => ?_
  cases written with
  | none => exact .done loose₁
  | some revision =>
    obtain ⟨past, entry, went, landed, _, rfl⟩ := writeConditionally_leads lawful₁ wrote
    have held₁ := (wrote.passed writeConditionally_unbooked).holds_of_unbooked lawful₁ held
    refine .bind (remember_settles held₁ ?_) fun _ _ _ _ loose => .done loose
    rw [unbooked₁, zero]
    exact .own (.init snapshot) entry past t₁ landed (List.prefix_refl _) _ rfl rfl

theorem writeInitial_declined (leads : ((d.replica place).writeInitial latest snapshot).run.Leads me t (.ok false) t') :
    Passed me (Deed.Within Action.Unbooked) t t' := by
  unfold Replica.writeInitial at leads
  rcases Attempt.leads_bind leads with ⟨written, t₁, wrote, leads⟩ | ⟨_, _, ⟨⟩⟩
  cases written with
  | none =>
    cases leads
    exact wrote.passed writeConditionally_unbooked
  | some revision =>
    rcases Attempt.leads_bind leads with ⟨_, t₂, _, leads⟩ | ⟨_, _, ⟨⟩⟩
    cases leads

theorem establish_settles (loose : d.Loose t (t.pending me)) :
    d.Settles ρ me ((d.replica place).establish snapshot).run t := by
  unfold Replica.establish
  refine locked_settles loose fun t₁ _ held zero => ?_
  refine .ask_bind (d.client place).fetchOldest_asking (.inl zero) fun oldest t₂ _ went₂ unbooked₂ loose₂ => ?_
  refine .ask_bind (d.client place).fetchLatest_asking loose₂ fun latest t₃ _ went₃ unbooked₃ loose₃ => ?_
  have held₃ := (went₂.trans went₃).tends.holds held
  have zero₃ : t₃.pending me = 0 := by rw [unbooked₃, unbooked₂, zero]
  split
  · exact .done loose₃
  · refine .bind (writeInitial_settles held₃ zero₃) fun written t₄ _ _ loose₄ => ?_
    cases written <;> exact .done loose₄

theorem establishIfAbsent_settles (loose : d.Loose t (t.pending me)) :
    d.Settles ρ me ((d.replica place).establishIfAbsent snapshot).run t := by
  unfold Replica.establishIfAbsent
  refine locked_settles loose fun t₁ _ held zero => ?_
  refine .ask_bind (d.client place).fetchOldest_asking (.inl zero) fun oldest t₂ _ went₂ unbooked₂ loose₂ => ?_
  refine .ask_bind (d.client place).fetchLatest_asking loose₂ fun latest t₃ _ went₃ unbooked₃ loose₃ => ?_
  have held₃ := (went₂.trans went₃).tends.holds held
  have zero₃ : t₃.pending me = 0 := by rw [unbooked₃, unbooked₂, zero]
  have caught : ∀ t' : Trace M R O, (World.after t').holders me.place .cache = some me.call → t'.pending me = 0 →
      d.Settles ρ me (do
        (d.replica place).catchUp
        pure false : Attempt M R Bool).run t' :=
    fun t' held zero => .bind (catchUp_settles held zero) fun _ _ _ _ loose => .done loose
  split
  · refine .bind (writeInitial_settles held₃ zero₃) fun written t₄ tried lawful₄ loose₄ => ?_
    cases written with
    | true => exact .done loose₄
    | false =>
      have passed := writeInitial_declined tried
      refine caught t₄ (passed.holds_of_unbooked lawful₄ held₃) ?_
      rw [passed.pending_eq fun _ => Deed.pending_of_unbooked, zero₃]
  · exact caught t₃ held₃ zero₃

theorem applyWritten_settles {entry : Entry} {expected revision : Revision} {before after : Trace M R O}
    (loose : d.Loose t (t.pending me)) (landed : d.Landed ρ me record entry before after) (by_ : after <+: t)
    (ends : revision.offset = entry.endOffset) :
    d.Settles ρ me ((d.replica place).applyWritten expected revision record : Procedure M R Unit) t := by
  unfold Replica.applyWritten
  refine .map (locked_settles loose fun t₁ le held zero => ?_)
  refine .unbooked_bind (.touch trivial) (.inl zero) fun slot t₂ looked lawful₂ unbooked₂ loose₂ => ?_
  obtain ⟨went, cached⟩ := cached_leads lawful₂ looked
  have held₂ := went.tends.holds held
  have zero₂ := unbooked₂.trans zero
  cases slot with
  | none => exact catchUp_settles held₂ zero₂
  | some current =>
    dsimp only
    split
    · cases applied : (d.replica place).applyRecord record (some current.state) revision with
      | error cause => exact .done loose₂
      | ok next =>
        refine remember_settles held₂ ?_
        have applied : (record.apply (some current.state) d.name revision).map
            (fun state => (⟨state, revision⟩ : Revisioned M.State)) = .ok next := applied
        cases made : record.apply (some current.state) d.name revision with
        | error cause => simp [made, Except.map] at applied
        | ok state =>
          rw [made] at applied
          cases applied
          rw [zero₂]
          refine .own record entry before after landed (by_.trans (le.trans went.le)) _ ends ?_
          rw [cached]
          exact made
    · exact catchUp_settles held₂ zero₂

theorem writeLoop_settles {propose : M.State → Procedure M R (Option M.Record × β)}
    (proposed : ∀ state, (propose state).Confined Action.Unbooked fun _ => True) (left attempts : Nat)
    (loose : d.Loose t (t.pending me)) :
    d.Settles ρ me ((d.replica place).writeLoop propose left attempts).run t := by
  -- On the attempts left; each one begins with nothing counted that is not accounted for.
  induction left generalizing t attempts with
  | zero => exact .abort loose
  | succ left ih =>
    unfold Replica.writeLoop
    have waits : Attempt.Confined Action.Unbooked (fun _ => True)
        (ExceptT.lift ((d.replica place).pause attempts) : Attempt M R Unit) :=
      .lift ((d.replica place).pause_confined attempts trivial fun _ => trivial)
    refine .unbooked_bind waits loose fun _ t₁ _ _ _ loose₁ => ?_
    refine .bind (getRevisionedState_settles loose₁) fun copy t₂ _ _ loose₂ => ?_
    have asks : d.Settles ρ me (propose copy.state) t₂ := .of_unbooked (proposed copy.state) loose₂
    refine .bind_lift asks.minds ?_
    rintro ⟨proposal, result⟩ t₃ asked lawful₃
    have loose₃ := asks.loose _ _ asked lawful₃
    cases proposal with
    | none => exact .done loose₃
    | some record =>
      refine .unbooked_bind writeConditionally_unbooked loose₃ fun written t₄ tried lawful₄ _ loose₄ => ?_
      cases written with
      | some revision =>
        obtain ⟨before, entry, _, landed, _, rfl⟩ := writeConditionally_leads lawful₄ tried
        have applies : d.Settles ρ me ((d.replica place).applyWritten copy.revision
            ⟨d.segment, entry.endOffset, copy.revision.event + 1⟩ record : Procedure M R Unit) t₄ :=
          applyWritten_settles loose₄ landed (List.prefix_refl _) rfl
        exact .bind_lift applies.minds fun _ t₅ applied lawful₅ => .done (applies.loose _ _ applied lawful₅)
      | none =>
        refine .unbooked_bind (.touch trivial) loose₄ fun _ t₅ _ _ _ loose₅ => ?_
        split
        · exact ih (attempts + 1) loose₅
        · exact .done loose₅

theorem updateBy_settles {batch : M.State → Procedure M R (List M.Update × β)}
    (proposed : ∀ state, (batch state).Confined Action.Unbooked fun _ => True) (loose : d.Loose t (t.pending me)) :
    d.Settles ρ me ((d.replica place).updateBy batch).run t := by
  refine .bind (writeLoop_settles (fun state => ?_) _ _ loose) fun outcome t₁ _ _ loose₁ => ?_
  · exact .bind ((proposed state).mono (fun _ => id) fun _ _ => trivial)
  · split
    · exact .unbooked_bind (.touch trivial) loose₁ fun _ t₂ _ _ _ loose₂ => .done loose₂
    · exact .done loose₁

theorem compactBy_settles {summary : M.State → Procedure M R M.Snapshot}
    (proposed : ∀ state, (summary state).Confined Action.Unbooked fun _ => True) (loose : d.Loose t (t.pending me)) :
    d.Settles ρ me ((d.replica place).compactBy summary).run t := by
  refine .bind (writeLoop_settles (fun state => ?_) _ _ loose) fun outcome t₁ _ _ loose₁ => ?_
  · exact .bind ((proposed state).mono (fun _ => id) fun _ _ => trivial)
  · split
    · exact .done loose₁
    · refine .unbooked_bind (.touch trivial) loose₁ fun _ t₂ _ _ _ loose₂ => ?_
      exact .of_unbooked ((d.replica place).advanceMark_within (fun _ => Action.Asks.unbooked) _ (fun _ _ _ => trivial)
        (fun _ => trivial) trivial) loose₂

end Appending

end Settling

theorem program_settles {me : Caller (Operation M)} {t : Trace M R (Operation M)} (loose : d.Loose t (t.pending me)) :
    d.Settles (conduct M R) me (d.program me.place me.operation).run t := by
  have asks : ∀ action : Action M R, action.Asks → action.Unbooked := fun _ => Action.Asks.unbooked
  have done : ∀ {α β : Type} {x : Attempt M R α} {f : α → β} {t}, d.Settles (conduct M R) me x.run t →
      d.Settles (conduct M R) me (x >>= fun a => pure (f a)).run t :=
    fun settles => .bind settles fun _ _ _ _ loose => .done loose
  have unbooked : ∀ {α : Type} {x : Attempt M R α}, x.Confined Action.Unbooked (fun _ => True) →
      d.Settles (conduct M R) me x.run t := fun confined => .of_unbooked confined loose
  have updates : d.Settles (conduct M R) me (d.replica me.place).updateStateWithResult.run t :=
    updateBy_settles (fun state => .perform trivial fun _ => trivial) loose
  cases me.operation with
  | createSegment =>
    have creates : (Attempt.ask d.segment .createSegment : Attempt M R _).Asking := Attempt.asking_ask trivial
    exact done (done (unbooked creates.unbooked))
  | establish snapshot => exact done (establish_settles loose)
  | establishIfAbsent snapshot => exact done (establishIfAbsent_settles loose)
  | fetchUpdates => exact done (locked_settles loose fun _ _ held zero => catchUp_settles held zero)
  | getState => exact done (done (getRevisionedState_settles loose))
  | getRevisionedState => exact done (getRevisionedState_settles loose)
  | updateState => exact done (done updates)
  | updateStateWithResult => exact done updates
  | compact => exact done (compactBy_settles (fun state => .perform trivial fun _ => trivial) loose)
  | bytesSinceCompaction =>
    refine done (unbooked ?_)
    exact .bind (d.replica me.place).freshStart_asking.unbooked fun _ =>
      .bind (d.client me.place).fetchLatest_asking.unbooked fun _ => .pure _
  | close => exact done (unbooked (.touch trivial))
  | writeRecord => exact done (unbooked (write_within _ asks _ fun _ _ _ => trivial))
  | writeBytes => exact done (unbooked (write_within _ asks _ fun _ _ _ => trivial))
  | compareAndSetMark => exact done (unbooked ((d.client me.place).compareAndSetMark_within asks _ _ fun _ => trivial))
  | truncateTo => exact done (unbooked ((d.client me.place).truncateTo_within asks _ trivial))

end Deployment

end LogReplica
