import LogReplica.Proofs.Replica.Writing

namespace LogReplica

variable {M : Model} {R O : Type}

def Event.closes (e : Event M R O) : Bool :=
  match e.deed with
  | .acted (.touch .close) _ => true
  | _ => false

def Event.failure? (e : Event M R O) : Option SegmentError :=
  match e.deed with
  | .failed _ _ cause => some cause
  | _ => none

theorem Trace.failure?_eq_none {t : Trace M R O} (served : (t.all fun e => e.failure?.isNone) = true) :
    ∀ e ∈ t, e.failure? = none :=
  fun e member => Option.isNone_iff_eq_none.mp (List.all_eq_true.mp served e member)

theorem Trace.candid_of_served {t : Trace M R O} (served : ∀ e ∈ t, e.failure? = none) : t.Candid := by
  intro e member segment request cause failed
  have unfailed := served e member
  rw [Event.failure?, failed] at unfailed
  cases unfailed

def Trace.failures (t : Trace M R O) : List SegmentError := t.filterMap Event.failure?

theorem World.note_closed (w : World M) {e : Event M R O} {place : Nat} (opened : (w.memories place).closed = false)
    (closed : ((w.note e).memories place).closed = true) :
    e.caller.place = place ∧ e.closes = true := by
  have stays : (w.note e).memories place = w.memories place → False := fun same => by
    rw [same, opened] at closed
    cases closed
  obtain ⟨caller, deed⟩ := e
  cases deed with
  | called | failed => exact (stays rfl).elim
  | gaveUp =>
    exact absurd (opened.symm.trans closed) (by decide)
  | acted action answer =>
    cases action with
    | ask | generate | summarize => exact (stays rfl).elim
    | abort => exact nomatch answer
    | touch t =>
      by_cases here : place = caller.place
      · subst here
        simp only [World.note, World.touch, Function.update_self] at closed
        cases t <;> first | exact ⟨rfl, rfl⟩ | exact absurd (opened.symm.trans closed) (by decide)
      · refine (stays ?_).elim
        simp only [World.note, World.touch, Function.update_of_ne here]

theorem Trace.exists_close {t t' : Trace M R O} {place : Nat} (le : t <+: t')
    (opened : ((World.after t).memories place).closed = false)
    (closed : ((World.after t').memories place).closed = true) :
    ∃ before e after, t' = before ++ e :: after ∧ t <+: before ∧ e.caller.place = place ∧ e.closes = true := by
  obtain ⟨more, rfl⟩ := le
  induction more using List.reverseRecOn with
  | nil =>
    rw [List.append_nil, opened] at closed
    cases closed
  | append_singleton more e ih =>
    rw [← List.append_assoc] at closed ⊢
    cases earlier : ((World.after (t ++ more)).memories place).closed with
    | true =>
      obtain ⟨before, close, after, split, le, here, closes⟩ := ih earlier
      exact ⟨before, close, after ++ [e], by simp [split], le, here, closes⟩
    | false =>
      rw [World.after_concat] at closed
      obtain ⟨here, closes⟩ := World.note_closed _ earlier closed
      exact ⟨t ++ more, e, [], rfl, List.prefix_append _ _, here, closes⟩

/-- A memory was closed between two events of this call. -/
def Trace.ClosedMidway (t : Trace M R O) (me : Caller O) : Prop :=
  ∃ before e after, t = before ++ e :: after ∧ e.caller.place = me.place ∧ e.closes = true ∧
    (∃ own ∈ before, own.caller.call = me.call) ∧ ∃ own ∈ after, own.caller.call = me.call

/-- Some request of this call was not served, or its place was closed meanwhile. -/
def Trace.Interrupted (t : Trace M R O) (me : Caller O) : Prop :=
  (∃ e ∈ t, e.caller.call = me.call ∧ e.failure?.isSome) ∨ t.ClosedMidway me

theorem Trace.Interrupted.mono {t t' : Trace M R O} {me : Caller O} (interrupted : t.Interrupted me) (le : t <+: t') :
    t'.Interrupted me := by
  rcases interrupted with ⟨e, member, failed⟩ | ⟨before, e, after, rfl, here, closes, earlier, own, member, mine⟩
  · exact .inl ⟨e, le.subset member, failed⟩
  · obtain ⟨more, rfl⟩ := le
    refine .inr ⟨before, e, after ++ more, by simp, here, closes, earlier, own, ?_, mine⟩
    exact List.mem_append_left _ member

/-- The last thing that the call has done, except for looking. -/
def Trace.Asked (past : Trace M R O) (me : Caller O) (deed : Deed M R) : Prop :=
  ∃ before after, past = before ++ ⟨me, deed⟩ :: after ∧ ∀ e ∈ after, e.caller.call = me.call → e.deed.Looks

theorem Went.asked {law : Law M R O} {me : Caller O} {past t : Trace M R O} {deed : Deed M R}
    (went : Went law me Deed.Looks (past ++ [⟨me, deed⟩]) t) : t.Asked me deed := by
  obtain ⟨⟨more, rfl, own⟩, _⟩ := went
  exact ⟨past, more, by simp, own⟩

namespace Deployment

variable {d : Deployment M} {ρ : Conduct M R O} {me : Caller O} {t t' past : Trace M R O}

abbrev moving (d : Deployment M) (expected : Option Int) (target : Nat) : Deed M R :=
  .acted (.ask d.segment (.compareAndSetAttribute .mark expected (some (target : Int)))) (.ok true)

abbrev cutting (d : Deployment M) (target : Nat) : Deed M R := .acted (.ask d.segment (.truncateBefore target)) (.ok ())

theorem Wrote.mono {target : Nat} (wrote : d.Wrote t me target) (le : t <+: t') : d.Wrote t' me target := by
  obtain ⟨e, member, found⟩ := wrote
  exact ⟨e, le.subset member, found⟩

theorem Landed.wrote {snapshot : M.Snapshot} {entry : Entry}
    (landed : d.Landed ρ me (.init snapshot) entry past t) : d.Wrote t me entry.offset := by
  refine ⟨_, landed.did.last ▸ List.mem_append_right _ (List.mem_singleton_self _), rfl, entry, ?_, rfl, ?_⟩
  · simp [Event.landed?]
  · exact fun trips => ⟨snapshot, trips _ _ landed.encoded⟩

theorem Did.moved {expected : Option Int} {target : Nat} (did : Did (d.law ρ) me (d.moving expected target) past t) :
    d.Moved t me target :=
  ⟨_, did.last ▸ List.mem_append_right _ (List.mem_singleton_self _), rfl, expected, rfl⟩

theorem Did.mark_eq {expected : Option Int} {target : Nat} (did : Did (d.law ρ) me (d.moving expected target) past t) :
    d.mark t = some (target : Int) ∧ d.oldest t = d.oldest past ∧ d.log t = d.log past := by
  have lawful := did.lawful
  rw [did.last] at lawful ⊢
  rw [Deployment.mark, Deployment.oldest, Trace.mark, Trace.oldest, Trace.buffer, World.after_concat, log_concat]
  cases lawful.effect d.segment with
  | swapped key _ _ deed found logs start mark =>
    cases deed
    exact ⟨mark, start, List.append_nil _⟩
  | landed expected' entry deed => cases deed
  | truncated offset deed => cases deed
  | still quiet => exact absurd rfl quiet

theorem Did.oldest_eq {target : Nat} (did : Did (d.law ρ) me (d.cutting target) past t) :
    d.oldest t = max (d.oldest past) target ∧ d.mark t = d.mark past ∧ d.log t = d.log past := by
  have lawful := did.lawful
  rw [did.last] at lawful ⊢
  rw [Deployment.mark, Deployment.oldest, Trace.mark, Trace.oldest, Trace.buffer, World.after_concat, log_concat]
  cases lawful.effect d.segment with
  | truncated offset deed logs start mark =>
    cases deed
    exact ⟨start, mark, List.append_nil _⟩
  | landed expected' entry deed => cases deed
  | swapped key expected' new deed => cases deed
  | still quiet => exact absurd rfl quiet

theorem interrupted_of_told {open' : Trace M R O} (own : ∃ e ∈ open', e.caller.call = me.call) (le : open' <+: past)
    (opened : ((World.after open').memories me.place).closed = false)
    (lawful : Lawful (d.law ρ) (past ++ [⟨me, .acted (.touch .isClosed) true⟩])) :
    (past ++ [(⟨me, .acted (.touch .isClosed) true⟩ : Event M R O)]).Interrupted me := by
  obtain ⟨_, fits, _⟩ := lawful.of_concat
  have closed : ((World.after past).memories me.place).closed = true := fits.2.symm
  obtain ⟨before, e, after, split, early, here, closes⟩ := Trace.exists_close le opened closed
  obtain ⟨known, member, mine⟩ := own
  refine .inr ⟨before, e, after ++ [⟨me, .acted (.touch .isClosed) true⟩], ?_, here, closes, ⟨known, ?_, mine⟩,
    ⟨me, .acted (.touch .isClosed) true⟩, ?_, rfl⟩
  · rw [split, List.append_assoc]
    rfl
  · exact early.subset member
  · exact List.mem_append_right _ (List.mem_singleton_self _)

/-- How an attempt to move the mark to `target` and to cut the log off there ended without an error. -/
inductive Advanced (d : Deployment M) (ρ : Conduct M R O) (me : Caller O) (target : Nat) (t t' : Trace M R O) : Prop
  | superseded (t₁ : Trace M R O) (offset : Nat) (before : Went (d.law ρ) me (Deed.Quiet d.segment) t t₁)
    (marked : d.mark t₁ = some (offset : Int)) (newer : target ≤ offset)
    (after : Went (d.law ρ) me (Deed.Quiet d.segment) t₁ t')
  | lost (t₁ t₂ : Trace M R O) (before : Went (d.law ρ) me (Deed.Quiet d.segment) t t₁)
    (between : Went (d.law ρ) me (Deed.Quiet d.segment) t₁ t₂) (moved : d.mark t₂ ≠ d.mark t₁)
    (after : Went (d.law ρ) me (Deed.Quiet d.segment) t₂ t')
  | done (expected : Option Int) (t₁ t₂ t₃ t₄ : Trace M R O) (before : Went (d.law ρ) me (Deed.Quiet d.segment) t t₁)
    (moved : Did (d.law ρ) me (d.moving expected target) t₁ t₂)
    (between : Went (d.law ρ) me (Deed.Quiet d.segment) t₂ t₃) (cut : Did (d.law ρ) me (d.cutting target) t₃ t₄)
    (after : Went (d.law ρ) me (Deed.Quiet d.segment) t₄ t')

theorem Advanced.since {target : Nat} (advanced : d.Advanced ρ me target past t')
    (went : Went (d.law ρ) me (Deed.Quiet d.segment) t past) :
    d.Advanced ρ me target t t' := by
  cases advanced with
  | superseded t₁ offset before marked newer after => exact .superseded t₁ offset (went.trans before) marked newer after
  | lost t₁ t₂ before between moved after => exact .lost t₁ t₂ (went.trans before) between moved after
  | done expected t₁ t₂ t₃ t₄ before moved between cut after =>
    exact .done expected t₁ t₂ t₃ t₄ (went.trans before) moved between cut after

section Moving

variable {crash : Trace M R O → Prop} {err : CoreError → Trace M R O → Prop} (place : Nat)

theorem checkSegment?_safe {revision? : Option Revision} {ok : Unit → Trace M R O → Prop}
    (here : ∀ revision, revision? = some revision → revision.segment = d.segment) (checked : ok () t) :
    Attempt.Safe (d.law ρ) me crash ok err ((d.client place).checkSegment? revision?) t := by
  cases revision? with
  | none => exact .pure checked
  | some revision => exact checkSegment_safe place (here revision rfl) checked

theorem truncateTo_safe {ok : Unit → Trace M R O → Prop} {target : Revision} (here : target.segment = d.segment)
    (moved : d.Moved t me target.offset) (wrote : d.Wrote t me target.offset)
    (cut : ∀ past t', Went (d.law ρ) me Deed.Looks t past → Did (d.law ρ) me (d.cutting target.offset) past t' →
      ok () t')
    (closed : ∀ past, Went (d.law ρ) me Deed.Looks t (past ++ [⟨me, .acted (.touch .isClosed) true⟩]) → t <+: past →
      err .closed (past ++ [⟨me, .acted (.touch .isClosed) true⟩]))
    (failed : ∀ request cause t', Went (d.law ρ) me (Deed.Quiet d.segment) t t' →
      (⟨me, .failed d.segment request cause⟩ : Event M R O) ∈ t' → err (.ofSegment cause) t') :
    Attempt.Safe (d.law ρ) me crash ok err ((d.client place).truncateTo target) t := by
  unfold Client.truncateTo
  refine .bind (ensureOpen_told_safe (fun t₁ checked _ => .bind (checkSegment_safe place here ?_)) closed)
  show Attempt.Safe _ _ _ _ _ (Attempt.ask d.segment (.truncateBefore target.offset)) t₁
  refine .ask ?_ ?_ ?_
  · intro past waited
    obtain ⟨e, member, mine⟩ := moved
    exact ⟨rfl, trivial, .inr ⟨e, (checked.le.trans waited.le).subset member, mine⟩⟩
  · intro _ past waited lawful
    exact cut past _ (checked.trans waited.of_waited) ⟨rfl, lawful⟩
  · intro cause deed past waited outcome lawful
    obtain ⟨e, member, begins, _⟩ := (wrote.mono (checked.le.trans waited.le)).entry
    rcases refused_or_failed outcome lawful with rfl | ⟨rfl, refusal⟩
    · refine failed _ cause _ ?_ (List.mem_append_right _ (List.mem_singleton_self _))
      exact ((checked.trans waited.of_waited).tends.quiet d.segment).concat trivial lawful
    -- A cut at the offset of a snapshot in the log is never refused.
    · cases refusal with
      | absent _ none =>
        rw [Deployment.log, (lawful.of_concat.1.logs d.segment).eq_nil_of_absent none] at member
        cases member
      | uncuttable offset tail apart =>
        obtain ⟨before, front, ends⟩ := (log_chain lawful.of_concat.1).exists_front member
        exact absurd (ends.trans begins) (apart before front)

variable (failed : ∀ cause t', Went (d.law ρ) me (Deed.Quiet d.segment) t t' → d.Blame ρ me t t' cause → err cause t')

include failed

theorem markValue_safe {position : Option Nat} {ok : Option Int → Trace M R O → Prop} (lawful : Lawful (d.law ρ) t)
    (inside : ∀ offset, position = some offset → offset ≤ ending 0 (d.log t))
    (fits : ok (position.map Int.ofNat) t) : Attempt.Safe (d.law ρ) me crash ok err (Client.markValue? position) t := by
  unfold Client.markValue?
  cases position with
  | none => exact .pure fits
  | some offset =>
    unfold Client.markValue
    by_cases small : offset < 2 ^ 63
    · simp only [if_pos small]
      exact .pure fits
    · simp only [if_neg small]
      exact .throw (failed _ t (Went.refl lawful)
        (.outOfRange offset t (List.prefix_refl _) (Nat.le_of_not_lt small) (inside offset rfl)))

theorem compareAndSetMark_safe {ok : Bool → Trace M R O → Prop} {old : Option Revision} {target : Revision}
    (lawful : Lawful (d.law ρ) t) (compacts : ρ.compacts me.operation)
    (here : ∀ revision, old = some revision → revision.segment = d.segment) (here' : target.segment = d.segment)
    (ahead : ∀ revision, old = some revision → revision.offset < target.offset) (wrote : d.Wrote t me target.offset)
    (swapped : ∀ open' past t', open' <+: past → t <+: open' → ((World.after open').memories me.place).closed = false →
      Went (d.law ρ) me Deed.Looks t past →
      Did (d.law ρ) me (d.moving (old.map fun revision => (revision.offset : Int)) target.offset) past t' → ok true t')
    (lost : ∀ past t', Went (d.law ρ) me Deed.Looks t past →
      d.mark past ≠ old.map (fun revision => (revision.offset : Int)) →
      Went (d.law ρ) me (Deed.Quiet d.segment) past t' → ok false t') :
    Attempt.Safe (d.law ρ) me crash ok err ((d.client place).compareAndSetMark old (some target)) t := by
  have fails : d.Fails ρ me err t := fun cause t' went blame _ => failed cause t' (went.tends.quiet d.segment) blame
  have inside : target.offset ≤ ending 0 (d.log t) := Nat.le_of_lt (wrote.lt_ending (log_chain lawful))
  unfold Client.compareAndSetMark
  refine .bind (ensureOpen_safe fails fun t₁ checked opened => ?_)
  have low : target.offset ≤ ending 0 (d.log t₁) := Nat.le_trans inside (ending_mono checked.lawful checked.le)
  have failed₁ : ∀ cause t', Went (d.law ρ) me (Deed.Quiet d.segment) t₁ t' → d.Blame ρ me t₁ t' cause → err cause t' :=
    fun cause t' went blame => failed cause t' ((checked.tends.quiet d.segment).trans went) (blame.since checked.le)
  refine .bind (checkSegment?_safe place here (.bind (checkSegment_safe place here' ?_)))
  -- The check against moving back passes, and so does that of both values, which are inside the log.
  have forward : Client.regresses (old.map (·.offset)) (some target.offset) = false := by
    cases old with
    | none => rfl
    | some revision =>
      have := ahead revision rfl
      simp only [Option.map_some, Client.regresses, decide_eq_false_iff_not]
      omega
  simp only [Option.map_some, forward, Bool.false_eq_true, if_false]
  refine .bind (markValue_safe failed₁ checked.lawful ?_ ?_)
  · intro offset same
    obtain ⟨revision, here, rfl⟩ := Option.map_eq_some_iff.mp same
    have := ahead revision here
    omega
  refine .bind (markValue_safe failed₁ checked.lawful (fun _ same => by cases same; exact low) ?_)
  have wanted : (old.map (·.offset)).map Int.ofNat = old.map fun revision => (revision.offset : Int) :=
    Option.map_map _ _ _
  rw [wanted]
  show Attempt.Safe _ _ _ _ _ (Attempt.ask d.segment (.compareAndSetAttribute .mark _ (some (target.offset : Int)))) t₁
  refine .ask ?_ ?_ ?_
  · intro past waited
    have before : ∀ value : Int, old.map (fun revision => (revision.offset : Int)) = some value →
      value < target.offset := by
      intro value same
      obtain ⟨revision, here, rfl⟩ := Option.map_eq_some_iff.mp same
      have := ahead revision here
      omega
    refine ⟨rfl, ⟨rfl, ?_, fun value same => ⟨target.offset, rfl, Int.le_of_lt (before value same)⟩⟩, .inr ?_⟩
    · rintro _ ⟨⟩
      exact Int.natCast_nonneg _
    · exact ⟨compacts, target.offset, rfl, before, wrote.mono (checked.le.trans waited.le)⟩
  · intro answer past waited lawful
    have went := checked.trans waited.of_waited
    cases answer with
    | true => exact swapped t₁ past _ waited.le checked.le opened went ⟨rfl, lawful⟩
    | false =>
      obtain ⟨before, fits, _⟩ := lawful.of_concat
      refine lost past _ went (Store.Logs.unswapped fits.symm) ?_
      exact (Went.refl before).concat trivial lawful
  · intro cause deed past waited outcome lawful
    have quiet : Went (d.law ρ) me (Deed.Quiet d.segment) t (past ++ [⟨me, deed⟩]) :=
      ((checked.trans waited.of_waited).tends.quiet d.segment).concat (quiet_of_error outcome) lawful
    rcases refused_or_failed outcome lawful with rfl | ⟨rfl, refusal⟩
    · exact failed _ _ quiet (.failed _ cause (List.mem_append_right _ (List.mem_singleton_self _)))
    · cases refusal with
      | absent _ none =>
        exact failed _ _ quiet (.absent past (checked.le.trans waited.le) (List.prefix_append _ _) none)

theorem advanceMark_safe {ok : Unit → Trace M R O → Prop} {target : Revision} (compacts : ρ.compacts me.operation)
    (here : target.segment = d.segment) (wrote : d.Wrote t me target.offset)
    (advanced : ∀ t', d.Advanced ρ me target.offset t t' → ok () t')
    (halted : ∀ cause expected t₁ t₂ t', Went (d.law ρ) me (Deed.Quiet d.segment) t t₁ →
      Did (d.law ρ) me (d.moving expected target.offset) t₁ t₂ → Went (d.law ρ) me (Deed.Quiet d.segment) t₂ t' →
      t'.Interrupted me → d.Blame ρ me t t' cause → err cause t') :
    Attempt.Safe (d.law ρ) me crash ok err ((d.replica place).advanceMark target) t := by
  have fails : d.Fails ρ me err t := fun cause t' went blame _ => failed cause t' (went.tends.quiet d.segment) blame
  -- With a mark and without one it goes on alike.
  have goes : ∀ (old : Option Revision) t₁, Went (d.law ρ) me Deed.Looks t t₁ →
      d.mark t₁ = old.map (fun revision => (revision.offset : Int)) →
      (∀ revision, old = some revision → revision.segment = d.segment) →
      Attempt.Safe (d.law ρ) me crash ok err
        (if old.any (fun old => !target.isNewerThan old) = true then pure () else do
        if ← (d.client place).compareAndSetMark old (some target) then
          (d.client place).truncateTo target
          Attempt.touch (.tally .truncation)) t₁ := by
    intro old t₁ looked marked here'
    have read := looked.tends.quiet d.segment
    split
    · rename_i behind
      cases old with
      | none => cases behind
      | some revision =>
        refine .pure (advanced t₁ (.superseded t₁ revision.offset read marked ?_ (Went.refl read.lawful)))
        simp only [Option.any_some, Bool.not_eq_true', ← Bool.not_eq_true, Revision.isNewerThan_iff] at behind
        exact Nat.le_of_not_lt fun ahead => behind ⟨here.trans (here' revision rfl).symm, ahead⟩
    · rename_i ahead
      have wrote₁ := wrote.mono looked.le
      refine .bind (compareAndSetMark_safe place ?_ looked.lawful compacts here' here ?_ wrote₁ ?_ ?_)
      · exact fun cause t' went blame => failed cause t' (read.trans went) (blame.since looked.le)
      · rintro revision rfl
        simp only [Option.any_some, Bool.not_eq_true', Bool.not_eq_false, Revision.isNewerThan_iff] at ahead
        exact ahead.2
      · intro open' past t₂ early since opened went moved
        have before := read.trans (went.tends.quiet d.segment)
        obtain ⟨e, member, mine, _⟩ := wrote₁
        have wrote₂ := wrote.mono (before.le.trans moved.le)
        refine Attempt.Safe.bind (truncateTo_safe place here moved.moved wrote₂ ?_ ?_ ?_)
        · intro past' t₃ went' cut
          refine .lift (tally_safe fun t₄ counted => advanced t₄ ?_)
          exact .done _ past t₂ past' t₃ before moved (went'.tends.quiet d.segment) cut (counted.tends.quiet d.segment)
        · intro past' told since'
          refine halted _ _ past t₂ _ before moved (told.tends.quiet d.segment) ?_ ?_
          · refine interrupted_of_told ⟨e, since.subset member, mine⟩ ?_ opened told.lawful
            exact early.trans (moved.le.trans since')
          · exact .closed past' ((before.le.trans moved.le).trans since') (List.prefix_refl _)
        · intro request cause t' went' happened
          exact halted _ _ past t₂ t' before moved went' (.inl ⟨_, happened, rfl, rfl⟩) (.failed request cause happened)
      · intro past t' went other after
        refine .pure (advanced t' (.lost t₁ past read (went.tends.quiet d.segment) ?_ after))
        rw [marked]
        exact other
  unfold Replica.advanceMark
  refine .bind (getMark_safe fails place ?_ ?_)
  · intro t₁ looked unset
    exact goes none t₁ looked unset (fun _ same => by cases same)
  · intro offset t₁ looked set
    refine goes _ t₁ looked set ?_
    rintro _ ⟨⟩
    rfl

end Moving

/-- How a compaction ended without an error: its snapshot has landed. -/
def Compacted (d : Deployment M) (ρ : Conduct M R O) (me : Caller O) (t t' : Trace M R O) : Prop :=
  ∃ snapshot entry past t₁, Went (d.law ρ) me (Deed.Quiet d.segment) t past ∧
    d.Landed ρ me (.init snapshot) entry past t₁ ∧
    d.Advanced ρ me entry.offset t₁ t'

section Calling

variable {crash : Trace M R O → Prop} {err : CoreError → Trace M R O → Prop} (place : Nat)
  (lawful : Lawful (d.law ρ) t)
  (ends : ∀ t', Went (d.law ρ) me (Deed.Steady d.segment) t t' → crash (t' ++ [⟨me, .gaveUp⟩]))
  (failed : ∀ cause t', Went (d.law ρ) me (Deed.Steady d.segment) t t' → d.Blame ρ me t t' cause → err cause t')

include lawful ends failed

theorem updateBy_safe {β : Type} {batch : M.State → Procedure M R (List M.Update × β)} {ok : β → Trace M R O → Prop}
    {kind : Option M.Record → Prop}
    (own : d.Proposes ρ me t crash kind fun state => do
      let (updates, result) ← batch state
      pure (if updates.isEmpty then none else some (.updates updates), result))
    (unwritten : ∀ result t', Went (d.law ρ) me (Deed.Quiet d.segment) t t' → ok result t')
    (wrote : ∀ result record entry past t₁ t₂ t', Went (d.law ρ) me (Deed.Quiet d.segment) t past →
      d.Landed ρ me record entry past t₁ → Went (d.law ρ) me (Deed.Quiet d.segment) t₁ t₂ →
      Did (d.law ρ) me (.acted (.touch (.tally .written)) ()) t₂ t' → ok result t') :
    Attempt.Safe (d.law ρ) me crash ok err ((d.replica place).updateBy batch) t := by
  unfold Replica.updateBy
  refine .bind (writeLoop_safe place own _ 0 (Went.refl lawful) ends ?_ ?_ ?_)
  · exact fun result t' went _ => .pure (unwritten result t' went)
  · intro result expected written record entry past t₁ t' before landed _ after _ _
    refine .bind (.touch (fun _ _ _ need => by cases need) (fun _ _ => trivial) ?_)
    intro _ past' waited _ _ lawful
    exact .pure (wrote result record entry past t₁ past' _ before landed (after.trans waited.of_waited) ⟨rfl, lawful⟩)
  · exact fun cause t' went blame => failed cause t' went.steady blame

theorem updateStateWithResult_safe {ok : R → Trace M R O → Prop}
    (proposes : ∀ past state batch result, past.Asked me (.acted (.generate state) (batch, result)) →
      ρ.proposes past me state (.updates batch))
    (updated : ∀ result t', Went (d.law ρ) me (Deed.Steady d.segment) t t' → ok result t') :
    Attempt.Safe (d.law ρ) me crash ok err (d.replica place).updateStateWithResult t := by
  have own : d.Proposes ρ me t crash (fun _ => True) fun state => (do
      let (updates, result) ← Procedure.perform (.generate state)
      pure (if updates.isEmpty then none else some (.updates updates), result)) := by
    intro state t₁ post _ ends proposed
    have may : Action.MayEnd (.generate state : Action M R) := trivial
    refine Procedure.Safe.bind (Procedure.Safe.invoke may (fun _ _ => trivial) (fun _ _ => trivial) ?_ ?_)
    · exact fun past waited => ends past waited.of_waited
    · intro answer past waited lawful
      refine proposed _ _ _ (waited.step trivial lawful) trivial fun record past' same looked => ?_
      split at same
      · cases same
      · cases same
        exact proposes past' state _ _ looked.asked
  unfold Replica.updateStateWithResult
  refine updateBy_safe place lawful ends failed own (fun result t' went => updated result t' went.steady) ?_
  intro result record entry past t₁ t₂ t' before landed after counted
  exact updated result t' ((before.steady.trans landed.steady).trans (after.steady.trans (counted.went trivial)))

theorem compactBy_safe {summary : M.State → Procedure M R M.Snapshot} {ok : Unit → Trace M R O → Prop}
    (compacts : ρ.compacts me.operation)
    (own : d.Proposes ρ me t crash (fun proposal => ∃ snapshot, proposal = some (.init snapshot)) fun state => do
      let snapshot ← summary state
      pure (some (.init snapshot), ()))
    (compacted : ∀ t', d.Compacted ρ me t t' → ok () t')
    (halted : ∀ cause expected target t₁ t₂ t', Went (d.law ρ) me (Deed.Steady d.segment) t t₁ →
      Did (d.law ρ) me (d.moving expected target) t₁ t₂ → Went (d.law ρ) me (Deed.Quiet d.segment) t₂ t' →
      t'.Interrupted me → d.Blame ρ me t t' cause → err cause t') :
    Attempt.Safe (d.law ρ) me crash ok err ((d.replica place).compactBy summary) t := by
  unfold Replica.compactBy
  refine .bind (writeLoop_safe place own _ 0 (Went.refl lawful) ends ?_ ?_ ?_)
  · rintro result t' _ ⟨snapshot, none⟩
    cases none
  · rintro result expected written _ entry past t₁ t' before landed ⟨snapshot, ⟨⟩⟩ after here begins
    refine .bind (.lift (tally_safe fun t₂ counted => ?_))
    have after := after.trans (counted.tends.quiet d.segment)
    have reached := before.steady.trans landed.steady
    have wrote : d.Wrote t₂ me expected.offset := begins ▸ landed.wrote.mono after.le
    refine advanceMark_safe place ?_ compacts here wrote ?_ ?_
    · intro cause t' went blame
      exact failed cause t' (reached.trans (after.trans went).steady) (blame.since (reached.le.trans after.le))
    · intro t' advanced
      rw [begins] at advanced
      exact compacted t' ⟨snapshot, entry, past, t₁, before, landed, advanced.since after⟩
    · intro cause old t₃ t₄ t' read moved went interrupted blame
      exact halted cause old expected.offset t₃ t₄ t' (reached.trans (after.trans read).steady) moved went interrupted
        (blame.since (reached.le.trans after.le))
  · exact fun cause t' went blame => failed cause t' went.steady blame

theorem compact_safe {ok : Unit → Trace M R O → Prop} (compacts : ρ.compacts me.operation)
    (proposes : ∀ past state snapshot, past.Asked me (.acted (.summarize state) snapshot) →
      ρ.proposes past me state (.init snapshot))
    (compacted : ∀ t', d.Compacted ρ me t t' → ok () t')
    (halted : ∀ cause expected target t₁ t₂ t', Went (d.law ρ) me (Deed.Steady d.segment) t t₁ →
      Did (d.law ρ) me (d.moving expected target) t₁ t₂ → Went (d.law ρ) me (Deed.Quiet d.segment) t₂ t' →
      t'.Interrupted me → d.Blame ρ me t t' cause → err cause t') :
    Attempt.Safe (d.law ρ) me crash ok err (d.replica place).compact t := by
  have own : d.Proposes ρ me t crash (fun proposal => ∃ snapshot, proposal = some (.init snapshot)) fun state => (do
      let snapshot ← Procedure.perform (.summarize state)
      pure (some (.init snapshot), ())) := by
    intro state t₁ post _ ends proposed
    have may : Action.MayEnd (.summarize state : Action M R) := trivial
    refine Procedure.Safe.bind (Procedure.Safe.invoke may (fun _ _ => trivial) (fun _ _ => trivial) ?_ ?_)
    · exact fun past waited => ends past waited.of_waited
    · intro snapshot past waited lawful
      refine proposed _ _ _ (waited.step trivial lawful) ⟨snapshot, rfl⟩ fun record past' same looked => ?_
      cases same
      exact proposes past' state _ looked.asked
  exact compactBy_safe place lawful ends failed compacts own compacted halted

end Calling

end Deployment

end LogReplica
