import LogReplica.Proofs.Replica.CatchUp

namespace LogReplica

variable {M : Model} {R O : Type}

namespace Deployment

variable {d : Deployment M} {ρ : Conduct M R O} {me : Caller O} {t t' past : Trace M R O}

structure Did (law : Law M R O) (me : Caller O) (deed : Deed M R) (past t : Trace M R O) : Prop where
  last : t = past ++ [⟨me, deed⟩]
  lawful : Lawful law t

theorem Did.le {law : Law M R O} {deed : Deed M R} (did : Did law me deed past t) : past <+: t :=
  did.last ▸ List.prefix_append _ _

theorem Did.went {law : Law M R O} {deed : Deed M R} {allowed : Deed M R → Prop} (did : Did law me deed past t)
    (fine : allowed deed) : Went law me allowed past t := by
  have lawful := did.lawful
  rw [did.last] at lawful ⊢
  exact (Went.refl lawful.of_concat.1).concat fine lawful

structure Landed (d : Deployment M) (ρ : Conduct M R O) (me : Caller O) (record : M.Record) (entry : Entry)
    (past t : Trace M R O) : Prop where
  did : Did (d.law ρ) me
    (.acted (.ask d.segment (.append (some entry.offset) entry.data))
      (.ok (.appended entry.offset entry.endOffset))) past t
  begins : entry.offset = ending 0 (d.log past)
  encoded : d.codec.encode record = .ok entry.data

namespace Landed

variable {record : M.Record} {entry : Entry}

theorem steady (landed : d.Landed ρ me record entry past t) : Went (d.law ρ) me (Deed.Steady d.segment) past t :=
  landed.did.went trivial

theorem log (landed : d.Landed ρ me record entry past t) : d.log t = d.log past ++ [entry] := by
  rw [landed.did.last, log_of_landed past]
  simp [Event.landed?]

theorem begins_lt_ends (landed : d.Landed ρ me record entry past t) : entry.offset < entry.endOffset := by
  have chain := log_chain landed.did.lawful
  rw [landed.log] at chain
  have ends := chain.endOffset_eq
  rw [landed.begins]
  simp only [Framed.headerSize] at ends
  omega

theorem memories (landed : d.Landed ρ me record entry past t) :
    (World.after t).memories = (World.after past).memories ∧ (World.after t).holders = (World.after past).holders := by
  rw [landed.did.last, World.after_concat]
  exact ⟨rfl, rfl⟩

theorem bounds (landed : d.Landed ρ me record entry past t) : d.mark t = d.mark past ∧ d.oldest t = d.oldest past := by
  have lawful := landed.did.lawful
  rw [landed.did.last] at lawful ⊢
  exact lawful.unmoved_of_steady d.segment trivial

end Landed

theorem landed_of_answer {record : M.Record} {bytes : Bytes} {expected offset endOffset : Nat}
    (encoded : d.codec.encode record = .ok bytes)
    (lawful : Lawful (d.law ρ) (past ++ [⟨me, .acted (.ask d.segment (.append (some expected) bytes))
      (.ok (.appended offset endOffset))⟩])) :
    offset = expected ∧ d.Landed ρ me record ⟨offset, endOffset, bytes⟩ past
      (past ++ [⟨me, .acted (.ask d.segment (.append (some expected) bytes)) (.ok (.appended offset endOffset))⟩]) := by
  cases lawful.effect d.segment with
  | landed expected' entry deed begins wanted logs start mark =>
    cases deed
    have same := begins.trans (wanted expected rfl).symm
    subst same
    exact ⟨rfl, ⟨rfl, lawful⟩, begins, encoded⟩
  | swapped key expected new deed => cases deed
  | truncated offset deed => cases deed
  | still quiet => exact absurd rfl quiet

def Tries (d : Deployment M) (deed : Deed M R) : Prop := deed.Spares d.segment ∧ deed.Retains

theorem writeConditionally_safe {crash : Trace M R O → Prop} {err : CoreError → Trace M R O → Prop}
    {ok : Option Revision → Trace M R O → Prop} (place : Nat) {latest : Revision} {record : M.Record}
    (here : latest.segment = d.segment) (numbered : latest.event ≤ latest.offset)
    (may : ∀ past, Went (d.law ρ) me Deed.Looks t past →
      ρ.raw me.operation ∨ d.Founds ρ past me latest.offset record ∨ d.Follows ρ past me latest.offset record)
    (landed : ∀ past entry t' event, Went (d.law ρ) me Deed.Looks t past → d.Landed ρ me record entry past t' →
      entry.offset = latest.offset → event ≤ entry.endOffset → ok (some ⟨d.segment, entry.endOffset, event⟩) t')
    (uncounted : ∀ past entry t₁ t', Went (d.law ρ) me Deed.Looks t past → d.Landed ρ me record entry past t₁ →
      Revision.nextEvent? latest.event = none → Waited (d.law ρ) me t₁ t' → crash (t' ++ [⟨me, .gaveUp⟩]))
    (conflict : ∀ t', Went (d.law ρ) me d.Tries t t' → latest.offset ≠ ending 0 (d.log t') → ok none t')
    (failed : ∀ cause t', Went (d.law ρ) me d.Tries t t' → d.Blame ρ me t t' cause → err cause t') :
    Attempt.Safe (d.law ρ) me crash ok err ((d.client place).writeConditionally latest record) t := by
  have quiet : ∀ {t'}, Went (d.law ρ) me Deed.Looks t t' → Went (d.law ρ) me d.Tries t t' := fun went =>
    went.mono fun _ looks => ⟨looks.spares d.segment, looks.tends.retains⟩
  unfold Client.writeConditionally
  refine .bind (ensureOpen_safe (fun cause t' went blame _ => failed cause t' (quiet went) blame) fun t₁ checked _ =>
    ?_)
  refine .bind (checkSegment_safe place here ?_)
  unfold Client.encode
  cases encoded : (d.client place).codec.encode record with
  | error cause => exact .bind (.throw (failed _ t₁ (quiet checked) (.unencodable record cause encoded)))
  | ok bytes =>
    refine .bind (.pure (.bind (.ask ?_ ?_ ?_)))
    · intro past waited
      refine ⟨rfl, trivial, ?_⟩
      exact (may past (checked.trans waited.of_waited)).imp_right fun basis => ⟨_, record, rfl, encoded, basis⟩
    · intro answer past waited lawful
      have went := checked.trans waited.of_waited
      cases answer with
      | appended offset endOffset =>
        obtain ⟨same, lands⟩ := landed_of_answer encoded lawful
        dsimp only
        cases counted : Revision.nextEvent? latest.event with
        | some event =>
          have next := Revision.eq_succ_of_nextEvent? counted
          have lt : offset < endOffset := lands.begins_lt_ends
          exact .pure (landed past _ _ event went lands same (by show event ≤ endOffset; omega))
        -- The record has landed, but there is no revision left to name it by.
        | none => exact .abort (fun _ _ => trivial) fun t' waited => uncounted past _ _ t' went lands counted waited
      | conflict tail =>
        obtain ⟨before, fits, _⟩ := lawful.of_concat
        obtain ⟨log, _⟩ := lawful.still_of_quiet d.segment trivial
        refine .pure (conflict _ ((quiet went).concat ⟨⟨trivial, nofun⟩, trivial⟩ lawful) ?_)
        rw [Deployment.log, log]
        exact (before.logs d.segment).conflict fits.symm
    · intro cause deed past waited outcome lawful
      have went := (quiet (checked.trans waited.of_waited)).concat
        ⟨spares_of_error outcome, by cases outcome <;> trivial⟩ lawful
      rcases refused_or_failed outcome lawful with rfl | ⟨rfl, refusal⟩
      · exact failed _ _ went (.failed (.append (some latest.offset) bytes) cause (by simp))
      · cases refusal with
        | absent _ none =>
          exact failed _ _ went (.absent past (checked.le.trans waited.le) (List.prefix_append _ _) none)
        | tooLarge => exact failed _ _ went (.tooLarge _)

theorem writeInitial_safe {crash : Trace M R O → Prop} {err : CoreError → Trace M R O → Prop}
    {ok : Bool → Trace M R O → Prop} (place : Nat) {position : Nat} {snapshot : M.Snapshot}
    (founds : ρ.founds me.operation) (began : ∃ earlier, earlier <+: t ∧ d.oldest earlier = position)
    (held : (World.after t).holders me.place .cache = some me.call)
    (wrote : ∀ past entry t₁ t', Went (d.law ρ) me Deed.Looks t past → d.Landed ρ me (.init snapshot) entry past t₁ →
      Went (d.law ρ) me Deed.Tends t₁ t' → (World.after t').holders me.place .cache = some me.call → ok true t')
    (lost : ∀ t', Went (d.law ρ) me d.Tries t t' → position ≠ ending 0 (d.log t') → ok false t')
    (failed : ∀ cause t', Went (d.law ρ) me d.Tries t t' → d.Blame ρ me t t' cause → err cause t') :
    Attempt.Safe (d.law ρ) me crash ok err ((d.replica place).writeInitial ⟨d.segment, position, 0⟩ snapshot) t := by
  unfold Replica.writeInitial
  refine .bind (writeConditionally_safe place rfl (Nat.zero_le _) ?_ ?_ (fun _ _ _ _ _ _ other => by cases other)
    (fun t' tried other => .pure (lost t' tried other)) failed)
  · intro past went
    obtain ⟨earlier, early, same⟩ := began
    exact .inr (.inl ⟨founds, ⟨snapshot, rfl⟩, earlier, early.trans went.le, same⟩)
  · intro past entry t₁ event went landed same numbered'
    have held₁ : (World.after t₁).holders me.place .cache = some me.call := by
      rw [landed.memories.2]
      exact went.tends.holds held
    have last : d.log past ++ [entry] <+: d.log t₁ := landed.log ▸ List.prefix_refl _
    obtain ⟨placed', _⟩ := (aligned_of_snapshot ⟨_, last, rfl⟩ (fun sound => sound.roundTrips _ _ landed.encoded)
      numbered').copy _ rfl
    refine .bind (remember_safe held₁ ?_ ?_ ?_)
    · rintro _ ⟨⟩
      exact placed'
    · intro old cached
      refine ⟨_, rfl, ?_⟩
      have le := (placed landed.did.lawful cached).offset_le (log_chain landed.did.lawful)
      rw [landed.log, ending_append] at le
      exact le
    · exact fun t' kept _ => .pure (wrote past entry t₁ t' went landed kept (kept.holds held₁))

section Founding

variable {crash : Trace M R O → Prop} {err : CoreError → Trace M R O → Prop} (place : Nat)
  (founds : ρ.founds me.operation)

include founds

theorem establish_safe {snapshot : M.Snapshot} {ok : Unit → Trace M R O → Prop}
    (established : ∀ past entry t₁ t', Went (d.law ρ) me (Deed.Spares d.segment) t past →
      d.Landed ρ me (.init snapshot) entry past t₁ → Went (d.law ρ) me (Deed.Quiet d.segment) t₁ t' → ok () t')
    (failed : ∀ cause t', Went (d.law ρ) me (Deed.Spares d.segment) t t' → d.Blame ρ me t t' cause → err cause t') :
    Attempt.Safe (d.law ρ) me crash ok err ((d.replica place).establish snapshot) t := by
  unfold Replica.establish
  refine locked_spared_safe fun t₁ entered held => ?_
  have fails : d.Fails ρ me (fun cause t' => (World.after t').holders me.place .cache = some me.call ∧
      ∀ left, Went (d.law ρ) me (Deed.Spares d.segment) t' left → err cause left) t₁ := by
    intro cause t' went blame _
    refine ⟨went.tends.holds held, fun left leaves => ?_⟩
    exact failed cause left ((entered.trans (went.spares d.segment)).trans leaves)
      ((blame.since entered.le).later leaves.le)
  refine .bind (fetchOldest_safe fails place fun t₂ saw => .bind
    (fetchLatest_safe (fails.after saw) place fun t₃ looked => ?_))
  have went := saw.trans looked
  have inside := went.tends.holds held
  have reached := entered.trans (went.spares d.segment)
  have refused : ∀ {t'}, Went (d.law ρ) me (Deed.Spares d.segment) t t' → err (.alreadyInitialized d.segment) t' :=
    fun went => failed _ _ went .alreadyInitialized
  split
  · exact .throw (⟨inside, fun left leaves => refused (reached.trans leaves)⟩)
  · rename_i same
    have same : (⟨d.segment, ending 0 (d.log t₃), 0⟩ : Revision).SamePosition ⟨d.segment, d.oldest t₂, 0⟩ :=
      not_not.mp same
    refine Attempt.Safe.bind (writeInitial_safe place founds ⟨t₂, looked.le, same.2.symm⟩ inside ?_ ?_ ?_)
    · intro past entry t₄ t' went landed kept held
      refine .pure ⟨held, fun left leaves => ?_⟩
      exact established past entry t₄ left (reached.trans (went.spares d.segment)) landed
        ((kept.quiet d.segment).trans leaves.spared)
    · intro t' tried _
      refine .throw ⟨(tried.mono fun _ tries => tries.2).retains inside, fun left leaves => ?_⟩
      exact refused ((reached.trans (tried.mono fun _ tries => tries.1)).trans leaves)
    · intro cause t' tried blame
      refine ⟨(tried.mono fun _ tries => tries.2).retains inside, fun left leaves => ?_⟩
      exact failed cause left ((reached.trans (tried.mono fun _ tries => tries.1)).trans leaves)
        ((blame.since ((entered.le).trans went.le)).later leaves.le)

theorem establishIfAbsent_safe {snapshot : M.Snapshot} {ok : Bool → Trace M R O → Prop}
    (ends : ∀ t', Went (d.law ρ) me (Deed.Quiet d.segment) t t' → crash (t' ++ [⟨me, .gaveUp⟩]))
    (established : ∀ past entry t₁ t', Went (d.law ρ) me (Deed.Quiet d.segment) t past →
      d.Landed ρ me (.init snapshot) entry past t₁ → Went (d.law ρ) me (Deed.Quiet d.segment) t₁ t' → ok true t')
    (found : ∀ t₁ t₂ t', Went (d.law ρ) me (Deed.Quiet d.segment) t t₁ → d.log t₁ ≠ [] →
      Went (d.law ρ) me Deed.Tends t₁ t₂ → d.Abreast me t₁ t₂ → Went (d.law ρ) me (Deed.Quiet d.segment) t₂ t' →
      ok false t')
    (failed : ∀ cause t', Went (d.law ρ) me (Deed.Quiet d.segment) t t' → d.Blame ρ me t t' cause → err cause t') :
    Attempt.Safe (d.law ρ) me crash ok err ((d.replica place).establishIfAbsent snapshot) t := by
  unfold Replica.establishIfAbsent
  refine locked_safe fun t₁ entered held => ?_
  have fails : d.Fails ρ me (fun cause t' => (World.after t').holders me.place .cache = some me.call ∧
      ∀ left, Went (d.law ρ) me (Deed.Quiet d.segment) t' left → err cause left) t₁ := by
    intro cause t' went blame _
    refine ⟨went.tends.holds held, fun left leaves => ?_⟩
    exact failed cause left ((entered.trans (went.tends.quiet d.segment)).trans leaves)
      ((blame.since entered.le).later leaves.le)
  refine .bind (fetchOldest_safe fails place fun t₂ saw => .bind
    (fetchLatest_safe (fails.after saw) place fun t₃ looked => ?_))
  have went := saw.trans looked
  have inside := went.tends.holds held
  have reached := entered.trans (went.tends.quiet d.segment)
  have since := entered.le.trans went.le
  have catchUp : ∀ t', Went (d.law ρ) me (Deed.Quiet d.segment) t₃ t' → d.log t' ≠ [] →
      (World.after t').holders me.place .cache = some me.call →
      Attempt.Safe (d.law ρ) me crash
        (fun written t'' => (World.after t'').holders me.place .cache = some me.call ∧
          ∀ left, Went (d.law ρ) me (Deed.Quiet d.segment) t'' left → ok written left)
        (fun cause t'' => (World.after t'').holders me.place .cache = some me.call ∧
          ∀ left, Went (d.law ρ) me (Deed.Quiet d.segment) t'' left → err cause left)
        (do
          (d.replica place).catchUp
          pure false) t' := by
    intro t' tried written held
    have reached := reached.trans tried
    refine .bind (catchUp_safe place ?_ ?_ ?_ held)
    · exact fun t'' caught => ends t'' (reached.trans (caught.quiet d.segment))
    · intro t'' caught abreast
      exact .pure ⟨caught.holds held, fun left leaves => found t' t'' left reached written caught abreast leaves⟩
    · intro cause t'' caught blame
      exact ⟨caught.holds held, fun left leaves => failed cause left
        ((reached.trans (caught.quiet d.segment)).trans leaves) ((blame.since (since.trans tried.le)).later leaves.le)⟩
  split
  · rename_i same
    refine Attempt.Safe.bind (writeInitial_safe place founds ⟨t₂, looked.le, rfl⟩ inside ?_ ?_ ?_)
    · intro past entry t₄ t' went landed kept held
      refine .pure ⟨held, fun left leaves => ?_⟩
      exact established past entry t₄ left (reached.trans (went.tends.quiet d.segment)) landed
        ((kept.quiet d.segment).trans leaves)
    · intro t' tried other
      refine catchUp t' (tried.mono fun _ tries => tries.1.1) ?_ ?_
      · exact written_of_apart tried.lawful (looked.le.trans tried.le) other
      · exact (tried.mono fun _ tries => tries.2).retains inside
    · intro cause t' tried blame
      refine ⟨(tried.mono fun _ tries => tries.2).retains inside, fun left leaves => ?_⟩
      exact failed cause left ((reached.trans (tried.mono fun _ tries => tries.1.1)).trans leaves)
        ((blame.since since).later leaves.le)
  · rename_i other
    have written := written_of_apart went.lawful looked.le fun same => other ⟨rfl, same.symm⟩
    exact catchUp t₃ (Went.refl went.lawful) written inside

end Founding

theorem applyWritten_safe {crash : Trace M R O → Prop} {post : Unit → Trace M R O → Prop}
    (place : Nat) {record : M.Record} {entry : Entry} {expected : Revision} {event : Nat}
    (begins : expected.offset = entry.offset) (numbered : event ≤ entry.endOffset)
    (encoded : d.codec.encode record = .ok entry.data)
    (landed : ∃ before, before ++ [entry] <+: d.log t ∧ ending 0 before = entry.offset)
    (ends : ∀ t', Went (d.law ρ) me (Deed.Quiet d.segment) t t' → crash (t' ++ [⟨me, .gaveUp⟩]))
    (applied : ∀ t', Went (d.law ρ) me (Deed.Quiet d.segment) t t' → post () t') :
    ((d.replica place).applyWritten expected ⟨d.segment, entry.endOffset, event⟩ record : Procedure M R Unit).Safe
      (d.law ρ) me crash post t := by
  unfold Replica.applyWritten
  refine Procedure.Safe.bind (Attempt.Safe.run (locked_safe fun t₁ entered held => ?_))
  have leave : ∀ {t'}, Went (d.law ρ) me Deed.Tends t₁ t' → (World.after t').holders me.place .cache = some me.call ∧
      ∀ left, Went (d.law ρ) me (Deed.Quiet d.segment) t' left → post () left := fun went =>
    ⟨went.holds held, fun left leaves => applied left ((entered.trans (went.quiet d.segment)).trans leaves)⟩
  have catchUp : ∀ {t'}, Went (d.law ρ) me Deed.Looks t₁ t' → Attempt.Safe (d.law ρ) me crash
      (fun _ t'' => (World.after t'').holders me.place .cache = some me.call ∧
        ∀ left, Went (d.law ρ) me (Deed.Quiet d.segment) t'' left → post () left)
      (fun _ t'' => (World.after t'').holders me.place .cache = some me.call ∧
        ∀ left, Went (d.law ρ) me (Deed.Quiet d.segment) t'' left → post () left) (d.replica place).catchUp t' :=
          fun went =>
    catchUp_safe place (fun t'' caught => ends t'' (entered.trans ((went.tends.trans caught).quiet d.segment)))
      (fun _ caught _ => leave (went.tends.trans caught)) (fun _ _ caught _ => leave (went.tends.trans caught))
      (went.tends.holds held)
  refine .bind (cached_safe fun slot t₂ went cached => ?_)
  cases slot with
  | none => exact catchUp went
  | some copy =>
    dsimp only
    split
    -- The copy is where the write began. If others have written meanwhile, it is brought up from the log instead.
    · rename_i same
      have aligned : d.Aligned t₂ (some copy) entry.offset := by
        refine ⟨?_, fun none => by cases none⟩
        rintro _ ⟨⟩
        exact ⟨placed went.lawful cached, same.2.trans begins⟩
      have entry' : ∃ before, before ++ [entry] <+: d.log t₂ ∧ ending 0 before = entry.offset := by
        obtain ⟨before, front, ends⟩ := landed
        exact ⟨before, front.trans (Trace.history_le _ (entered.trans (went.tends.quiet d.segment)).le), ends⟩
      unfold Replica.applyRecord
      cases folded : record.apply (some copy.state) (d.replica place).name ⟨d.segment, entry.endOffset, event⟩ with
      | error cause => exact .throw (leave went.tends)
      | ok state =>
        have placed' := aligned.placed_of_apply went.lawful entry' (fun sound => sound.roundTrips _ _ encoded) numbered
          folded
        refine remember_safe (went.tends.holds held) ?_ ?_ ?_
        · rintro _ ⟨⟩
          exact placed'
        · intro old cached'
          rw [cached] at cached'
          cases cached'
          refine ⟨_, rfl, ?_⟩
          obtain ⟨before, front, ends⟩ := entry'
          have ends' := ((log_chain went.lawful).of_le front).endOffset_eq
          have begins' := same.2
          show copy.revision.offset ≤ entry.endOffset
          omega
        · exact fun t₃ kept _ => leave (went.tends.trans kept)
    · exact catchUp went

theorem pause_safe {crash : Trace M R O → Prop} {post : Unit → Trace M R O → Prop} (place attempt : Nat)
    (lawful : Lawful (d.law ρ) t) (ends : d.Ends ρ me crash t)
    (paused : ∀ t', Went (d.law ρ) me Deed.Looks t t' → post () t') :
    ((d.replica place).pause attempt : Procedure M R Unit).Safe (d.law ρ) me crash post t := by
  unfold Replica.pause
  split
  · exact .abort (fun _ _ => trivial) fun past waited => ends past waited.of_waited
  · split
    · exact paused t (Went.refl lawful)
    · refine .touch (fun _ _ _ need => by cases need) (fun _ _ => trivial) ?_
      intro answer past waited _ _ lawful
      exact paused _ (waited.step trivial lawful)

variable (d ρ me) in
/-- A procedure that makes proposals which are the caller's own, as long as nothing has landed since `start`
and it only looks afterwards. -/
def Proposes {β : Type} (start : Trace M R O) (crash : Trace M R O → Prop) (kind : Option M.Record → Prop)
    (propose : M.State → Procedure M R (Option M.Record × β)) : Prop :=
  ∀ state t (post : Option M.Record × β → Trace M R O → Prop), Went (d.law ρ) me (Deed.Quiet d.segment) start t →
    (∀ t', Went (d.law ρ) me (Deed.Quiet d.segment) t t' → crash (t' ++ [⟨me, .gaveUp⟩])) →
    (∀ proposal result t', Went (d.law ρ) me (Deed.Quiet d.segment) t t' → kind proposal →
      (∀ record past, proposal = some record → Went (d.law ρ) me Deed.Looks t' past → ρ.proposes past me state record) →
      post (proposal, result) t') →
    (propose state).Safe (d.law ρ) me crash post t

theorem proposes_pure {β : Type} {choose : M.State → Option M.Record × β} {start : Trace M R O}
    {crash : Trace M R O → Prop} {kind : Option M.Record → Prop} (fits : ∀ state, kind (choose state).1)
    (own : ∀ state record past, (choose state).1 = some record → Went (d.law ρ) me (Deed.Quiet d.segment) start past →
      ρ.proposes past me state record) :
    d.Proposes ρ me start crash kind fun state => pure (choose state) := by
  intro state t post since _ proposed
  refine proposed _ _ t (Went.refl since.lawful) (fits state) fun record past same looked => ?_
  exact own state record past same (since.trans (looked.tends.quiet d.segment))

theorem proposes_batches {β : Type} {choose : M.State → List M.Update × β} {start : Trace M R O}
    {crash : Trace M R O → Prop}
    (own : ∀ state past, (choose state).1 ≠ [] → Went (d.law ρ) me (Deed.Quiet d.segment) start past →
      ρ.proposes past me state (.updates (choose state).1)) :
    d.Proposes ρ me start crash
      (fun proposal => ∀ record, proposal = some record → ∃ state, record = .updates (choose state).1) fun state => (do
      let (updates, result) ← pure (choose state)
      pure (if updates.isEmpty then none else some (.updates updates), result)) := by
  let propose (state : M.State) : Option M.Record × β :=
    (if (choose state).1.isEmpty then none else some (.updates (choose state).1), (choose state).2)
  have proposed : ∀ state record, (propose state).1 = some record →
      (choose state).1 ≠ [] ∧ record = .updates (choose state).1 := by
    intro state record same
    by_cases empty : (choose state).1.isEmpty = true
    · simp [propose, empty] at same
    · simp only [propose, if_neg empty, Option.some.injEq] at same
      exact ⟨fun nil => empty (List.isEmpty_iff.mpr nil), same.symm⟩
  have follows : ∀ state record past, (propose state).1 = some record →
      Went (d.law ρ) me (Deed.Quiet d.segment) start past → ρ.proposes past me state record := by
    intro state record past same went
    obtain ⟨some, rfl⟩ := proposed state record same
    exact own state past some went
  exact proposes_pure (fun state record same => ⟨state, (proposed state record same).2⟩) follows

section Looping

variable {β : Type} {crash : Trace M R O → Prop} {kind : Option M.Record → Prop}
  {propose : M.State → Procedure M R (Option M.Record × β)} (place : Nat) {start : Trace M R O}
  (proposes : d.Proposes ρ me start crash kind propose)

include proposes

theorem writeLoop_safe {ok : WriteOutcome β → Trace M R O → Prop} {err : CoreError → Trace M R O → Prop}
    (left attempts : Nat) (since : Went (d.law ρ) me (Deed.Quiet d.segment) start t)
    (ends : ∀ t', Went (d.law ρ) me (Deed.Steady d.segment) t t' → crash (t' ++ [⟨me, .gaveUp⟩]))
    (unwritten : ∀ result t', Went (d.law ρ) me (Deed.Quiet d.segment) t t' → kind none → ok ⟨result, none⟩ t')
    (wrote : ∀ result (expected written : Revision) record entry past t₁ t',
      Went (d.law ρ) me (Deed.Quiet d.segment) t past → d.Landed ρ me record entry past t₁ → kind (some record) →
      Went (d.law ρ) me (Deed.Quiet d.segment) t₁ t' → expected.segment = d.segment → expected.offset = entry.offset →
      ok ⟨result, some (expected, written)⟩ t')
    (failed : ∀ cause t', Went (d.law ρ) me (Deed.Quiet d.segment) t t' → d.Blame ρ me t t' cause → err cause t') :
    Attempt.Safe (d.law ρ) me crash ok err ((d.replica place).writeLoop propose left attempts) t := by
  -- On the attempts left. Each one begins with a copy anew, and knows only that those before it have landed nothing.
  induction left generalizing t attempts with
  | zero => exact .abort (fun _ _ => trivial) fun past waited => ends past waited.of_waited
  | succ left ih =>
    unfold Replica.writeLoop
    refine .bind (.lift (pause_safe place attempts since.lawful
      (fun t' went => ends t' (went.tends.quiet d.segment).steady) fun t₁ paused => ?_))
    have paused := paused.tends.quiet d.segment
    refine .bind (getRevisionedState_safe place ?_ ?_ ?_)
    · exact fun t' went => ends t' (paused.trans went).steady
    · exact fun cause t' went blame => failed cause t' (paused.trans went) (blame.since paused.le)
    · intro copy t₂ got placed _
      have got := paused.trans got
      refine .bind (.lift (proposes copy.state t₂ _ (since.trans got) ?_ ?_))
      · exact fun t' went => ends t' (got.trans went).steady
      · intro proposal result t₃ asked fits own
        have reached := got.trans asked
        cases proposal with
        | none => exact .pure (unwritten result t₃ reached fits)
        | some record =>
          refine .bind (writeConditionally_safe place placed.segment placed.numbered ?_ ?_ ?_ ?_ ?_)
          · intro past went
            -- The log may have grown since the copy was taken. What the copy stands for is still a front of it,
            -- and the append lands only if that is all of it.
            obtain ⟨_, _, through, written, front, reaches, folded⟩ := placed
            have front := front.trans (Trace.history_le d.segment (asked.le.trans went.le))
            exact .inr (.inr ⟨through, copy.state, written, front, reaches, folded, own record past rfl went⟩)
          · intro past entry t₄ event went landed begins numbered
            have before := reached.trans (went.tends.quiet d.segment)
            have last : ∃ before, before ++ [entry] <+: d.log t₄ ∧ ending 0 before = entry.offset :=
              ⟨d.log past, landed.log ▸ List.prefix_refl _, landed.begins.symm⟩
            refine .bind (.lift (applyWritten_safe place begins.symm numbered landed.encoded last ?_ ?_))
            · exact fun t' applied => ends t' ((before.steady.trans landed.steady).trans applied.steady)
            · intro t' applied
              exact .pure (wrote result _ _ record entry past t₄ t' before landed fits applied placed.segment
                begins.symm)
          · intro past entry t₄ t' went landed _ waited
            have before := reached.trans (went.tends.quiet d.segment)
            exact ends t' ((before.steady.trans landed.steady).trans waited.of_waited)
          · intro t₄ tried _
            have reached := reached.trans (tried.mono fun _ tries => tries.1.1)
            refine .bind (.lift (tally_safe fun t₅ counted => ?_))
            have reached := reached.trans (counted.tends.quiet d.segment)
            split
            · refine ih (attempts + 1) (since.trans reached) ?_ ?_ ?_ ?_
              · exact fun t' went => ends t' (reached.steady.trans went)
              · exact fun result t' went => unwritten result t' (reached.trans went)
              · exact fun result expected written record entry past t₁ t' went =>
                  wrote result expected written record entry past t₁ t' (reached.trans went)
              · exact fun cause t' went blame => failed cause t' (reached.trans went) (blame.since reached.le)
            · exact .throw (failed _ t₅ reached (.exhausted _))
          · intro cause t' tried blame
            exact failed cause t' (reached.trans (tried.mono fun _ tries => tries.1.1)) (blame.since reached.le)

end Looping

end Deployment

end LogReplica
