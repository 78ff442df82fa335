import LogReplica.Proofs.Replica.Confinement
import LogReplica.Proofs.Replica.Reading

namespace LogReplica

variable {M : Model} {R O : Type}

namespace Deployment

variable {d : Deployment M} {ρ : Conduct M R O} {me : Caller O} {t t' past : Trace M R O}

structure Aligned (d : Deployment M) (t : Trace M R O) (slot : Replica.Cached M) (position : Nat) : Prop where
  copy : ∀ copy, slot = some copy → d.Placed (d.log t) copy ∧ copy.revision.offset = position
  fresh : slot = none → ∃ start, start <+: t ∧ d.RestartAt start position

namespace Aligned

variable {slot : Replica.Cached M} {position : Nat}

theorem mono (aligned : d.Aligned t slot position) (le : t <+: t') : d.Aligned t' slot position := by
  refine ⟨?_, ?_⟩
  · intro copy here
    obtain ⟨placed, ends⟩ := aligned.copy copy here
    exact ⟨placed.mono (Trace.history_le _ le), ends⟩
  · intro none
    obtain ⟨start, early, restart⟩ := aligned.fresh none
    exact ⟨start, early.trans le, restart⟩

theorem anchored (aligned : d.Aligned t slot position) (lawful : Lawful (d.law ρ) t) : d.Anchored t position := by
  cases slot with
  | none =>
    obtain ⟨start, early, restart⟩ := aligned.fresh rfl
    exact (restart.anchored (lawful.of_le early)).mono early
  | some copy =>
    obtain ⟨⟨_, _, through, _, front, ends, _⟩, same⟩ := aligned.copy copy rfl
    exact .inl ⟨through, front, ends.trans same⟩

theorem placed_of_apply (aligned : d.Aligned t slot position) (lawful : Lawful (d.law ρ) t)
    {e : Entry} {record : M.Record} {ordinal : Nat} {state : M.State}
    (entry : ∃ before, before ++ [e] <+: d.log t ∧ ending 0 before = position)
    (decoded : d.Sound → d.codec.decode e.data = .ok record) (numbered : ordinal ≤ e.endOffset)
    (applied : record.apply (slot.map (·.state)) d.name ⟨d.segment, e.endOffset, ordinal⟩ = .ok state) :
    d.Placed (d.log t) ⟨state, ⟨d.segment, e.endOffset, ordinal⟩⟩ := by
  obtain ⟨before, front, ends⟩ := entry
  refine ⟨rfl, numbered, before ++ [e], by simp, front, by simp, fun sound => ?_⟩
  have there : (⟨d.segment, e.endOffset, ordinal⟩ : Revision).SamePosition (d.after e) := ⟨rfl, rfl⟩
  have applied := congrArg Except.toOption applied
  rw [Record.apply_eq sound.positional there] at applied
  rw [fold_concat, advance_of_decode (decoded sound)]
  cases slot with
  | some copy =>
    obtain ⟨placed, same⟩ := aligned.copy copy rfl
    rw [(placed.canonical sound).fold_of_ending (log_chain lawful)
      (List.IsPrefix.trans (List.prefix_append _ _) front) (ends.trans same.symm)]
    exact applied
  | none =>
    cases record with
    | init snapshot => exact applied
    | updates batch => cases applied

end Aligned

/-- A replay that has gone from one copy to another one, with no record left out. -/
structure Onward (d : Deployment M) (t : Trace M R O) (slot : Replica.Cached M) (position : Nat)
    (slot' : Replica.Cached M) (position' : Nat) : Prop where
  aligned : d.Aligned t slot' position'
  le : position ≤ position'
  kept : slot.isSome → slot'.isSome
  stays : slot' = none → position' = position

theorem Onward.noOlder {slot slot' : Replica.Cached M} {position position' : Nat}
    (onward : d.Onward t slot position slot' position') (aligned : d.Aligned past slot position) :
    NoOlder slot slot' := by
  intro copy here
  have ends := (aligned.copy copy here).2
  obtain ⟨next, there⟩ := Option.isSome_iff_exists.mp (onward.kept (by rw [here]; rfl))
  have ends' := (onward.aligned.copy next there).2
  have le := onward.le
  exact ⟨next, there, by omega⟩

theorem Onward.trans {first second third : Replica.Cached M} {a b c : Nat} (left : d.Onward past first a second b)
    (right : d.Onward t second b third c) : d.Onward t first a third c := by
  refine ⟨right.aligned, Nat.le_trans left.le right.le, fun some => right.kept (left.kept some), fun none => ?_⟩
  cases second with
  | none => exact (right.stays none).trans (left.stays rfl)
  | some copy => cases none ▸ right.kept rfl

theorem replayRecord_cases (place count ordinal : Nat) (lawful : Lawful (d.law ρ) t)
    {slot : Replica.Cached M} {position : Nat} (aligned : d.Aligned t slot position) {e : Entry} {record : M.Record}
    (entry : ∃ before, before ++ [e] <+: d.log t ∧ ending 0 before = position)
    (decoded : d.codec.decode e.data = .ok record) (numbered : ordinal ≤ e.endOffset) :
    (∃ copy, (d.replica place).replayRecord ⟨slot, count⟩ (⟨d.segment, e.endOffset, ordinal⟩, record) =
        .ok ⟨some copy, count + 1⟩ ∧ d.Placed (d.log t) copy ∧ copy.revision = ⟨d.segment, e.endOffset, ordinal⟩) ∨
    (slot = none ∧ ¬d.IsSnapshot e ∧
      (d.replica place).replayRecord ⟨slot, count⟩ (⟨d.segment, e.endOffset, ordinal⟩, record) =
        .error (.orphanUpdates ⟨d.segment, e.endOffset, ordinal⟩)) := by
  obtain ⟨before, front, ends⟩ := entry
  have chain := log_chain lawful
  have endOffset : e.endOffset = position + Framed.headerSize + e.data.length :=
    ends ▸ (chain.of_le front).endOffset_eq
  have newer : (slot.any fun current =>
      !Revision.isNewerThan ⟨d.segment, e.endOffset, ordinal⟩ current.revision) = false := by
    cases slot with
    | none => rfl
    | some copy =>
      obtain ⟨placed, ends⟩ := aligned.copy copy rfl
      have ahead : Revision.isNewerThan ⟨d.segment, e.endOffset, ordinal⟩ copy.revision = true := by
        refine Revision.isNewerThan_iff.mpr ⟨placed.segment.symm, ?_⟩
        show copy.revision.offset < e.endOffset
        simp only [Framed.headerSize] at endOffset
        omega
      simp only [Option.any_some, ahead, Bool.not_true]
  have folds : ∀ state, record.apply (slot.map (·.state)) d.name ⟨d.segment, e.endOffset, ordinal⟩ = .ok state →
      d.Placed (d.log t) ⟨state, ⟨d.segment, e.endOffset, ordinal⟩⟩ := fun state applied =>
    aligned.placed_of_apply lawful ⟨before, front, ends⟩ (fun _ => decoded) numbered applied
  simp only [Replica.replayRecord, newer, Bool.false_eq_true, if_false, Replica.applyRecord]
  show (∃ copy, Except.map _ (Except.map _ (record.apply (slot.map (·.state)) d.name _)) = _ ∧ _) ∨
    (_ ∧ _ ∧ Except.map _ (Except.map _ (record.apply (slot.map (·.state)) d.name _)) = _)
  cases applied : record.apply (slot.map (·.state)) d.name ⟨d.segment, e.endOffset, ordinal⟩ with
  | ok state => exact .inl ⟨_, rfl, folds state applied, rfl⟩
  | error cause =>
    right
    cases record with
    | init snapshot => cases applied
    | updates batch =>
      cases slot with
      | some copy => cases applied
      | none =>
        cases applied
        refine ⟨rfl, ?_, rfl⟩
        rintro ⟨snapshot, other⟩
        rw [decoded] at other
        cases other

theorem replay_safe {crash : Trace M R O → Prop} {place fuel position count : Nat}
    {reader : Reader M.Record} {slot : Replica.Cached M} (lawful : Lawful (d.law ρ) t)
    (reads : d.Reads place t reader position) (aligned : d.Aligned t slot position) (enough : reader.bound < fuel)
    {post : Reader.Ending × Replica.Progress M → Trace M R O → Prop}
    (complete : ∀ p position' t', Went (d.law ρ) me Deed.Looks t t' → d.Onward t' slot position p.slot position' →
      reader.endOffset ≤ position' → post (.complete, p) t')
    (failed : ∀ cause p position' t', Went (d.law ρ) me Deed.Looks t t' → d.Onward t' slot position p.slot position' →
      d.Blame ρ me t t' cause → d.Behind me t position' t' cause → post (.failed cause, p) t')
    (uncounted : ∀ p t', Went (d.law ρ) me Deed.Looks t t' → post (.uncounted, p) t') :
    (reader.fold (Replica.replayRecord (d.replica place)) fuel ⟨slot, count⟩ : Procedure M R _).Safe (d.law ρ) me crash
      post t := by
  -- Each record that is read leaves a shorter reader, so the fuel lasts. The copy stays the state of all that was read.
  induction fuel generalizing t reader slot position count with
  | zero => exact absurd enough (Nat.not_lt_zero _)
  | succ fuel ih =>
    have here : ∀ {t'}, Went (d.law ρ) me Deed.Looks t t' → d.Onward t' slot position slot position := fun went =>
      ⟨aligned.mono went.le, Nat.le_refl _, id, fun _ => rfl⟩
    unfold Reader.fold
    refine Procedure.Safe.bind (next_safe lawful reads (aligned.anchored lawful) ?_ ?_ ?_ ?_)
    · intro e record ordinal reader' t' went pulls
      have lt := pulls.lt went.lawful
      rcases replayRecord_cases place count ordinal went.lawful (aligned.mono went.le) pulls.entry
        pulls.decoded pulls.numbered with ⟨copy, same, placed, ends⟩ | ⟨rfl, other, same⟩
      · simp only [same]
        have aligned' : d.Aligned t' (some copy) e.endOffset := by
          refine ⟨?_, fun none => by cases none⟩
          intro other same
          cases same
          exact ⟨placed, by rw [ends]⟩
        have step : d.Onward t' slot position (some copy) e.endOffset :=
          ⟨aligned', Nat.le_of_lt lt, fun _ => rfl, nofun⟩
        refine ih went.lawful pulls.reads aligned'
          (Nat.lt_of_lt_of_le pulls.shorter (Nat.le_of_lt_succ enough)) ?_ ?_ ?_
        · intro p position' t'' went' onward through
          exact complete p position' t'' (went.trans went') (step.trans onward) (pulls.limit ▸ through)
        · intro cause p position' t'' went' onward blame behind
          exact failed cause p position' t'' (went.trans went') (step.trans onward) (blame.since went.le)
            (behind.since went.le)
        · exact fun p t'' went' => uncounted p t'' (went.trans went')
      · simp only [same]
        obtain ⟨before, front, ends⟩ := pulls.entry
        obtain ⟨start, early, restart⟩ := aligned.fresh rfl
        have begins : e.offset = position := ends ▸ ((log_chain went.lawful).of_le front).offset_eq
        refine failed _ ⟨none, count⟩ position t' went (here went) ?_ nofun
        exact .orphan _ e start (early.trans went.le) (begins ▸ restart) (front.subset (by simp)) other
    · intro reader' t' went through
      exact complete ⟨slot, count⟩ position t' went (here went) through
    · intro cause reader' t' went blame behind
      exact failed cause ⟨slot, count⟩ position t' went (here went) blame behind
    · exact fun reader' t' went => uncounted _ t' went

theorem Onward.mono {slot slot' : Replica.Cached M} {position position' : Nat}
    (onward : d.Onward t slot position slot' position') (le : t <+: t') : d.Onward t' slot position slot' position' :=
  ⟨onward.aligned.mono le, onward.le, onward.kept, onward.stays⟩

theorem tally_safe {crash : Trace M R O → Prop} {tally : Tally} {post : Unit → Trace M R O → Prop}
    (goes : ∀ t', Went (d.law ρ) me Deed.Looks t t' → post () t') :
    (Procedure.touch (.tally tally) : Procedure M R Unit).Safe (d.law ρ) me crash post t := by
  refine .touch (fun _ _ _ need => by cases need) (fun _ _ => trivial) ?_
  intro answer past waited _ _ lawful
  have looks : (Deed.acted (.touch (.tally tally)) answer : Deed M R).Looks := trivial
  exact goes _ (waited.step looks lawful)

theorem cached_safe {crash : Trace M R O → Prop} {err : CoreError → Trace M R O → Prop}
    {ok : Replica.Cached M → Trace M R O → Prop}
    (goes : ∀ slot t', Went (d.law ρ) me Deed.Looks t t' → t'.cache me.place = slot → ok slot t') :
    Attempt.Safe (d.law ρ) me crash ok err (Attempt.touch .cached : Attempt M R _) t := by
  refine .touch (fun _ _ _ need => by cases need) (fun _ _ => trivial) ?_
  intro answer past waited _ same lawful
  have looks : (Deed.acted (.touch .cached) answer : Deed M R).Looks := trivial
  have cached : (past ++ [(⟨me, .acted (.touch .cached) answer⟩ : Event M R O)]).cache me.place = answer := by
    rw [Trace.cache, World.memories_touched]
    exact same.symm
  exact goes answer _ (waited.step looks lawful) cached

theorem remember_safe {crash : Trace M R O → Prop} {err : CoreError → Trace M R O → Prop}
    {ok : Unit → Trace M R O → Prop}
    {slot : Replica.Cached M} (held : (World.after t).holders me.place .cache = some me.call)
    (placed : ∀ copy, slot = some copy → d.Placed (d.log t) copy)
    (forward : NoOlder (t.cache me.place) slot)
    (goes : ∀ t', Went (d.law ρ) me Deed.Tends t t' → t'.cache me.place = slot → ok () t') :
    Attempt.Safe (d.law ρ) me crash ok err (Attempt.touch (.remember slot) : Attempt M R Unit) t := by
  have still : ∀ past, Waited (d.law ρ) me t past → (World.after past).holders me.place .cache = some me.call ∧
      past.cache me.place = t.cache me.place := fun past waited =>
    have looked : Went (d.law ρ) me Deed.Looks t past := waited.of_waited
    ⟨looked.tends.holds held, looked.cache_eq held⟩
  refine .touch ?_ ?_ ?_
  · intro past waited lock need
    cases need
    exact (still past waited).1
  · intro past waited
    refine ⟨fun copy same => (placed copy same).mono (Trace.history_le _ waited.le), ?_⟩
    rw [(still past waited).2]
    exact forward
  · intro answer past waited _ _ lawful
    have tends : (Deed.acted (.touch (.remember slot)) answer : Deed M R).Tends := trivial
    refine goes _ (waited.step tends lawful) ?_
    rw [Trace.cache, World.memories_touched]
    rfl

theorem count_safe {crash : Trace M R O → Prop} {α : Type} {a : α} {count : Nat} (lawful : Lawful (d.law ρ) t)
    {post : α → Trace M R O → Prop} (goes : ∀ t', Went (d.law ρ) me Deed.Looks t t' → post a t') :
    (do
      if count ≠ 0 then Procedure.touch (.tally (.replayed count))
      pure a : Procedure M R α).Safe (d.law ρ) me crash post t := by
  split
  · exact Procedure.Safe.bind (tally_safe goes)
  · exact goes t (Went.refl lawful)

theorem replayRecords_safe {crash : Trace M R O → Prop} {place position : Nat}
    {reader : Reader M.Record} {slot : Replica.Cached M} (lawful : Lawful (d.law ρ) t)
    (reads : d.Reads place t reader position) (aligned : d.Aligned t slot position)
    {post : Except CoreError Unit × Replica.Cached M → Trace M R O → Prop} (ends : d.Ends ρ me crash t)
    (replayed : ∀ slot' position' t', Went (d.law ρ) me Deed.Looks t t' → d.Onward t' slot position slot' position' →
      reader.endOffset ≤ position' → post (.ok (), slot') t')
    (failed : ∀ cause slot' position' t', Went (d.law ρ) me Deed.Looks t t' →
      d.Onward t' slot position slot' position' →
      d.Blame ρ me t t' cause → d.Behind me t position' t' cause → post (.error cause, slot') t') :
    ((d.replica place).replayRecords slot reader : Procedure M R _).Safe (d.law ρ) me crash post t := by
  unfold Replica.replayRecords
  refine Procedure.Safe.bind (replay_safe lawful reads aligned (Nat.lt_succ_self _) ?_ ?_ ?_)
  · intro p position' t₁ went onward through
    refine count_safe went.lawful fun t' counted => ?_
    exact replayed p.slot position' t' (went.trans counted) (onward.mono counted.le) through
  · intro cause p position' t₁ went onward blame behind
    refine count_safe went.lawful fun t' counted => ?_
    exact failed cause p.slot position' t' (went.trans counted) (onward.mono counted.le) (blame.later counted.le)
      (behind.mono counted.lawful counted.le)
  · intro p t₁ went
    exact Procedure.Safe.bind (.abort (fun _ _ => trivial) fun past waited => ends past (went.trans waited.of_waited))

theorem reads_of_readFrom (place : Nat) {position ordinal : Nat} (numbered : ordinal ≤ position) (t : Trace M R O) :
    d.Reads place t
      { client := d.client place, nextOffset := position, endOffset := ending 0 (d.log t), ordinal := ordinal }
      position :=
  ⟨rfl, rfl, numbered, rfl, .inl rfl, t, List.prefix_refl _, rfl⟩

theorem replayFrom_safe {crash : Trace M R O → Prop} {err : CoreError → Trace M R O → Prop}
    {ok : Unit → Trace M R O → Prop} (place : Nat) {slot : Replica.Cached M} {start : Revision}
    (held : (World.after t).holders me.place .cache = some me.call) (cached : t.cache me.place = slot)
    (here : start.segment = d.segment) (numbered : start.event ≤ start.offset) (aligned : d.Aligned t slot start.offset)
    (ends : d.Ends ρ me crash t)
    (replayed : ∀ slot' position t', Went (d.law ρ) me Deed.Tends t t' → t'.cache me.place = slot' →
      d.Onward t' slot start.offset slot' position → ending 0 (d.log t) ≤ position → ok () t')
    (failed : ∀ cause slot' position t', Went (d.law ρ) me Deed.Tends t t' → t'.cache me.place = slot' →
      d.Onward t' slot start.offset slot' position → d.Blame ρ me t t' cause → d.Behind me t position t' cause →
        err cause t') :
    Attempt.Safe (d.law ρ) me crash ok err ((d.replica place).replayFrom slot start) t := by
  have unchanged : ∀ {t'}, Went (d.law ρ) me Deed.Looks t t' → t'.cache me.place = slot := fun went =>
    (went.cache_eq held).trans cached
  have stays : ∀ {t'}, Went (d.law ρ) me Deed.Looks t t' → d.Onward t' slot start.offset slot start.offset :=
    fun went =>
    ⟨aligned.mono went.le, Nat.le_refl _, id, fun _ => rfl⟩
  unfold Replica.replayFrom
  refine .bind (readFrom_safe ?_ place here ?_ ?_)
  · intro cause t' went blame other
    exact failed cause slot start.offset t' went.tends (unchanged went) (stays went) blame (.of_untruncated other)
  · intro t₁ went _
    refine .bind (.lift (replayRecords_safe went.lawful (reads_of_readFrom place numbered t₁)
      (aligned.mono went.le) (ends.after went) ?_ ?_))
    · intro slot' position t₂ went' onward through
      have went' := went.trans went'
      refine .bind (remember_safe (went'.tends.holds held) (fun copy same => (onward.aligned.copy copy same).1) ?_ ?_)
      · rw [unchanged went']
        exact onward.noOlder aligned
      · intro t₃ kept same
        refine .pure (replayed slot' position t₃ (went'.tends.trans kept) same (onward.mono kept.le) ?_)
        exact Nat.le_trans (ending_mono went.lawful went.le) through
    · intro cause slot' position t₂ went' onward blame behind
      have went' := went.trans went'
      refine .bind (remember_safe (went'.tends.holds held) (fun copy same => (onward.aligned.copy copy same).1) ?_ ?_)
      · rw [unchanged went']
        exact onward.noOlder aligned
      · intro t₃ kept same
        exact .throw (failed cause slot' position t₃ (went'.tends.trans kept) same (onward.mono kept.le)
          ((blame.since went.le).later kept.le) ((behind.since went.le).mono kept.lawful kept.le))
  · intro t' went low
    refine failed _ slot start.offset t' went.tends (unchanged went) (stays went) ?_ (fun _ _ => low)
    exact .truncated start.offset _ t' went.le (List.prefix_refl _) rfl low

theorem aligned_of_snapshot {ordinal : Nat} {e : Entry} {snapshot : M.Snapshot} {position : Nat}
    (entry : ∃ before, before ++ [e] <+: d.log t ∧ ending 0 before = position)
    (decoded : d.Sound → d.codec.decode e.data = .ok (.init snapshot)) (numbered : ordinal ≤ e.endOffset) :
    d.Aligned t (some ⟨M.create snapshot d.name ⟨d.segment, e.endOffset, ordinal⟩, ⟨d.segment, e.endOffset, ordinal⟩⟩)
      e.endOffset := by
  obtain ⟨before, front, _⟩ := entry
  refine ⟨?_, fun none => by cases none⟩
  rintro _ ⟨⟩
  refine ⟨⟨rfl, numbered, before ++ [e], by simp, front, by simp, fun sound => ?_⟩, rfl⟩
  rw [fold_concat, advance_snapshot (decoded sound)]
  exact congrArg some (sound.positional.create snapshot d.name _ _ ⟨rfl, rfl⟩)

theorem recover_safe {crash : Trace M R O → Prop} {err : CoreError → Trace M R O → Prop}
    {ok : Unit → Trace M R O → Prop} (place : Nat) {truncated : CoreError}
    (held : (World.after t).holders me.place .cache = some me.call)
    (ends : d.Ends ρ me crash t)
    (recovered : ∀ copy t', Went (d.law ρ) me Deed.Tends t t' → t'.cache me.place = some copy →
      ending 0 (d.log t) ≤ copy.revision.offset → ok () t')
    (failed : ∀ cause t', Went (d.law ρ) me Deed.Looks t t' → d.Blame ρ me t t' cause → err cause t')
    (kept : ∀ t', Went (d.law ρ) me Deed.Looks t t' → err truncated t') :
    Attempt.Safe (d.law ρ) me crash ok err ((d.replica place).recover truncated) t := by
  have fails : d.Fails ρ me err t := fun cause t' went blame _ => failed cause t' went blame
  unfold Replica.recover
  refine .bind (freshStart_safe fails place fun restart t₁ went restarts => ?_)
  refine .bind (readFrom_safe (fails.after went) place rfl ?_ ?_)
  · intro t₂ went' (high : d.oldest t₁ ≤ restart)
    have went₂ := went.trans went'
    have aligned : d.Aligned t₂ none restart :=
      ⟨fun _ none => (by cases none), fun _ => ⟨t₁, went'.le, restarts⟩⟩
    refine .bind (.lift (next_safe went'.lawful (reads_of_readFrom place (Nat.zero_le restart) t₂)
      (aligned.anchored went'.lawful) ?_ ?_ ?_ ?_))
    · intro e record ordinal reader t₃ went'' pulls
      have went₃ := went₂.trans went''
      cases record with
      -- A batch where a fresh reader starts is no ground to recover on.
      | updates batch => exact .throw (kept t₃ went₃)
      | init snapshot =>
        have lt := pulls.lt went''.lawful
        have first := aligned_of_snapshot pulls.entry (fun _ => pulls.decoded) pulls.numbered
        refine .bind (.lift (tally_safe fun t₄ tallied => ?_))
        have went₄ := went₃.trans tallied
        refine .bind (.lift (replayRecords_safe tallied.lawful (pulls.reads.mono tallied.le)
          (first.mono tallied.le)
          (ends.after went₄) ?_ ?_))
        · intro slot position t₅ replayed onward through
          refine .bind (.lift (tally_safe fun t₆ counted => ?_))
          have went₆ := (went₄.trans replayed).trans counted
          have onward := onward.mono counted.le
          obtain ⟨copy, rfl⟩ := Option.isSome_iff_exists.mp (onward.kept rfl)
          obtain ⟨placed, same⟩ := onward.aligned.copy copy rfl
          have reached : ending 0 (d.log t) ≤ copy.revision.offset := by
            rw [same]
            refine Nat.le_trans (ending_mono went₂.lawful went₂.le) ?_
            exact Nat.le_trans (Nat.le_of_eq pulls.limit.symm) through
          refine remember_safe (went₆.tends.holds held) ?_ ?_ ?_
          · rintro _ ⟨⟩
            exact placed
          -- The old copy ends where there was a log when recovery began, and the new one after that.
          · intro old there
            rw [went₆.cache_eq held] at there
            have lawful := went₆.lawful.of_le went₆.le
            exact ⟨copy, rfl, Nat.le_trans ((Deployment.placed lawful there).offset_le (log_chain lawful)) reached⟩
          · exact fun t₇ remembered cached => recovered copy t₇ (went₆.tends.trans remembered) cached reached
        · intro cause slot position t₅ replayed onward blame _
          exact .throw (failed cause t₅ (went₄.trans replayed) (blame.since went₄.le))
    · exact fun _ t₃ went'' _ => .throw (kept t₃ (went₂.trans went''))
    · exact fun cause _ t₃ went'' blame _ => .throw (failed cause t₃ (went₂.trans went'') (blame.since went₂.le))
    · exact fun _ t₃ went'' => .abort (fun _ _ => trivial) fun past waited =>
        ends past ((went₂.trans went'').trans waited.of_waited)
  · intro t' went' low
    have went₂ := went.trans went'
    exact failed _ t' went₂ (.truncated restart _ t' went₂.le (List.prefix_refl _) rfl low)

/-- At `t'` the cache has taken in all that the log held at `t`; without a copy there was nothing to read then. -/
inductive Abreast (d : Deployment M) (me : Caller O) (t t' : Trace M R O) : Prop
  | copied (copy : Revisioned M.State) (cached : t'.cache me.place = some copy)
    (le : ending 0 (d.log t) ≤ copy.revision.offset) : Abreast d me t t'
  | vacant (cached : t'.cache me.place = none) (seen : Trace M R O) (since : t <+: seen) (by_ : seen <+: t')
    (offset : Nat) (restart : d.RestartAt seen offset) (le : ending 0 (d.log seen) ≤ offset) : Abreast d me t t'

theorem Abreast.le (abreast : d.Abreast me t t') {copy : Revisioned M.State}
    (cached : t'.cache me.place = some copy) : ending 0 (d.log t) ≤ copy.revision.offset := by
  cases abreast with
  | copied copy' cached' le =>
    rw [cached] at cached'
    cases cached'
    exact le
  | vacant none =>
    rw [cached] at none
    cases none

theorem Abreast.exists_copy (abreast : d.Abreast me t t') (lawful : Lawful (d.law ρ) t') (clean : Clean ρ t')
    (written : d.log t ≠ []) :
    ∃ copy, t'.cache me.place = some copy ∧ ending 0 (d.log t) ≤ copy.revision.offset := by
  cases abreast with
  | copied copy cached le => exact ⟨copy, cached, le⟩
  | vacant none seen since by_ offset restart le =>
    have lawful := lawful.of_le by_
    have begins := (begun lawful (clean.of_le by_)).lt_of_restart restart
    have inside := (log_chain (lawful.of_le since)).lt_ending written
    have before := ending_mono lawful since
    omega

theorem approach_safe {crash : Trace M R O → Prop} {err : CoreError → Trace M R O → Prop}
    {ok : Except CoreError Unit → Trace M R O → Prop} (place : Nat)
    (held : (World.after t).holders me.place .cache = some me.call)
    (ends : ∀ t', Went (d.law ρ) me Deed.Tends t t' → crash (t' ++ [⟨me, .gaveUp⟩]))
    (arrived : ∀ t', Went (d.law ρ) me Deed.Tends t t' → d.Abreast me t t' → ok (.ok ()) t')
    (stopped : ∀ cause t', Went (d.law ρ) me Deed.Tends t t' → d.Blame ρ me t t' cause →
      (∀ copy, t'.cache me.place = some copy → d.Behind me t copy.revision.offset t' cause) → ok (.error cause) t')
    (failed : ∀ cause t', Went (d.law ρ) me Deed.Tends t t' → d.Blame ρ me t t' cause →
      cause.Untruncated me t t' → err cause t') :
    Attempt.Safe (d.law ρ) me crash ok err (d.replica place).approach t := by
  -- With a copy and without one it goes on alike, only from another start.
  have replays : ∀ {slot start t₁}, Went (d.law ρ) me Deed.Looks t t₁ → t₁.cache me.place = slot →
      start.segment = d.segment → start.event ≤ start.offset → d.Aligned t₁ slot start.offset →
      (slot = none → d.RestartAt t₁ start.offset) →
        Attempt.Safe (d.law ρ) me crash ok err (ExceptT.lift ((d.replica place).replayFrom slot start).run) t₁ := by
    intro slot start t₁ went cached here numbered aligned restarts
    refine .lift (Attempt.Safe.run
      (replayFrom_safe place (went.tends.holds held) cached here numbered aligned ?_ ?_ ?_))
    · exact fun t' went' => ends t' (went.trans went').tends
    · intro slot' position t' went' cached' onward through
      refine arrived t' (went.tends.trans went') ?_
      cases slot' with
      | some copy =>
        refine .copied copy cached' ?_
        rw [(onward.aligned.copy copy rfl).2]
        exact Nat.le_trans (ending_mono went.lawful went.le) through
      | none =>
        cases slot with
        | some copy => cases onward.kept rfl
        | none => exact .vacant cached' t₁ went.le went'.le _ (restarts rfl) (onward.stays rfl ▸ through)
    · intro cause slot' position t' went' cached' onward blame behind
      refine stopped cause t' (went.tends.trans went') (blame.since went.le) fun copy same => ?_
      rw [(onward.aligned.copy copy (cached'.symm.trans same)).2]
      exact behind.since went.le
  unfold Replica.approach
  refine .bind (cached_safe fun slot t₁ went cached => ?_)
  cases slot with
  | some copy =>
    have known := placed went.lawful cached
    refine .bind (.pure (replays went cached known.segment known.numbered ⟨?_, nofun⟩ nofun))
    rintro _ ⟨⟩
    exact ⟨known, rfl⟩
  | none =>
    refine .bind (freshStart_safe (fun cause t' went' blame other => ?_) place fun offset t₂ went' restarts => ?_)
    · exact failed cause t' (went.trans went').tends (blame.since went.le) (other.since went.le)
    · refine replays (went.trans went') ?_ rfl (Nat.zero_le _)
        ⟨fun _ none => (by cases none), fun _ => ⟨t₂, List.prefix_refl _, restarts⟩⟩ fun _ => restarts
      rw [went'.cache_eq (went.tends.holds held)]
      exact cached

theorem catchUp_safe {crash : Trace M R O → Prop} {err : CoreError → Trace M R O → Prop}
    {ok : Unit → Trace M R O → Prop} (place : Nat)
    (ends : ∀ t', Went (d.law ρ) me Deed.Tends t t' → crash (t' ++ [⟨me, .gaveUp⟩]))
    (caught : ∀ t', Went (d.law ρ) me Deed.Tends t t' → d.Abreast me t t' → ok () t')
    (failed : ∀ cause t', Went (d.law ρ) me Deed.Tends t t' → d.Blame ρ me t t' cause → err cause t')
    (held : (World.after t).holders me.place .cache = some me.call) :
    Attempt.Safe (d.law ρ) me crash ok err (d.replica place).catchUp t := by
  rw [Replica.catchUp_eq_approach]
  refine .bind (approach_safe place held ends (fun t' went abreast => .pure (caught t' went abreast)) ?_
    fun cause t' went blame _ => failed cause t' went blame)
  intro cause t₁ went blame _
  dsimp only
  split
  · refine recover_safe place (went.holds held) ?_ ?_ ?_ ?_
    · exact fun t' looked => ends t' (went.trans looked.tends)
    · intro copy t' went' same le
      exact caught t' (went.trans went') (.copied copy same (Nat.le_trans (ending_mono went.lawful went.le) le))
    · exact fun cause t' looked blame => failed cause t' (went.trans looked.tends) (blame.since went.le)
    · exact fun t' looked => failed cause t' (went.trans looked.tends) (blame.later looked.le)
  · exact .throw (failed cause t₁ went blame)

theorem locked_spared_safe {α : Type} {crash : Trace M R O → Prop} {ok : α → Trace M R O → Prop}
    {err : CoreError → Trace M R O → Prop} {body : Attempt M R α}
    (inside : ∀ t', Went (d.law ρ) me (Deed.Spares d.segment) t t' →
      (World.after t').holders me.place .cache = some me.call →
      Attempt.Safe (d.law ρ) me crash
        (fun a t'' => (World.after t'').holders me.place .cache = some me.call ∧
          ∀ left, Went (d.law ρ) me (Deed.Spares d.segment) t'' left → ok a left)
        (fun cause t'' => (World.after t'').holders me.place .cache = some me.call ∧
          ∀ left, Went (d.law ρ) me (Deed.Spares d.segment) t'' left → err cause left) body t') :
    Attempt.Safe (d.law ρ) me crash ok err (Attempt.locked body) t := by
  have leave : ∀ {β : Type} {b : β} {t' : Trace M R O} {post : β → Trace M R O → Prop},
      (World.after t').holders me.place .cache = some me.call →
      (∀ left, Went (d.law ρ) me (Deed.Spares d.segment) t' left → post b left) →
      (do
        Procedure.touch .unlockCache
        pure b : Procedure M R β).Safe (d.law ρ) me crash post t' := by
    intro β b t' post held goes
    refine Procedure.Safe.bind (.touch ?_ (fun _ _ => trivial) ?_)
    · intro past waited lock need
      cases need
      exact (waited.of_waited.holds held)
    · intro answer past waited _ _ lawful
      exact goes _ (waited.step ⟨trivial, nofun⟩ lawful)
  unfold Attempt.locked
  refine Procedure.Safe.bind (.touch (fun _ _ _ need => by cases need) (fun _ _ => trivial) ?_)
  intro answer past waited _ _ lawful
  have held := World.holders_locked (M := M) (R := R) past me answer
  refine Procedure.Safe.bind (Procedure.Safe.mono (inside _ (waited.step ⟨trivial, nofun⟩ lawful) held) ?_)
  intro result t' promised
  cases result with
  | ok a => exact leave promised.1 promised.2
  | error cause => exact leave promised.1 promised.2

theorem locked_safe {α : Type} {crash : Trace M R O → Prop} {ok : α → Trace M R O → Prop}
    {err : CoreError → Trace M R O → Prop} {body : Attempt M R α}
    (inside : ∀ t', Went (d.law ρ) me (Deed.Quiet d.segment) t t' →
      (World.after t').holders me.place .cache = some me.call →
      Attempt.Safe (d.law ρ) me crash
        (fun a t'' => (World.after t'').holders me.place .cache = some me.call ∧
          ∀ left, Went (d.law ρ) me (Deed.Quiet d.segment) t'' left → ok a left)
        (fun cause t'' => (World.after t'').holders me.place .cache = some me.call ∧
          ∀ left, Went (d.law ρ) me (Deed.Quiet d.segment) t'' left → err cause left) body t') :
    Attempt.Safe (d.law ρ) me crash ok err (Attempt.locked body) t := by
  refine locked_spared_safe fun t' entered held => Procedure.Safe.mono (inside t' entered.spared held) ?_
  intro result t'' promised
  cases result with
  | ok a => exact ⟨promised.1, fun left leaves => promised.2 left leaves.spared⟩
  | error cause => exact ⟨promised.1, fun left leaves => promised.2 left leaves.spared⟩

section

variable {crash : Trace M R O → Prop} {err : CoreError → Trace M R O → Prop} (place : Nat)
  (ends : ∀ t', Went (d.law ρ) me (Deed.Quiet d.segment) t t' → crash (t' ++ [⟨me, .gaveUp⟩]))
  (failed : ∀ cause t', Went (d.law ρ) me (Deed.Quiet d.segment) t t' → d.Blame ρ me t t' cause → err cause t')

include ends failed

theorem fetchUpdates_safe {ok : Unit → Trace M R O → Prop}
    (fetched : ∀ t', Went (d.law ρ) me (Deed.Quiet d.segment) t t' → ok () t') :
    Attempt.Safe (d.law ρ) me crash ok err (d.replica place).fetchUpdates t := by
  unfold Replica.fetchUpdates
  refine locked_safe fun t₁ entered held => catchUp_safe place ?_ ?_ ?_ held
  · exact fun t' went => ends t' (entered.trans (went.quiet d.segment))
  · intro t₂ went _
    exact ⟨went.holds held, fun left leaves => fetched left ((entered.trans (went.quiet d.segment)).trans leaves)⟩
  · intro cause t₂ went blame
    exact ⟨went.holds held, fun left leaves => failed cause left ((entered.trans (went.quiet d.segment)).trans leaves)
      ((blame.since entered.le).later leaves.le)⟩

theorem getRevisionedState_safe {ok : Revisioned M.State → Trace M R O → Prop}
    (got : ∀ copy t', Went (d.law ρ) me (Deed.Quiet d.segment) t t' → d.Placed (d.log t') copy →
      ending 0 (d.log t) ≤ copy.revision.offset → ok copy t') :
    Attempt.Safe (d.law ρ) me crash ok err (d.replica place).getRevisionedState t := by
  unfold Replica.getRevisionedState
  refine locked_safe fun t₁ entered held => .bind (catchUp_safe place ?_ ?_ ?_ held)
  · exact fun t' went => ends t' (entered.trans (went.quiet d.segment))
  · intro t₂ went abreast
    refine .bind (cached_safe fun slot t₃ looked cached => ?_)
    have went₃ := went.trans looked.tends
    have reached := entered.trans (went₃.quiet d.segment)
    cases slot with
    | none =>
      exact ⟨went₃.holds held, fun left leaves => failed _ left (reached.trans leaves) .notInitialized⟩
    | some copy =>
      refine ⟨went₃.holds held, fun left leaves => got copy left (reached.trans leaves) ?_ ?_⟩
      · exact (placed looked.lawful cached).mono (Trace.history_le _ leaves.le)
      · refine Nat.le_trans (ending_mono entered.lawful entered.le) (abreast.le ?_)
        rw [← cached, looked.cache_eq (went.holds held)]
  · intro cause t₂ went blame
    exact ⟨went.holds held, fun left leaves => failed cause left ((entered.trans (went.quiet d.segment)).trans leaves)
      ((blame.since entered.le).later leaves.le)⟩

end

end Deployment

end LogReplica
