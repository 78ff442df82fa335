import LogReplica.Proofs.Concurrency.Course
import LogReplica.Proofs.Replica.Runs

namespace LogReplica

variable {M : Model} {R O : Type}

/-- `now` is an instant of a call: it has been called, and some deed of it is still to come. -/
structure Trace.Amid (t : Trace M R O) (me : Caller O) (now : Trace M R O) : Prop where
  called : ⟨me, .called⟩ ∈ now
  unfinished : ∃ later, t = now ++ later ∧ ∃ e ∈ later, e.caller.call = me.call

namespace Trace.Amid

variable {t t' now : Trace M R O} {me : Caller O}

theorem of_concat (called : ⟨me, .called⟩ ∈ now) (le : now <+: t) (deed : Deed M R) :
    Trace.Amid (t ++ [⟨me, deed⟩]) me now := by
  obtain ⟨later, rfl⟩ := le
  exact ⟨called, later ++ [⟨me, deed⟩], List.append_assoc _ _ _, _, List.mem_append_right _ (List.mem_singleton_self _),
    rfl⟩

theorem le (amid : t.Amid me now) : now <+: t := by
  obtain ⟨later, rfl, _⟩ := amid.unfinished
  exact List.prefix_append _ _

theorem mono (amid : t.Amid me now) (le : t <+: t') : t'.Amid me now := by
  obtain ⟨called, later, rfl, e, member, mine⟩ := amid
  obtain ⟨more, rfl⟩ := le
  exact ⟨called, later ++ more, List.append_assoc _ _ _, e, List.mem_append_left _ member, mine⟩

theorem le_of_uncalled (amid : t.Amid me now) (le : t' <+: t) (uncalled : ⟨me, .called⟩ ∉ t') : t' <+: now := by
  rcases List.prefix_or_prefix_of_prefix le amid.le with before | after
  · exact before
  · exact absurd (after.subset amid.called) uncalled

theorem le_of_finished (amid : t.Amid me now) {after : Trace M R O} (split : t = t' ++ after)
    (finished : ∀ e ∈ after, e.caller.call ≠ me.call) : now <+: t' := by
  obtain ⟨later, whole, e, member, mine⟩ := amid.unfinished
  rcases List.append_eq_append_iff.mp (split.symm.trans whole) with ⟨rest, _, rfl⟩ | ⟨rest, rfl, _⟩
  · exact absurd mine (finished e (List.mem_append_right _ member))
  · exact List.prefix_append _ _

end Trace.Amid

def Operation.Reads : Operation M → Prop
  | getState | getRevisionedState => True
  | _ => False

namespace Deployment

variable {d : Deployment M} {ρ : Conduct M R O} {me : Caller O} {t t' : Trace M R O}

/-- What a reading gives if this is the whole log. -/
def Shows (d : Deployment M) (log : List Entry) : Result M R → Prop
  | .state state => d.fold log = some state
  | .revisioned copy =>
    copy.revision.segment = d.segment ∧ copy.revision.offset = ending 0 log ∧ d.fold log = some copy.state
  | _ => False

theorem exists_instant (lawful : Lawful (d.law ρ) t') (le : t <+: t') {through : List Entry}
    (front : through <+: d.log t')
    (reach : ending 0 (d.log t) ≤ ending 0 through) : ∃ now, t <+: now ∧ now <+: t' ∧ d.log now = through := by
  obtain ⟨more, rfl⟩ := le
  -- A step adds one entry at most, so no front of the log is passed over.
  induction more using List.reverseRecOn with
  | nil =>
    rw [List.append_nil] at front lawful
    have chain := log_chain lawful
    refine ⟨t, List.prefix_refl _, List.prefix_append _ _, chain.prefix_eq (List.prefix_refl _) front ?_⟩
    obtain ⟨rest, whole⟩ := front
    rw [← whole] at chain reach ⊢
    rw [ending_append] at reach ⊢
    exact Nat.le_antisymm reach chain.right.le_ending
  | append_singleton more e ih =>
    rw [← List.append_assoc] at front lawful ⊢
    have earlier :
        through <+: d.log (t ++ more) → ∃ now, t <+: now ∧ now <+: t ++ more ++ [e] ∧ d.log now = through := by
      intro short
      obtain ⟨now, after, before, same⟩ := ih lawful.of_concat.1 short
      exact ⟨now, after, before.trans (List.prefix_append _ _), same⟩
    cases landed : e.landed? d.segment with
    | none => exact earlier (log_of_unlanded _ landed ▸ front)
    | some entry =>
      rw [log_of_landed _ landed] at front
      rcases List.prefix_concat_iff.mp front with rfl | short
      · refine ⟨t ++ more ++ [e], List.append_assoc t more [e] ▸ List.prefix_append _ _, List.prefix_refl _, ?_⟩
        exact log_of_landed _ landed
      · exact earlier short

theorem getRevisionedState_amid (sound : d.Sound) (place : Nat) (called : ⟨me, .called⟩ ∈ t)
    {crash : Trace M R O → Prop}
    {ok : Revisioned M.State → Trace M R O → Prop} {err : CoreError → Trace M R O → Prop} (crashes : ∀ t', crash t')
    (got : ∀ copy t' now, t'.Amid me now → d.Shows (d.log now) (Result.revisioned copy : Result M R) → ok copy t')
    (failed : ∀ cause t', err cause t') :
    Attempt.Yields (Lawful (d.law ρ)) me crash ok err (d.replica place).getRevisionedState t := by
  unfold Replica.getRevisionedState
  refine .locked fun past idled lawful => ?_
  have held := World.holders_locked past me ()
  refine .bind (.of_safe (catchUp_safe place (fun _ _ => crashes _) ?_ (fun _ _ _ _ _ _ _ => failed _ _) held))
  intro t₂ went abreast
  refine .bind (.of_safe (cached_safe fun slot t₃ looked cached => ?_))
  cases slot with
  | none => exact .throw fun _ _ _ => failed _ _
  | some copy =>
    refine .pure fun left leaves _ => ?_
    obtain ⟨segment, _, through', front, ends, folded⟩ := canonical sound looked.lawful cached
    -- The copy is at least the log as it was when the lock was taken, and at most the log as it is now.
    have reach := abreast.le (by rw [← cached, looked.cache_eq (went.holds held)])
    have le := went.le.trans looked.le
    obtain ⟨now, after, before, rfl⟩ := exists_instant looked.lawful le front (ends ▸ reach)
    have called' := ((idled.le.trans (List.prefix_append _ _)).trans after).subset called
    exact got copy _ now (.of_concat called' (before.trans leaves.le) _) ⟨segment, ends.symm, folded⟩

section Writing

variable {β : Type} {crash : Trace M R O → Prop} {err : CoreError → Trace M R O → Prop} (sound : d.Sound) (place : Nat)
  (crashes : ∀ t', crash t') (failed : ∀ cause t', err cause t')

include sound crashes failed

theorem writeLoop_amid {choose : M.State → Option M.Record × β} {ok : WriteOutcome β → Trace M R O → Prop}
    (left attempts : Nat) (called : ⟨me, .called⟩ ∈ t)
    (declined : ∀ state result t' now, t'.Amid me now → d.fold (d.log now) = some state →
      choose state = (none, result) → ok ⟨result, none⟩ t')
    (wrote : ∀ result written t', ok ⟨result, some written⟩ t') :
    Attempt.Yields (Lawful (d.law ρ)) me crash ok err
      ((d.replica place).writeLoop (fun state => pure (choose state)) left attempts) t := by
  induction left generalizing t attempts with
  | zero => exact .abort fun _ _ _ => crashes _
  | succ left ih =>
    unfold Replica.writeLoop
    refine .bind (.lift (.of_le (fun t' _ => crashes t') fun _ t₁ paused => ?_))
    refine .bind (getRevisionedState_amid sound place (paused.subset called) crashes ?_ failed)
    rintro copy t₂ now amid ⟨_, _, folded⟩
    refine .bind (.lift ?_)
    show Attempt.Yields _ _ _ _ _ _ t₂
    rcases chosen : choose copy.state with ⟨_ | record, result⟩
    · exact .pure (declined copy.state result t₂ now amid folded chosen)
    · dsimp only
      refine .bind (.of_le (fun t' _ => crashes t') (fun written t₃ tried => ?_) fun cause t' _ => failed cause t')
      cases written with
      | some revision =>
        exact .bind (.lift (.of_le (fun t' _ => crashes t') fun _ t₄ _ => .pure (wrote _ _ t₄)))
      | none =>
        refine .bind (.of_le (fun t' _ => crashes t') (fun _ t₄ counted => ?_) fun cause t' _ => failed cause t')
        split
        · exact ih (attempts + 1) ((amid.le.trans (tried.trans counted)).subset amid.called)
        · exact .throw (failed _ t₄)

theorem updateBy_amid {choose : M.State → List M.Update × β} {ok : β → Trace M R O → Prop}
    (lawful : Lawful (d.law ρ) t) (called : ⟨me, .called⟩ ∈ t)
    (own : ∀ state past, (choose state).1 ≠ [] → Went (d.law ρ) me (Deed.Quiet d.segment) t past →
      ρ.proposes past me state (.updates (choose state).1))
    (unwritten : ∀ state result t' now, Went (d.law ρ) me (Deed.Quiet d.segment) t t' → t'.Amid me now →
      d.fold (d.log now) = some state → choose state = ([], result) → ok result t')
    (wrote : ∀ result state entry past t₁ t', Went (d.law ρ) me (Deed.Quiet d.segment) t past →
      d.Landed ρ me (.updates (choose state).1) entry past t₁ → Went (d.law ρ) me (Deed.Quiet d.segment) t₁ t' →
      t'.Amid me t₁ → ok result t') :
    Attempt.Yields (Lawful (d.law ρ)) me crash ok err
      ((d.replica place).updateBy fun state => pure (choose state)) t := by
  let propose (state : M.State) : Option M.Record × β :=
    (if (choose state).1.isEmpty then none else some (.updates (choose state).1), (choose state).2)
  have proposes : d.Proposes ρ me t crash
      (fun proposal => ∀ record, proposal = some record → ∃ state, record = .updates (choose state).1)
      fun state => pure (propose state) := proposes_batches own
  -- One view of the loop tells what it has landed, the other one what there was when it had nothing to land.
  let landed (outcome : WriteOutcome β) (t' : Trace M R O) : Prop :=
    (outcome.written = none → Went (d.law ρ) me (Deed.Quiet d.segment) t t') ∧
      (outcome.written.isSome = true → ∃ state entry past t₁, Went (d.law ρ) me (Deed.Quiet d.segment) t past ∧
        d.Landed ρ me (.updates (choose state).1) entry past t₁ ∧ Went (d.law ρ) me (Deed.Quiet d.segment) t₁ t')
  let declined (outcome : WriteOutcome β) (t' : Trace M R O) : Prop := outcome.written = none →
    ∃ state now, t'.Amid me now ∧ d.fold (d.log now) = some state ∧ choose state = ([], outcome.result)
  have lands : Attempt.Yields (Lawful (d.law ρ)) me crash landed err
      ((d.replica place).writeLoop (fun state => pure (propose state)) Replica.attemptLimit 0) t := by
    refine .of_safe (writeLoop_safe place proposes _ 0 (Went.refl lawful) (fun _ _ => crashes _) ?_ ?_ ?_)
    · exact fun result t' went _ => ⟨fun _ => went, nofun⟩
    · intro result expected written record entry past t₁ t' before landed fits after _ _
      obtain ⟨state, rfl⟩ := fits record rfl
      exact ⟨nofun, fun _ => ⟨state, entry, past, t₁, before, landed, after⟩⟩
    · exact fun cause t' _ _ => failed cause t'
  have declines : Attempt.Yields (Lawful (d.law ρ)) me crash declined err
      ((d.replica place).writeLoop (fun state => pure (propose state)) Replica.attemptLimit 0) t := by
    refine writeLoop_amid sound place crashes failed _ 0 called ?_ fun _ _ _ => nofun
    intro state result t' now amid folded same _
    refine ⟨state, now, amid, folded, ?_⟩
    obtain ⟨none, rfl⟩ := Prod.mk.inj same
    have empty : (choose state).1 = [] := by simpa using none
    exact Prod.ext empty rfl
  unfold Replica.updateBy
  refine .bind (Procedure.Yields.mono (lands.and declines) fun answer t' promised => ?_)
  cases answer with
  | error cause => exact failed cause t'
  | ok outcome =>
    obtain ⟨⟨silent, written⟩, declined⟩ := promised
    dsimp only
    split
    · rename_i wrote'
      obtain ⟨state, entry, past, t₁, before, landed, after⟩ := written wrote'
      refine .bind (.touch fun _ t₂ idled lawful => .pure ?_)
      have waited := idled.went lawful.of_concat.1
      have called' := (before.le.trans landed.did.le).subset called
      exact wrote outcome.result state entry past t₁ _ before landed (after.trans (waited.step trivial lawful))
        (.of_concat called' (after.le.trans idled.le) _)
    · rename_i unwritten'
      have none : outcome.written = none := by simpa using unwritten'
      obtain ⟨state, now, amid, folded, same⟩ := declined none
      exact .pure (unwritten state outcome.result t' now (silent none) amid folded same)

end Writing

section Runs

variable {s₀ s : System M R (Operation M) (Result M R)} {reader : Caller (Operation M)}

theorem shows_of_returned (sound : d.Sound) (reachable : d.Reachable R s) (reads : reader.operation.Reads)
    {result : Result M R} (returned : s.Returned reader (.ok result)) :
    ∃ now, s.trace.Amid reader now ∧ d.Shows (d.log now) result := by
  have lawful := (secure_of_reachable reachable).lawful
  let post (answer : Except CoreError (Result M R)) (t : Trace M R (Operation M)) : Prop :=
    ∀ result, answer = .ok result → ∃ now, t.Amid reader now ∧ d.Shows (d.log now) result
  have yields : ∀ past : Trace M R (Operation M), (d.program reader.place reader.operation).run.Yields
    (Lawful (d.law (conduct M R)))
      reader (post (.error .taskFailed)) post (past ++ [⟨reader, .called⟩]) := by
    intro past
    have called : (⟨reader, .called⟩ : Event M R (Operation M)) ∈ past ++ [⟨reader, .called⟩] := by simp
    refine Attempt.Yields.run ?_
    cases operation : reader.operation with
    | getState =>
      refine .bind (.bind (getRevisionedState_amid sound reader.place called nofun ?_ fun _ _ => nofun))
      rintro copy t' now amid ⟨_, _, folded⟩
      refine .pure (.pure ?_)
      rintro _ ⟨⟩
      exact ⟨now, amid, folded⟩
    | getRevisionedState =>
      refine .bind (getRevisionedState_amid sound reader.place called nofun ?_ fun _ _ => nofun)
      intro copy t' now amid shows
      refine .pure ?_
      rintro _ ⟨⟩
      exact ⟨now, amid, shows⟩
    | _ =>
      rw [operation] at reads
      exact reads.elim
  obtain ⟨t, idled, shown⟩ := System.yielded_of_reachable (Lawful (d.law (conduct M R))) post reachable returned
    (fun le lawful => lawful.of_le le) lawful fun past _ _ => yields past
  obtain ⟨now, amid, shows⟩ := shown result rfl
  exact ⟨now, amid.mono idled.le, shows⟩

/-- A reading gives the state of the whole log at an instant of the call. It takes in all that had
landed before it was called, and is not older than any reading that had ended before. -/
theorem reads_linearizable (sound : d.Sound) (reachable : d.Reachable R s₀) (steps : s₀.Steps d.program s)
    (reads : reader.operation.Reads) (uncalled : s₀.calls reader.call = none) {result : Result M R}
    (returned : s.Returned reader (.ok result)) :
    ∃ now, s.trace.Amid reader now ∧ d.Shows (d.log now) result ∧
      (∀ e ∈ s₀.trace, ∀ entry, e.landed? d.segment = some entry → entry ∈ d.log now) ∧
      ∀ copy, result = .revisioned copy → (Trace.buffer d.segment s₀.trace).tail ≤ copy.revision.offset ∧
        ∀ earlier copy', earlier.operation.Reads → s₀.Returned earlier (.ok (.revisioned copy')) →
          copy'.revision.offset ≤ copy.revision.offset := by
  have reachable' : d.Reachable R s := reachable.trans steps
  have lawful := (secure_of_reachable reachable').lawful
  obtain ⟨now, amid, shows⟩ := shows_of_returned sound reachable' reads returned
  have before : s₀.trace <+: now :=
    amid.le_of_uncalled (System.trace_le steps) fun called => System.fresh_of_uncalled reachable uncalled _ called rfl
  have lawful := lawful.of_le amid.le
  refine ⟨now, amid, shows, ?_, ?_⟩
  · exact fun e member entry landed => List.mem_filterMap.mpr ⟨e, before.subset member, landed⟩
  · rintro copy rfl
    obtain ⟨_, offset, _⟩ := shows
    rw [offset]
    refine ⟨tail_eq (lawful.of_le before) ▸ ending_mono lawful before, ?_⟩
    intro earlier copy' reads' returned'
    obtain ⟨now', amid', _, offset', _⟩ := shows_of_returned sound reachable reads' returned'
    rw [offset']
    exact ending_mono lawful (amid'.le.trans before)

end Runs

theorem steps_playBytes (byte : UInt8) (schedule more : List (Move (Operation Model.bytes))) :
    (playBytes byte schedule).Steps ofBytes.program (playBytes byte (schedule ++ more)) := by
  unfold playBytes System.Stage.play
  rw [List.foldl_append]
  exact ((System.Stage.fair_initial.play schedule).fair.play more).steps

def glance : List (Move (Operation Model.bytes)) := List.flatten [
  Move.run ⟨0, 0, .createSegment⟩ 1,
  Move.run ⟨1, 0, .establish [1]⟩ 12,
  Move.run ⟨2, 0, .getRevisionedState⟩ 20]

def overtaken : List (Move (Operation Model.bytes)) := List.flatten [
  Move.run ⟨3, 1, .getRevisionedState⟩ 6,
  Move.run ⟨4, 0, .updateState⟩ 20,
  Move.steps 3 20]

def gave (place : Nat) (state : Bytes) (offset : Nat) : Call Model.bytes Unit (Operation Model.bytes)
    (Result Model.bytes Unit) → Bool
  | ⟨⟨_, here, .getRevisionedState⟩, .done (.ok (.revisioned copy))⟩ =>
    decide (here = place ∧ copy.state = state ∧ copy.revision.offset = offset)
  | _ => false

theorem returned_of_gave (schedule : List (Move (Operation Model.bytes))) (id place : Nat) (state : Bytes)
    (offset : Nat) (checked : ((playBytes 2 schedule).calls id).any (gave place state offset) = true) :
    ∃ copy, (playBytes 2 schedule).Returned ⟨id, place, .getRevisionedState⟩ (.ok (.revisioned copy)) ∧
      copy.state = state ∧
      copy.revision.offset = offset := by
  obtain ⟨call, here, checked⟩ := (Option.any_eq_true _ _).mp checked
  have named := (System.called_of_reachable (reachable_playBytes 2 schedule) here).1
  unfold gave at checked
  split at checked
  · obtain ⟨rfl, same⟩ := of_decide_eq_true checked
    obtain rfl : _ = id := named
    exact ⟨_, here, same⟩
  · cases checked

theorem overtaken_linearized : ofBytes.Sound ∧ ofBytes.Reachable Unit (playBytes 2 glance) ∧
    (playBytes 2 glance).Steps ofBytes.program (playBytes 2 (glance ++ overtaken)) ∧
    (playBytes 2 glance).calls 3 = none ∧ ∃ earlier copy now,
      (playBytes 2 glance).Returned ⟨2, 0, .getRevisionedState⟩ (.ok (.revisioned earlier)) ∧ earlier.state = [1] ∧
      (playBytes 2 (glance ++ overtaken)).Returned ⟨3, 1, .getRevisionedState⟩ (.ok (.revisioned copy)) ∧
        copy.state = [1, 2] ∧
      earlier.revision.offset ≤ copy.revision.offset ∧
      (playBytes 2 (glance ++ overtaken)).trace.Amid ⟨3, 1, .getRevisionedState⟩ now ∧
      ofBytes.fold (ofBytes.log now) = some [1, 2] := by
  have reachable := reachable_playBytes 2 glance
  have steps := steps_playBytes 2 glance overtaken
  have uncalled : (playBytes 2 glance).calls 3 = none := Option.isNone_iff_eq_none.mp (by decide +kernel)
  obtain ⟨earlier, returned', state', _⟩ := returned_of_gave glance 2 0 [1] 6 (by decide +kernel)
  obtain ⟨copy, returned, state, _⟩ := returned_of_gave (glance ++ overtaken) 3 1 [1, 2] 20 (by decide +kernel)
  have reads : (⟨3, 1, .getRevisionedState⟩ : Caller (Operation Model.bytes)).operation.Reads := trivial
  obtain ⟨now, amid, ⟨_, _, folded⟩, _, ahead⟩ :=
    reads_linearizable ofBytes_sound reachable steps reads uncalled returned
  have order := (ahead copy rfl).2 ⟨2, 0, .getRevisionedState⟩ earlier trivial returned'
  exact ⟨ofBytes_sound, reachable, steps, uncalled, earlier, copy, now, returned', state', returned, state, order, amid,
    state ▸ folded⟩

end Deployment

end LogReplica
