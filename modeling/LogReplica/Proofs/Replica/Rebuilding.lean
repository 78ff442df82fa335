import LogReplica.Proofs.Concurrency.Path
import LogReplica.Proofs.Replica.Linearizability
import LogReplica.Proofs.Replica.Served

namespace LogReplica

variable {M : Model} {R O : Type}

namespace Deployment

variable {d : Deployment M} {ρ : Conduct M R O} {me : Caller O} {start t past : Trace M R O}
  {e : Event M R O}

variable (d) in
def Founded (log : List Entry) (offset : Nat) : Prop :=
  ∃ e ∈ log, e.offset = offset ∧ ∀ batch, d.codec.decode e.data ≠ .ok (.updates batch)

variable (d) in
/-- At this position there is nothing to start from: no record, or a batch of updates. -/
def Unfounded (log : List Entry) (offset : Nat) : Prop :=
  ending 0 log ≤ offset ∨ ∃ e ∈ log, e.offset = offset ∧ ∃ batch, d.codec.decode e.data = .ok (.updates batch)

theorem Founded.mono {log log' : List Entry} {offset : Nat} (founded : d.Founded log offset) (le : log <+: log') :
    d.Founded log' offset := by
  obtain ⟨e, member, found⟩ := founded
  exact ⟨e, le.subset member, found⟩

theorem Founded.not_unfounded {log : List Entry} {offset : Nat} (founded : d.Founded log offset)
    (chain : Contiguous 0 log) : ¬d.Unfounded log offset := by
  obtain ⟨e, member, rfl, other⟩ := founded
  rintro (short | ⟨e', member', same, batch, decoded⟩)
  · have := (chain.offsets_ascending.2 e member).2
    omega
  · rw [chain.eq_of_offset_eq member' member same] at decoded
    exact other batch decoded

section Unhindered

variable {crash : Trace M R O → Prop} {err : CoreError → Trace M R O → Prop}

theorem readFrom_untroubled (place : Nat) {restart : Revision} (here : restart.segment = d.segment)
    {ok : Reader M.Record → Trace M R O → Prop} (since : start <+: t)
    (opened : ∀ t', t <+: t' → Lawful (d.law ρ) t' →
      ok { client := d.client place, nextOffset := restart.offset, endOffset := ending 0 (d.log t'),
           ordinal := restart.event } t')
    (truncated : ∀ cause t', restart.offset < d.oldest t' → err cause t') :
    Attempt.Yields (d.Untroubled ρ me start) me crash ok err ((d.client place).readFrom restart) t := by
  have here : restart.segment = (d.client place).segment := here
  unfold Client.readFrom
  rw [Client.checkSegment, if_pos here]
  refine .bind (ensureOpen_untroubled since fun t₁ le₁ => .bind (.pure ?_))
  refine .bind (ask_untroubled (since.trans le₁) fun oldest past t₂ short le₂ same lawful => ?_)
  subst same
  obtain ⟨_, fits, _⟩ := lawful.of_concat
  have found : oldest = d.oldest past := Store.Logs.oldestOffset fits.symm
  have le₂ := le₁.trans (le₂.trans short)
  split
  · rename_i low
    rw [found] at low
    exact .throw (truncated _ _ (Nat.lt_of_lt_of_le low (oldest_le lawful short)))
  · refine .bind (ask_untroubled (since.trans le₂) fun tail past' t₃ short' le₃ same lawful' => .pure ?_)
    subst same
    obtain ⟨before, fits', _⟩ := lawful'.of_concat
    have reached : tail = ending 0 (d.log past') := (before.logs d.segment).tailOffset fits'.symm
    obtain ⟨log, _⟩ := lawful'.still_of_quiet d.segment trivial
    have goes := opened _ (le₂.trans (le₃.trans short')) lawful'
    rw [Deployment.log, log, ← Deployment.log, ← reached] at goes
    exact goes

theorem refill_untroubled {place position : Nat} {r : Reader M.Record} (since : start <+: t)
    (reads : d.Reads place t r position) (empty : r.buffer = []) (ahead : r.nextOffset < r.endOffset)
    {ok : Reader M.Record → Trace M R O → Prop}
    (filled : ∀ r' t', t <+: t' → Lawful (d.law ρ) t' → d.Fills place t' r r' position → ok r' t') :
    Attempt.Yields (d.Untroubled ρ me start) me crash ok err r.refill t := by
  have here : r.client.segment = d.segment := by rw [reads.client]; rfl
  have begins : r.nextOffset = position := by rw [reads.next, empty, ending_nil]
  unfold Reader.refill
  rw [here, begins]
  refine .bind (ask_untroubled since fun entries past t' short le same lawful => .pure ?_)
  obtain ⟨before, fits, _⟩ := (same ▸ lawful).of_concat
  have fills := (reads.mono le).fills before empty ahead fits.symm
  have goes := filled _ t' (le.trans short) lawful (fills.mono short)
  rw [Reader.filled, begins] at goes
  exact goes

theorem next_untroubled {place position : Nat} {r : Reader M.Record} (since : start <+: t)
    (reads : d.Reads place t r position) (empty : r.buffer = [])
    {post : Reader.Pulled M.Record × Reader M.Record → Trace M R O → Prop}
    (pulled : ∀ e record ordinal r' t', Lawful (d.law ρ) t' → d.Pulls place t' r r' position e record ordinal →
      post (.record ⟨d.segment, e.endOffset, ordinal⟩ record, r') t')
    (finished : ∀ r' t', post (.finished, r') t')
    (undecodable : ∀ e cause r' t', e ∈ d.log t' → e.offset = position → d.codec.decode e.data = .error cause →
      post (.failed (.encoding cause), r') t')
    (uncounted : ∀ r' t', post (.uncounted, r') t') :
    (r.next : Procedure M R _).Yields (d.Untroubled ρ me start) me crash post t := by
  unfold Reader.next
  simp only [reads.going, empty, Bool.false_eq_true, if_false, List.isEmpty_nil, Bool.not_true]
  split
  · exact finished _ t
  · rename_i ahead
    refine Procedure.Yields.bind (Attempt.Yields.run
      (refill_untroubled since reads empty (Nat.lt_of_not_le ahead) fun r₁ t' le lawful fills => ?_))
    obtain ⟨e, rest, full⟩ := List.exists_cons_of_ne_nil fills.filled
    obtain ⟨before, front, ends⟩ := fills.reads.stretch.resolve_left fills.filled
    have chain := log_chain lawful
    rw [full] at front
    show post r₁.pop t'
    rcases pop_of_reads chain fills.reads full with
      ⟨record, ordinal, r', same, pulls⟩ | ⟨cause, r', same, undecoded, member⟩ | ⟨r', same, _⟩
    · rw [same]
      exact pulled e record ordinal r' t' lawful (pulls.of_fills fills)
    · rw [same]
      exact undecodable e cause r' t' member (ends ▸ (chain.of_le front).offset_eq) undecoded
    · rw [same]
      exact uncounted r' t'

theorem rebuild_untroubled (place : Nat) {restart : Revision} {cause : CoreError} (here : restart.segment = d.segment)
    (numbered : restart.event ≤ restart.offset) (since : start <+: t) :
    Attempt.Yields (d.Untroubled ρ me start) me (fun _ => True) (fun _ t' => d.Founded (d.log t') restart.offset)
      (fun cause' t' => cause' = cause ∨ restart.offset < d.oldest t' ∨ d.Founded (d.log t') restart.offset)
      ((d.replica place).rebuild cause restart) t := by
  unfold Replica.rebuild
  refine .bind (readFrom_untroubled place here since ?_ fun _ _ low => .inr (.inl low))
  intro t₁ le₁ lawful
  refine .bind (.lift (next_untroubled (since.trans le₁) (reads_of_readFrom place numbered t₁) rfl ?_ ?_ ?_ ?_))
  · intro e record ordinal records t₂ lawful₂ pulls
    cases record with
    | updates batch => exact .throw (.inl rfl)
    | init snapshot =>
      obtain ⟨before, front, ends⟩ := pulls.entry
      have founded : d.Founded (d.log t₂) restart.offset := by
        refine ⟨e, front.subset (by simp), ends ▸ ((log_chain lawful₂).of_le front).offset_eq, fun batch other => ?_⟩
        rw [pulls.decoded] at other
        cases other
      -- From here on it may go as it likes.
      refine Procedure.Yields.mono (Procedure.Leads.yields _ t₂) fun result t₃ rest => ?_
      have founded := founded.mono (Trace.history_le d.segment rest.le)
      cases result with
      | ok => exact founded
      | error => exact .inr (.inr founded)
  · exact fun _ _ => .throw (.inl rfl)
  · intro e codecCause _ t₂ member begins undecoded
    refine .throw (.inr (.inr ⟨e, member, begins, fun batch decoded => ?_⟩))
    rw [undecoded] at decoded
    cases decoded
  · exact fun _ _ => .abort fun _ _ _ => trivial

end Unhindered

/-- A catch-up under the lock of the cache: stopped at `t₁`, as records are missing, it recovers from then on. -/
structure Recovering (d : Deployment M) (me : Caller O) (cause : CoreError) (t₀ t₁ : Trace M R O)
    (result : Except CoreError Unit) (t₂ : Trace M R O) : Prop where
  held : (World.after t₀).holders me.place .cache = some me.call
  stopped : (d.replica me.place).approach.run.Leads me t₀ (.ok (.error cause)) t₁
  truncated : cause.isTruncated = true
  recovers : ((d.replica me.place).recover cause).run.Leads me t₁ result t₂

/-- A recovery that has failed at `t₂` has not changed the cache. It tells what led to it, or has a reason of its
own. If it knew where to start, and found nothing there to start from, it tells what led to it. -/
structure Unrecovered (d : Deployment M) (ρ : Conduct M R O) (me : Caller O) (cause : CoreError) (t₁ : Trace M R O)
    (cause' : CoreError) (t₂ : Trace M R O) : Prop where
  kept : t₂.cache me.place = t₁.cache me.place
  reason : cause' = cause ∨ d.Blame ρ me t₁ t₂ cause'
  told : (d.replica me.place).freshStart.run.Leads me t₁ (.error cause') t₂ ∨ ∃ restart t,
    (d.replica me.place).freshStart.run.Leads me t₁ (.ok restart) t ∧
    ((d.replica me.place).rebuild cause restart).run.Leads me t (.error cause') t₂ ∧
    (Trace.Unhindered me t t₂ → d.oldest t₂ ≤ restart.offset → d.Unfounded (d.log t₂) restart.offset → cause' = cause)

/-- A recovery that has succeeded at `t₂` has put a newer copy in the place of the old one. -/
def Renewed (me : Caller O) (t₁ t₂ : Trace M R O) : Prop :=
  ∃ copy, t₂.cache me.place = some copy ∧
    (t₁.Candid → ∀ old, t₁.cache me.place = some old → old.revision.offset < copy.revision.offset)

namespace Recovering

variable {cause : CoreError} {t₀ t₁ t₂ : Trace M R O}

theorem behind {result : Except CoreError Unit} (recovering : d.Recovering me cause t₀ t₁ result t₂)
    (lawful : Lawful (d.law ρ) t₂) : (World.after t₁).holders me.place .cache = some me.call ∧
      ∀ old, t₁.cache me.place = some old → d.Behind me t₀ old.revision.offset t₁ cause := by
  let post (answer : Except CoreError Unit) (t : Trace M R O) : Prop := ∀ cause, answer = .error cause →
    (World.after t).holders me.place .cache = some me.call ∧
      ∀ old, t.cache me.place = some old → d.Behind me t₀ old.revision.offset t cause
  have safe : Attempt.Safe (d.law ρ) me (fun _ => True) post (fun _ _ => True) (d.replica me.place).approach t₀ := by
    refine approach_safe me.place recovering.held (fun _ _ => trivial) (fun _ _ _ => nofun) ?_ fun _ _ _ _ _ => trivial
    rintro cause t went _ behind _ ⟨⟩
    exact ⟨went.holds recovering.held, behind⟩
  exact recovering.stopped.promised (lawful.of_le recovering.recovers.le) safe cause rfl

theorem unrecovered {cause' : CoreError} (recovering : d.Recovering me cause t₀ t₁ (.error cause') t₂)
    (lawful : Lawful (d.law ρ) t₂) : d.Unrecovered ρ me cause t₁ cause' t₂ := by
  obtain ⟨held, _⟩ := recovering.behind lawful
  have safe : Attempt.Safe (d.law ρ) me (fun _ => True) (fun _ _ => True)
      (fun cause' t => t.cache me.place = t₁.cache me.place ∧ (cause' = cause ∨ d.Blame ρ me t₁ t cause'))
      ((d.replica me.place).recover cause) t₁ :=
    recover_safe me.place held (fun _ _ => trivial) (fun _ _ _ _ _ => trivial)
      (fun _ _ looked blame => ⟨looked.cache_eq held, .inr blame⟩) fun _ looked => ⟨looked.cache_eq held, .inl rfl⟩
  obtain ⟨kept, reason⟩ := recovering.recovers.promised lawful safe
  refine ⟨kept, reason, ?_⟩
  rcases Attempt.leads_bind recovering.recovers with ⟨restart, t, first, rest⟩ | ⟨_, first, ⟨⟩⟩
  · refine .inr ⟨restart, t, first, rest, fun fine low unfounded => ?_⟩
    obtain ⟨offset, rfl⟩ : ∃ offset, restart = ⟨d.segment, offset, 0⟩ := by
      have safe : Attempt.Safe (d.law ρ) me (fun _ => True)
          (fun restart _ => ∃ offset, restart = ⟨d.segment, offset, 0⟩) (fun _ _ => True)
          (d.replica me.place).freshStart t₁ :=
        freshStart_safe (fun _ _ _ _ _ => trivial) me.place fun offset _ _ _ => ⟨offset, rfl⟩
      exact first.promised (lawful.of_le rest.le) safe
    have untroubled : d.Untroubled ρ me t t₂ := ⟨lawful, fine⟩
    rcases rest.yielded (fun le here => ⟨here.1.of_le le, here.2.of_le le⟩) untroubled
      (rebuild_untroubled me.place rfl (Nat.zero_le _) (List.prefix_refl t)) with same | moved | founded
    · exact same
    · exact absurd low (Nat.not_le_of_lt moved)
    · exact absurd unfounded (founded.not_unfounded (log_chain lawful))
  · exact .inl first

theorem renewed {nothing : Unit} (recovering : d.Recovering me cause t₀ t₁ (.ok nothing) t₂)
    (lawful : Lawful (d.law ρ) t₂) : Renewed me t₁ t₂ := by
  obtain ⟨held, behind⟩ := recovering.behind lawful
  have lawful₁ := lawful.of_le recovering.recovers.le
  have safe : Attempt.Safe (d.law ρ) me (fun _ => True) (fun _ t => ∃ copy, t.cache me.place = some copy ∧
      ending 0 (d.log t₁) ≤ copy.revision.offset) (fun _ _ => True) ((d.replica me.place).recover cause) t₁ :=
    recover_safe me.place held (fun _ _ => trivial) (fun copy _ _ same reached => ⟨copy, same, reached⟩)
      (fun _ _ _ _ => trivial) fun _ _ => trivial
  obtain ⟨copy, cached, reached⟩ := recovering.recovers.promised lawful safe
  refine ⟨copy, cached, fun candid old there => ?_⟩
  calc
    old.revision.offset < d.oldest t₁ := behind old there recovering.truncated candid.since
    _ ≤ ending 0 (d.log t₁) := (lawful₁.logs d.segment).start_le
    _ ≤ copy.revision.offset := reached

theorem of_truncated {cause' : CoreError} (held : (World.after t₀).holders me.place .cache = some me.call)
    (leads : (d.replica me.place).catchUp.run.Leads me t₀ (.error cause') t₂) (lawful : Lawful (d.law ρ) t₂)
    (truncated : cause'.isTruncated = true) (candid : t₂.Candid) :
    ∃ cause t₁, d.Recovering me cause t₀ t₁ (.error cause') t₂ := by
  rw [Replica.catchUp_eq_approach] at leads
  rcases Attempt.leads_bind leads with ⟨answer, t₁, stopped, rest⟩ | ⟨_, failed, ⟨⟩⟩
  · cases answer with
    | ok => cases rest
    | error cause =>
      dsimp only at rest
      split at rest
      · rename_i other
        exact ⟨cause, t₁, held, stopped, other, rest⟩
      · rename_i other
        cases rest
        exact absurd truncated other
  · have safe : Attempt.Safe (d.law ρ) me (fun _ => True) (fun _ _ => True) (fun cause t => cause.Untruncated me t₀ t)
        (d.replica me.place).approach t₀ :=
      approach_safe me.place held (fun _ _ => trivial) (fun _ _ _ => trivial) (fun _ _ _ _ _ => trivial)
        fun _ _ _ _ other => other
    exact absurd candid.since (failed.promised lawful safe truncated)

end Recovering

theorem tail_lt (lawful : Lawful (d.law ρ) (past ++ [e])) {entry : Entry} (landed : e.landed? d.segment = some entry) :
    (Trace.buffer d.segment past).tail < (Trace.buffer d.segment (past ++ [e])).tail := by
  have chain := log_chain lawful
  rw [tail_eq lawful.of_concat.1, tail_eq lawful]
  rw [log_of_landed past landed] at chain ⊢
  rw [← chain.offset_eq]
  exact (chain.offsets_ascending.2 entry (by simp)).2

variable (d) in
/-- What has happened has moved nothing back, and no recovery has stopped halfway. -/
structure Advancing (ρ : Conduct M R O) (t : Trace M R O) : Prop where
  tail : ∀ past later : Trace M R O, past <+: later → later <+: t →
    (Trace.buffer d.segment past).tail ≤ (Trace.buffer d.segment later).tail
  oldest : ∀ past later : Trace M R O, past <+: later → later <+: t → d.oldest past ≤ d.oldest later
  grows : ∀ past e entry, past ++ [e] <+: t → e.landed? d.segment = some entry →
    (Trace.buffer d.segment past).tail < (Trace.buffer d.segment (past ++ [e])).tail
  copies : ∀ (past later : Trace M R O) place, past <+: later → later <+: t →
    NoOlder (past.cache place) (later.cache place)
  unrecovered : ∀ me cause t₀ t₁ cause' t₂, d.Recovering me cause t₀ t₁ (.error cause') t₂ → t₂ <+: t →
    d.Unrecovered ρ me cause t₁ cause' t₂
  renewed : ∀ me cause t₀ t₁ t₂, d.Recovering me cause t₀ t₁ (.ok ()) t₂ → t₂ <+: t → Renewed me t₁ t₂

variable {s : System M R (Operation M) (Result M R)}

/-- Whatever replicas and clients do, and whichever requests are not served, no position moves back: neither
the tail nor the oldest position of the segment, nor any copy. A recovery that fails has changed no cache, and
one that succeeds has brought a newer copy. -/
theorem positions_advance (reachable : d.Reachable R s) : d.Advancing (conduct M R) s.trace := by
  have lawful := (secure_of_reachable reachable).lawful
  refine ⟨?_, ?_, ?_, ?_, ?_, ?_⟩
  · intro past later le le'
    have lawful := lawful.of_le le'
    rw [tail_eq lawful, tail_eq (lawful.of_le le)]
    exact ending_mono lawful le
  · exact fun past later le le' => oldest_le (lawful.of_le le') le
  · exact fun past e entry le landed => tail_lt (lawful.of_le le) landed
  · exact fun past later place le le' => noOlder (lawful.of_le le') le place
  · exact fun me cause t₀ t₁ cause' t₂ recovering le => recovering.unrecovered (lawful.of_le le)
  · exact fun me cause t₀ t₁ t₂ recovering le => recovering.renewed (lawful.of_le le)

theorem recovering_of_returned (reachable : d.Reachable R s) {caller : Caller (Operation M)}
    (fetches : caller.operation = .fetchUpdates) {cause' : CoreError} (returned : s.Returned caller (.error cause'))
    (truncated : cause'.isTruncated = true) (candid : s.trace.Candid) :
    ∃ cause t₀ t₁ t₂, d.Recovering caller cause t₀ t₁ (.error cause') t₂ ∧ t₂ <+: s.trace := by
  have own : (.error cause' : Except CoreError (Result M R)) ≠ .error .taskFailed := by
    rintro ⟨⟩
    cases truncated
  obtain ⟨past, t, _, _, idled, leads⟩ := System.leads_of_returned reachable returned own
  rw [fetches] at leads
  have lawful := (secure_of_reachable reachable).lawful
  rcases Attempt.leads_bind leads with ⟨_, _, _, ended⟩ | ⟨_, failed, ⟨⟩⟩
  · cases ended
  · obtain ⟨t₀, t₂, _, leaves, held, inside⟩ := Attempt.leads_locked failed
    have le := leaves.le.trans idled.le
    obtain ⟨cause, t₁, recovering⟩ := Recovering.of_truncated held inside (lawful.of_le le) truncated (candid.of_le le)
    exact ⟨cause, t₀, t₁, t₂, recovering, le⟩

/-- A client cuts the log off between two batches, behind which a copy elsewhere has fallen. It cannot recover
until a compaction has written a snapshot. -/
def stranded : List (Move (Operation Model.bytes)) := List.flatten [
  Move.run ⟨0, 0, .createSegment⟩ 1,
  Move.run ⟨1, 0, .establish [1]⟩ 12,
  Move.run ⟨2, 1, .getState⟩ 20,
  Move.run ⟨3, 0, .updateState⟩ 25,
  Move.run ⟨4, 0, .updateState⟩ 25,
  Move.run ⟨5, 2, .truncateTo ⟨ofBytes.segment, 20, 0⟩⟩ 5,
  Move.run ⟨6, 1, .fetchUpdates⟩ 30,
  Move.run ⟨7, 0, .compact⟩ 45,
  Move.run ⟨8, 1, .fetchUpdates⟩ 30]

def missed (place offset oldest : Nat) : Call Model.bytes Unit (Operation Model.bytes) (Result Model.bytes Unit) → Bool
  | ⟨⟨_, here, .fetchUpdates⟩, .done (.error (.dataTruncated segment position start))⟩ =>
    decide (here = place ∧ segment = ofBytes.segment ∧ position = offset ∧ start = oldest)
  | _ => false

theorem stranded_advances : ofBytes.Reachable Unit (playBytes 2 stranded) ∧
    ofBytes.Advancing (conduct _ _) (playBytes 2 stranded).trace ∧
    (playBytes 2 stranded).Returned ⟨6, 1, .fetchUpdates⟩ (.error (.dataTruncated ofBytes.segment 6 20)) ∧
    (∃ cause t₀ t₁ t₂, t₂ <+: (playBytes 2 stranded).trace ∧
      ofBytes.Recovering ⟨6, 1, .fetchUpdates⟩ cause t₀ t₁ (.error (.dataTruncated ofBytes.segment 6 20)) t₂ ∧
      ofBytes.Unrecovered (conduct _ _) ⟨6, 1, .fetchUpdates⟩ cause t₁ (.dataTruncated ofBytes.segment 6 20) t₂) ∧
    ((playBytes 2 stranded).trace.cache 1).map (·.revision.offset) = some 42 := by
  have reachable := reachable_playBytes 2 stranded
  have advancing := positions_advance reachable
  have returned : (playBytes 2 stranded).Returned ⟨6, 1, .fetchUpdates⟩
      (.error (.dataTruncated ofBytes.segment 6 20)) := by
    refine System.returned_of_any reachable (missed 1 6 20) (fun call checked => ?_) (by decide +kernel)
    unfold missed at checked
    split at checked
    · obtain ⟨here, rfl, rfl, rfl⟩ := of_decide_eq_true checked
      exact ⟨here, rfl, rfl⟩
    · cases checked
  have served : ((playBytes 2 stranded).trace.all fun e => e.failure?.isNone) = true := by decide +kernel
  have candid := Trace.candid_of_served (Trace.failure?_eq_none served)
  obtain ⟨cause, t₀, t₁, t₂, recovering, le⟩ := recovering_of_returned reachable rfl returned rfl candid
  exact ⟨reachable, advancing, returned,
    ⟨cause, t₀, t₁, t₂, le, recovering, advancing.unrecovered _ _ _ _ _ _ recovering le⟩, by decide +kernel⟩

end Deployment

end LogReplica
