import LogReplica.Proofs.Replica.Layout
import LogReplica.Proofs.Replica.Linearizability

namespace LogReplica

variable {M : Model} {R O : Type}

namespace Deployment

variable {d : Deployment M} {ρ : Conduct M R O} {me : Caller O} {t t' past : Trace M R O}

/-- All has been done by replicas, no request of this call was refused its service, its place is
open, and the log is short enough for all records to be numbered. -/
structure Undisturbed (d : Deployment M) (ρ : Conduct M R O) (me : Caller O) (t : Trace M R O) : Prop where
  lawful : Lawful (d.law ρ) t
  clean : Clean ρ t
  served : ∀ e ∈ t, e.caller.call = me.call → e.failure? = none
  opened : ((World.after t).memories me.place).closed = false
  short : ending 0 (d.log t) < Revision.eventLimit

theorem Undisturbed.of_le (fine : d.Undisturbed ρ me t') (le : t <+: t') : d.Undisturbed ρ me t :=
  ⟨fine.lawful.of_le le, fine.clean.of_le le, fun e member => fine.served e (le.subset member),
    Trace.open_of_le le fine.opened, Nat.lt_of_le_of_lt (ending_mono fine.lawful le) fine.short⟩

theorem log_ne_nil (written : d.log t ≠ []) (le : t <+: t') : d.log t' ≠ [] := fun empty =>
  written (List.prefix_nil.mp (empty ▸ Trace.history_le d.segment le))

structure Proceeded (d : Deployment M) (ρ : Conduct M R O) (me : Caller O) (allowed : Deed M R → Prop)
    (t t' : Trace M R O) : Prop where
  passed : Passed me allowed t t'
  fine : d.Undisturbed ρ me t'

namespace Proceeded

variable {allowed : Deed M R → Prop} {t'' : Trace M R O}

theorem trans (first : d.Proceeded ρ me allowed t t') (second : d.Proceeded ρ me allowed t' t'') :
    d.Proceeded ρ me allowed t t'' := ⟨first.passed.trans second.passed, second.fine⟩

theorem le (proceeded : d.Proceeded ρ me allowed t t') : t <+: t' := proceeded.passed.le

theorem went (proceeded : d.Proceeded ρ me allowed t t') : Went (d.law ρ) me allowed t t' :=
  proceeded.passed.went proceeded.fine.lawful

theorem tends (peeked : d.Proceeded ρ me Deed.Peeks t t') : d.Proceeded ρ me Deed.Tends t t' :=
  ⟨peeked.passed.mono fun _ peeks => peeks.looks.tends, peeked.fine⟩

theorem looks (peeked : d.Proceeded ρ me Deed.Peeks t t') : d.Proceeded ρ me Deed.Looks t t' :=
  ⟨peeked.passed.mono fun _ peeks => peeks.looks, peeked.fine⟩

theorem settles (looked : d.Proceeded ρ me Deed.Looks t t') : d.Proceeded ρ me Deed.Tends t t' :=
  ⟨looked.passed.mono fun _ looks => looks.tends, looked.fine⟩

theorem oldest_le (proceeded : d.Proceeded ρ me allowed t t') : d.oldest t ≤ d.oldest t' :=
  Deployment.oldest_le proceeded.fine.lawful proceeded.le

end Proceeded

namespace Shape

theorem oldest_le_of_restartAt (shape : d.Shape t) {offset : Nat} (restart : d.RestartAt t offset) :
    d.oldest t ≤ offset := by
  rcases restart with marked | rfl
  · obtain ⟨_, same, low, _⟩ := shape.of_mark marked
    exact Int.ofNat.inj same ▸ low
  · exact Nat.le_refl _

theorem decodes (shape : d.Shape t) {e : Entry} (member : e ∈ d.log t) :
    ∃ record, d.codec.decode e.data = .ok record := by
  obtain ⟨before, after, split⟩ := List.append_of_mem member
  obtain ⟨state, folded⟩ := shape.states (before ++ [e]) ⟨after, by simp [split]⟩ (by simp)
  rw [fold_concat] at folded
  cases decoded : d.codec.decode e.data with
  | ok record => exact ⟨record, rfl⟩
  | error cause =>
    simp only [advance, decoded] at folded
    cases folded

end Shape

def Spans (log : List Entry) (start stop count : Nat) : Prop :=
  ∃ before stretch, before ++ stretch <+: log ∧ ending 0 before = start ∧ ending 0 (before ++ stretch) = stop ∧
    stretch.length = count

namespace Spans

variable {log log' : List Entry} {a b c m n : Nat}

theorem mono (spans : Spans log a b n) (le : log <+: log') : Spans log' a b n := by
  obtain ⟨before, stretch, front, found⟩ := spans
  exact ⟨before, stretch, front.trans le, found⟩

theorem trans (chain : Contiguous 0 log) (first : Spans log a b m) (second : Spans log b c n) :
    Spans log a c (m + n) := by
  obtain ⟨before, stretch, front, starts, rfl, rfl⟩ := first
  obtain ⟨before', stretch', front', starts', stops, rfl⟩ := second
  obtain rfl := chain.prefix_eq ((List.prefix_append before' stretch').trans front') front starts'
  exact ⟨before, stretch ++ stretch', by rwa [← List.append_assoc], starts, by rwa [← List.append_assoc],
    List.length_append⟩

end Spans

variable (d ρ me) in
abbrev Comes {α : Type} (ok : α → Trace M R O → Prop) (err : CoreError → Trace M R O → Prop) (x : Attempt M R α)
    (t : Trace M R O) : Prop := Attempt.Yields (d.Undisturbed ρ me) me (fun _ => False) ok err x t

variable {err : CoreError → Trace M R O → Prop}

theorem ensureOpen_yields {ok : Unit → Trace M R O → Prop}
    (checked : ∀ t', d.Proceeded ρ me Deed.Peeks t t' → ok () t') :
    d.Comes ρ me ok err Client.ensureOpen t := by
  unfold Client.ensureOpen
  refine .bind (.touch fun answer past idled fine => ?_)
  have same : answer = ((World.after past).memories me.place).closed := fine.lawful.of_concat.2.1.2
  rw [(fine.of_le (List.prefix_append _ _)).opened] at same
  subst same
  exact .pure (checked _ ⟨idled.step trivial, fine⟩)

theorem checkSegment_yields (place : Nat) {revision : Revision} (here : revision.segment = d.segment)
    {ok : Unit → Trace M R O → Prop} (checked : ok () t) :
    d.Comes ρ me ok err ((d.client place).checkSegment revision) t := by
  have here : revision.segment = (d.client place).segment := here
  rw [Client.checkSegment, if_pos here]
  exact .pure checked

theorem ask_yields (written : d.log t ≠ []) {request : Request} {ok : request.Answer → Trace M R O → Prop}
    (passive : request.Passive) (other : ∀ offset budget, request ≠ .readAt offset budget)
    (served : ∀ answer (past : Trace M R O) t', d.Proceeded ρ me Deed.Peeks t t' →
      (World.after past).store.Logs d.segment (d.log past) →
      .ok answer = (Store.serve d.segment request (World.after past).store).1 → d.log t' = d.log past →
      Trace.buffer d.segment t' = Trace.buffer d.segment past → ok answer t') :
    d.Comes ρ me ok err (Attempt.ask d.segment request) t := by
  refine .ask (fun answer past idled fine => ?_) fun cause deed past idled outcome fine => ?_
  · obtain ⟨before, fits, _⟩ := fine.lawful.of_concat
    have peeks : Deed.Peeks (.acted (.ask d.segment request) (.ok answer) : Deed M R) := passive
    obtain ⟨log, buffer⟩ := fine.lawful.still_of_quiet d.segment (peeks.looks.tends.quiet d.segment)
    exact served answer past _ ⟨idled.step peeks, fine⟩ (before.logs d.segment) fits log buffer
  · rcases refused_or_failed outcome fine.lawful with rfl | ⟨rfl, refusal⟩
    · cases fine.served _ (List.mem_append_right _ (List.mem_singleton_self _)) rfl
    · cases refusal with
      | absent _ none =>
        exact absurd ((fine.lawful.of_concat.1.logs d.segment).eq_nil_of_absent none) (log_ne_nil written idled.le)
      | tooLarge | uncuttable => exact passive.elim
      | truncated offset budget | unreadable offset budget => exact absurd rfl (other offset budget)

section Written

variable (written : d.log t ≠ [])

include written

theorem tailOffset_yields {ok : Nat → Trace M R O → Prop}
    (served : ∀ t', d.Proceeded ρ me Deed.Peeks t t' → ok (ending 0 (d.log t')) t') :
    d.Comes ρ me ok err (Attempt.ask d.segment .tailOffset) t := by
  refine ask_yields written trivial (fun _ _ other => by cases other) fun tail past t' peeked logs reply log _ => ?_
  obtain rfl : tail = ending 0 (d.log t') := (logs.tailOffset reply.symm).trans (congrArg (ending 0) log.symm)
  exact served t' peeked

theorem oldestOffset_yields {ok : Nat → Trace M R O → Prop}
    (served : ∀ t', d.Proceeded ρ me Deed.Peeks t t' → ok (d.oldest t') t') :
    d.Comes ρ me ok err (Attempt.ask d.segment .oldestOffset) t := by
  refine ask_yields written trivial (fun _ _ other => by cases other) fun oldest past t' peeked _ reply _ buffer => ?_
  obtain rfl : oldest = d.oldest t' := (Store.Logs.oldestOffset reply.symm).trans (congrArg Framed.start buffer.symm)
  exact served t' peeked

theorem freshStart_yields (trips : d.codec.RoundTrips) (place : Nat) {ok : Revision → Trace M R O → Prop}
    (found : ∀ offset t', d.Proceeded ρ me Deed.Peeks t t' → d.RestartAt t' offset → ok ⟨d.segment, offset, 0⟩ t') :
    d.Comes ρ me ok err (d.replica place).freshStart t := by
  unfold Replica.freshStart Client.getMark
  refine .bind (.bind (ensureOpen_yields fun t₁ checked => .bind ?_))
  refine ask_yields (log_ne_nil written checked.le) trivial (fun _ _ other => by cases other)
    fun value past t₂ peeked _ reply _ buffer => ?_
  have peeked := checked.trans peeked
  obtain rfl : value = d.mark t₂ := (Store.Logs.getMark reply.symm).trans
    (congrArg (fun f : Framed => f.attributes.get? .mark) buffer.symm)
  cases marked : d.mark t₂ with
  | none =>
    unfold Client.fetchOldest
    refine .pure (.bind (ensureOpen_yields fun t₃ checked' => ?_))
    refine .bind (oldestOffset_yields (log_ne_nil written (peeked.trans checked').le) fun t₄ peeked' => ?_)
    exact .pure (found _ t₄ ((peeked.trans checked').trans peeked') (.inr rfl))
  | some value =>
    obtain ⟨offset, rfl, _⟩ := (shape trips peeked.fine.lawful peeked.fine.clean).of_mark marked
    exact .pure (.pure (found offset t₂ peeked (.inl marked)))

theorem readFrom_yields (place : Nat) {start : Revision} (here : start.segment = d.segment)
    {ok : Reader M.Record → Trace M R O → Prop}
    (opened : ∀ t', d.Proceeded ρ me Deed.Peeks t t' → d.oldest t ≤ start.offset →
      ok { client := d.client place, nextOffset := start.offset, endOffset := ending 0 (d.log t'),
           ordinal := start.event } t')
    (truncated : ∀ cause t', d.Proceeded ρ me Deed.Peeks t t' → cause.isTruncated = true → start.offset < d.oldest t' →
      err cause t') : d.Comes ρ me ok err ((d.client place).readFrom start) t := by
  unfold Client.readFrom
  refine .bind (ensureOpen_yields fun t₁ checked => .bind (checkSegment_yields place here ?_))
  refine .bind (oldestOffset_yields (log_ne_nil written checked.le) fun t₂ peeked => ?_)
  have peeked := checked.trans peeked
  split
  · rename_i low
    exact .throw (truncated _ t₂ peeked rfl low)
  · rename_i high
    refine .bind (tailOffset_yields (log_ne_nil written peeked.le) fun t₃ peeked' => ?_)
    exact .pure (opened t₃ (peeked.trans peeked') (Nat.le_trans peeked.oldest_le (Nat.le_of_not_lt high)))

end Written

theorem refill_yields {place position : Nat} {r : Reader M.Record} (reads : d.Reads place t r position)
    (boundary : ∃ before, before <+: d.log t ∧ ending 0 before = position) (empty : r.buffer = [])
    (ahead : r.nextOffset < r.endOffset) {ok : Reader M.Record → Trace M R O → Prop}
    (filled : ∀ r' t', d.Proceeded ρ me Deed.Peeks t t' → d.Fills place t' r r' position → ok r' t')
    (truncated : ∀ cause t', d.Proceeded ρ me Deed.Peeks t t' → cause.isTruncated = true → position < d.oldest t' →
      err cause t') : d.Comes ρ me ok err r.refill t := by
  have here : r.client.segment = d.segment := by rw [reads.client]; rfl
  have start : r.nextOffset = position := by rw [reads.next, empty, ending_nil]
  have peeks : ∀ answer, Deed.Peeks
    (.acted (.ask d.segment (.readAt position r.client.readBuffer)) answer : Deed M R) :=
    fun _ => trivial
  unfold Reader.refill
  rw [here, start]
  refine .bind (.ask (fun entries past idled fine => ?_) fun cause deed past idled outcome fine => ?_)
  · obtain ⟨before, fits, _⟩ := fine.lawful.of_concat
    have fills := (reads.mono idled.le).fills before empty ahead fits.symm
    have goes := filled _ _ ⟨idled.step (peeks _), fine⟩ (fills.mono (List.prefix_append _ _))
    rw [Reader.filled, start] at goes
    exact .pure goes
  · have le : past <+: past ++ [⟨me, deed⟩] := List.prefix_append _ _
    rcases refused_or_failed outcome fine.lawful with rfl | ⟨rfl, refusal⟩
    · cases fine.served _ (List.mem_append_right _ (List.mem_singleton_self _)) rfl
    · cases refusal with
      | absent _ none =>
        have empty := (fine.lawful.of_concat.1.logs d.segment).eq_nil_of_absent none
        obtain ⟨early, bounded, limit⟩ := reads.inside
        have none : d.log early = [] :=
          List.prefix_nil.mp (empty ▸ Trace.history_le d.segment (bounded.trans idled.le))
        rw [limit, none, ending_nil] at ahead
        cases ahead
      | truncated _ _ low =>
        refine truncated _ _ ⟨idled.step (peeks _), fine⟩ rfl ?_
        exact Nat.lt_of_lt_of_le low (oldest_le fine.lawful le)
      | unreadable _ _ tail apart =>
        obtain ⟨before, front, ends⟩ := boundary
        exact absurd ends (apart before (front.trans (Trace.history_le _ idled.le)))

theorem Undisturbed.pop (trips : d.codec.RoundTrips) (fine : d.Undisturbed ρ me t) {place position : Nat}
    {r : Reader M.Record} (reads : d.Reads place t r position) (filled : r.buffer ≠ []) :
    ∃ e record ordinal r', r.pop = (.record ⟨d.segment, e.endOffset, ordinal⟩ record, r') ∧
      d.Pulls place t r r' position e record ordinal := by
  have chain := log_chain fine.lawful
  obtain ⟨e, rest, full⟩ := List.exists_cons_of_ne_nil filled
  rcases pop_of_reads chain reads full with ⟨record, ordinal, r', same, pulls⟩ | ⟨cause, r', _, undecoded, member⟩ |
    ⟨r', _, uncounted⟩
  · exact ⟨e, record, ordinal, r', same, pulls⟩
  · obtain ⟨record, decoded⟩ := (shape trips fine.lawful fine.clean).decodes member
    rw [undecoded] at decoded
    cases decoded
  · exfalso
    obtain ⟨before, front, ends⟩ := reads.stretch.resolve_left filled
    have low : position < ending 0 (d.log t) := by
      have member : e ∈ d.log t := front.subset (by rw [full]; simp)
      have begins : e.offset = position := by
        rw [full] at front
        have first : before ++ [e] <+: before ++ e :: rest :=
          (List.prefix_append_right_inj before).mpr (List.cons_prefix_cons.mpr ⟨rfl, List.nil_prefix⟩)
        exact ends ▸ (chain.of_le (first.trans front)).offset_eq
      exact begins ▸ (chain.offsets_ascending.2 e member).2
    have := fine.short
    have := reads.numbered
    unfold Revision.nextEvent? at uncounted
    split at uncounted
    · cases uncounted
    · omega

theorem next_yields (trips : d.codec.RoundTrips) {place position : Nat} {r : Reader M.Record}
    (fine : d.Undisturbed ρ me t) (reads : d.Reads place t r position)
    (boundary : ∃ before, before <+: d.log t ∧ ending 0 before = position)
    {post : Reader.Pulled M.Record × Reader M.Record → Trace M R O → Prop}
    (pulled : ∀ e record ordinal r' t', d.Proceeded ρ me Deed.Peeks t t' →
      d.Pulls place t' r r' position e record ordinal → post (.record ⟨d.segment, e.endOffset, ordinal⟩ record, r') t')
    (finished : ∀ r', r.endOffset ≤ position → post (.finished, r') t)
    (truncated : ∀ cause r' t', d.Proceeded ρ me Deed.Peeks t t' → cause.isTruncated = true → position < d.oldest t' →
      post (.failed cause, r') t') :
    (r.next : Procedure M R _).Yields (d.Undisturbed ρ me) me (fun _ => False) post t := by
  unfold Reader.next
  simp only [reads.going, Bool.false_eq_true, if_false]
  cases filled : r.buffer with
  | cons e rest =>
    obtain ⟨e, record, ordinal, r', same, pulls⟩ := fine.pop trips reads (by rw [filled]; exact List.cons_ne_nil _ _)
    simp only [List.isEmpty_cons, Bool.not_false, if_true]
    rw [same]
    exact pulled e record ordinal r' t ⟨.refl t, fine⟩ pulls
  | nil =>
    simp only [List.isEmpty_nil, Bool.not_true, Bool.false_eq_true, if_false]
    have start : r.nextOffset = position := by rw [reads.next, filled, ending_nil]
    split
    · rename_i done
      exact finished _ (start ▸ done)
    · rename_i ahead
      refine Procedure.Yields.bind
        (Attempt.Yields.run (refill_yields reads boundary filled (Nat.lt_of_not_le ahead) ?_ ?_))
      · intro r₁ t' peeked fills
        obtain ⟨e, record, ordinal, r', same, pulls⟩ := peeked.fine.pop trips fills.reads fills.filled
        show post r₁.pop t'
        rw [same]
        exact pulled e record ordinal r' t' peeked (pulls.of_fills fills)
      · exact fun cause t' peeked gone low => truncated cause _ t' peeked gone low

theorem Aligned.boundary {slot : Replica.Cached M} {position : Nat} (aligned : d.Aligned t slot position)
    (chain : Contiguous 0 (d.log t)) (begins : slot = none → d.SnapshotAt (d.log t) position) :
    ∃ before, before <+: d.log t ∧ ending 0 before = position := by
  cases slot with
  | none => exact (begins rfl).boundary chain
  | some copy =>
    obtain ⟨⟨_, _, through, _, front, ends, _⟩, same⟩ := aligned.copy copy rfl
    exact ⟨through, front, ends.trans same⟩

theorem replay_yields (trips : d.codec.RoundTrips) {place fuel position count : Nat} {reader : Reader M.Record}
    {slot : Replica.Cached M}
    (fine : d.Undisturbed ρ me t) (reads : d.Reads place t reader position) (aligned : d.Aligned t slot position)
    (begins : slot = none → d.SnapshotAt (d.log t) position ∧ position < reader.endOffset)
    (enough : reader.bound < fuel) {post : Reader.Ending × Replica.Progress M → Trace M R O → Prop}
    (complete : ∀ copy n position' t', d.Proceeded ρ me Deed.Peeks t t' → d.Aligned t' (some copy) position' →
      Spans (d.log t') position position' n → reader.endOffset ≤ position' →
        post (.complete, ⟨some copy, count + n⟩) t')
    (truncated : ∀ cause p t', d.Proceeded ρ me Deed.Peeks t t' → cause.isTruncated = true → position < d.oldest t' →
      post (.failed cause, p) t') :
    (reader.fold (Replica.replayRecord (d.replica place)) fuel ⟨slot, count⟩ : Procedure M R _).Yields
      (d.Undisturbed ρ me) me (fun _ => False) post t := by
  induction fuel generalizing t reader slot position count with
  | zero => exact absurd enough (Nat.not_lt_zero _)
  | succ fuel ih =>
    have boundary := aligned.boundary (log_chain fine.lawful) fun none => (begins none).1
    unfold Reader.fold
    refine Procedure.Yields.bind (next_yields trips fine reads boundary ?_ ?_ ?_)
    · intro e record ordinal reader' t' peeked pulls
      have chain := log_chain peeked.fine.lawful
      obtain ⟨before, front, ends⟩ := pulls.entry
      rcases replayRecord_cases place count ordinal peeked.fine.lawful (aligned.mono peeked.le) pulls.entry
        pulls.decoded pulls.numbered with ⟨copy, same, placed, there⟩ | ⟨rfl, other, _⟩
      · simp only [same]
        have aligned' : d.Aligned t' (some copy) e.endOffset := by
          refine ⟨?_, fun none => by cases none⟩
          rintro _ ⟨⟩
          exact ⟨placed, by rw [there]⟩
        have one : Spans (d.log t') position e.endOffset 1 := ⟨before, [e], front, ends, by simp, rfl⟩
        refine ih peeked.fine pulls.reads aligned' (fun none => by cases none)
          (Nat.lt_of_lt_of_le pulls.shorter (Nat.le_of_lt_succ enough)) ?_ ?_
        · intro copy' n position' t'' peeked' aligned'' spans through
          rw [Nat.add_assoc]
          refine complete copy' (1 + n) position' t'' (peeked.trans peeked') aligned'' ?_ (pulls.limit ▸ through)
          exact (one.mono (Trace.history_le _ peeked'.le)).trans (log_chain peeked'.fine.lawful) spans
        · intro cause p t'' peeked' gone low
          exact truncated cause p t'' (peeked.trans peeked') gone (Nat.lt_trans (pulls.lt peeked.fine.lawful) low)
      -- The first record is the snapshot that it begins at, and no batch without a state before it.
      · obtain ⟨e', member, there, snapshot⟩ := (begins rfl).1.mono (Trace.history_le _ peeked.le)
        have here : e.offset = position := ends ▸ (chain.of_le front).offset_eq
        rw [chain.eq_of_offset_eq member (front.subset (by simp)) (there.trans here.symm)] at snapshot
        exact absurd snapshot other
    · intro reader' through
      cases slot with
      | none => exact absurd (begins rfl).2 (Nat.not_lt.mpr through)
      | some copy =>
        obtain ⟨before, front, ends⟩ := boundary
        exact complete copy 0 position t ⟨.refl t, fine⟩ aligned
          ⟨before, [], by simpa using front, ends, by simpa using ends, rfl⟩ through
    · exact fun cause reader' t' peeked gone low => truncated cause _ t' peeked gone low

theorem tally_yields {tally : Tally} {post : Unit → Trace M R O → Prop}
    (goes : ∀ t', d.Proceeded ρ me Deed.Looks t t' → t'.recorded me = (t.recorded me).count tally → post () t') :
    (Procedure.touch (.tally tally) : Procedure M R Unit).Yields (d.Undisturbed ρ me) me (fun _ => False) post t := by
  refine .touch (x := .tally tally) fun answer past idled fine => ?_
  have looks : Deed.Looks (.acted (.touch (.tally tally)) answer : Deed M R) := trivial
  refine goes _ ⟨idled.step looks, fine⟩ ?_
  rw [Trace.recorded_concat, idled.recorded_eq fun _ => False.elim]
  rfl

theorem replayRecords_yields (trips : d.codec.RoundTrips) {place position : Nat} {reader : Reader M.Record}
    {slot : Replica.Cached M}
    (fine : d.Undisturbed ρ me t) (reads : d.Reads place t reader position) (aligned : d.Aligned t slot position)
    (begins : slot = none → d.SnapshotAt (d.log t) position ∧ position < reader.endOffset)
    {post : Except CoreError Unit × Replica.Cached M → Trace M R O → Prop}
    (replayed : ∀ copy n position' t', d.Proceeded ρ me Deed.Looks t t' → d.Aligned t' (some copy) position' →
      Spans (d.log t') position position' n → reader.endOffset ≤ position' →
      t'.recorded me = (t.recorded me).count (.replayed n) → post (.ok (), some copy) t')
    (truncated : ∀ cause slot' n t', d.Proceeded ρ me Deed.Looks t t' → cause.isTruncated = true →
      position < d.oldest t' →
      t'.recorded me = (t.recorded me).count (.replayed n) → post (.error cause, slot') t') :
    ((d.replica place).replayRecords slot reader : Procedure M R _).Yields (d.Undisturbed ρ me) me
      (fun _ => False) post t := by
  -- A replay that folded nothing is not counted, which comes to the same.
  have counts : ∀ {β : Type} {b : β} (n : Nat) {t₁ : Trace M R O} {post : β → Trace M R O → Prop},
      d.Proceeded ρ me Deed.Peeks t t₁ → (∀ t', d.Proceeded ρ me Deed.Looks t t' → t₁ <+: t' →
        t'.recorded me = (t.recorded me).count (.replayed n) → post b t') →
      (do
        if n ≠ 0 then Procedure.touch (.tally (.replayed n))
        pure b : Procedure M R β).Yields (d.Undisturbed ρ me) me (fun _ => False) post t₁ := by
    intro β b n t₁ post peeked goes
    have before : t₁.recorded me = t.recorded me := peeked.passed.recorded_eq fun _ => Deed.Peeks.tally?_eq
    split
    · refine Procedure.Yields.bind (tally_yields fun t' looked counted => ?_)
      exact goes t' (peeked.looks.trans looked) looked.le (before ▸ counted)
    · rename_i none
      obtain rfl : n = 0 := not_not.mp none
      exact goes t₁ peeked.looks (List.prefix_refl _) before
  unfold Replica.replayRecords
  refine Procedure.Yields.bind (replay_yields trips fine reads aligned begins (Nat.lt_succ_self _) ?_ ?_)
  · intro copy n position' t₁ peeked aligned' spans through
    rw [Nat.zero_add]
    refine counts n peeked fun t' looked le counted => ?_
    exact replayed copy n position' t' looked (aligned'.mono le) (spans.mono (Trace.history_le _ le)) through counted
  · intro cause p t₁ peeked gone low
    refine counts p.replayed peeked fun t' looked le counted => ?_
    exact truncated cause p.slot p.replayed t' looked gone
      (Nat.lt_of_lt_of_le low (oldest_le looked.fine.lawful le)) counted

theorem cached_yields {ok : Replica.Cached M → Trace M R O → Prop}
    (goes : ∀ t', d.Proceeded ρ me Deed.Peeks t t' → ok (t'.cache me.place) t') :
    d.Comes ρ me ok err (Attempt.touch .cached : Attempt M R _) t := by
  refine .touch (x := .cached) fun answer past idled fine => ?_
  have peeks : Deed.Peeks (.acted (.touch .cached) answer : Deed M R) := trivial
  have same : answer = past.cache me.place := fine.lawful.of_concat.2.1.2
  have still :
      (past ++ [(⟨me, .acted (.touch .cached) answer⟩ : Event M R O)]).cache me.place = past.cache me.place := by
    rw [Trace.cache, World.memories_touched]
    rfl
  have goes := goes _ ⟨idled.step peeks, fine⟩
  rw [still, ← same] at goes
  exact goes

theorem remember_yields {slot : Replica.Cached M} {ok : Unit → Trace M R O → Prop}
    (goes : ∀ t', d.Proceeded ρ me Deed.Tends t t' → t'.cache me.place = slot → t'.recorded me = t.recorded me →
      ok () t') :
    d.Comes ρ me ok err (Attempt.touch (.remember slot) : Attempt M R Unit) t := by
  refine .touch (x := .remember slot) fun answer past idled fine => ?_
  have tends : Deed.Tends (.acted (.touch (.remember slot)) answer : Deed M R) := trivial
  refine goes _ ⟨idled.step tends, fine⟩ ?_ ?_
  · rw [Trace.cache, World.memories_touched]
    rfl
  · rw [Trace.recorded_concat, idled.recorded_eq fun _ => False.elim]
    rfl

theorem replayFrom_yields (trips : d.codec.RoundTrips) (place : Nat) (written : d.log t ≠ []) {slot : Replica.Cached M}
    {start : Revision} (here : start.segment = d.segment) (numbered : start.event ≤ start.offset)
    (aligned : d.Aligned t slot start.offset) (begins : slot = none → d.SnapshotAt (d.log t) start.offset)
    {ok : Unit → Trace M R O → Prop}
    (replayed : ∀ copy n t', d.Proceeded ρ me Deed.Tends t t' → t'.cache me.place = some copy →
      Spans (d.log t') start.offset copy.revision.offset n → ending 0 (d.log t) ≤ copy.revision.offset →
      d.oldest t ≤ start.offset → t'.recorded me = (t.recorded me).count (.replayed n) → ok () t')
    (truncated : ∀ cause n t', d.Proceeded ρ me Deed.Tends t t' → cause.isTruncated = true →
      start.offset < d.oldest t' →
      t'.recorded me = (t.recorded me).count (.replayed n) → err cause t') :
    d.Comes ρ me ok err ((d.replica place).replayFrom slot start) t := by
  unfold Replica.replayFrom
  refine .bind (readFrom_yields written place here ?_ ?_)
  · intro t₁ peeked high
    have before : t₁.recorded me = t.recorded me := peeked.passed.recorded_eq fun _ => Deed.Peeks.tally?_eq
    have grown := Trace.history_le d.segment peeked.le
    refine .bind (.lift (replayRecords_yields trips peeked.fine (reads_of_readFrom place numbered t₁)
      (aligned.mono peeked.le) (fun none => ?_) ?_ ?_))
    · have found := (begins none).mono grown
      exact ⟨found, found.lt_ending (log_chain peeked.fine.lawful)⟩
    · intro copy n position' t₂ looked aligned' spans through counted
      refine .bind (remember_yields fun t₃ tended cached same => .pure ?_)
      have reached := (peeked.tends.trans looked.settles).trans tended
      obtain ⟨_, rfl⟩ := aligned'.copy copy rfl
      refine replayed copy n t₃ reached cached (spans.mono (Trace.history_le _ tended.le)) ?_ high ?_
      · exact Nat.le_trans (ending_mono peeked.fine.lawful peeked.le) through
      · rw [same, counted, before]
    · intro cause slot' n t₂ looked gone low counted
      refine .bind (remember_yields fun t₃ tended _ same => .throw ?_)
      refine truncated cause n t₃ ((peeked.tends.trans looked.settles).trans tended) gone ?_ ?_
      · exact Nat.lt_of_lt_of_le low tended.oldest_le
      · rw [same, counted, before]
  · intro cause t₁ peeked gone low
    exact truncated cause 0 t₁ peeked.tends gone low (peeked.passed.recorded_eq fun _ => Deed.Peeks.tally?_eq)

theorem recover_yields (trips : d.codec.RoundTrips) (place : Nat) (written : d.log t ≠ []) {truncated : CoreError}
    {ok : Unit → Trace M R O → Prop}
    (recovered : ∀ copy t', d.Proceeded ρ me Deed.Tends t t' → t'.cache me.place = some copy →
      (t'.recorded me).truncationRecoveries = (t.recorded me).truncationRecoveries + 1 → ok () t')
    (gone : ∀ cause t', d.Proceeded ρ me Deed.Tends t t' → cause.isTruncated = true → d.oldest t < d.oldest t' →
      err cause t') : d.Comes ρ me ok err ((d.replica place).recover truncated) t := by
  unfold Replica.recover
  refine .bind (freshStart_yields written trips place fun restart t₁ peeked restarts => ?_)
  have shape₁ := shape trips peeked.fine.lawful peeked.fine.clean
  have found := shape₁.snapshotAt_of_restartAt peeked.fine.lawful (log_ne_nil written peeked.le) restarts
  have high : d.oldest t ≤ restart := Nat.le_trans peeked.oldest_le (shape₁.oldest_le_of_restartAt restarts)
  refine .bind (readFrom_yields (log_ne_nil written peeked.le) place rfl ?_ ?_)
  · intro t₂ peeked' _
    have peeked := peeked.trans peeked'
    have found := found.mono (Trace.history_le d.segment peeked'.le)
    have chain := log_chain peeked.fine.lawful
    have before : t₂.recorded me = t.recorded me := peeked.passed.recorded_eq fun _ => Deed.Peeks.tally?_eq
    refine .bind (.lift (next_yields trips peeked.fine (reads_of_readFrom place (Nat.zero_le restart) t₂)
      (found.boundary chain) ?_ ?_ ?_))
    · intro e record ordinal reader t₃ peeked'' pulls
      have before : t₃.recorded me = t.recorded me :=
        (peeked''.passed.recorded_eq fun _ => Deed.Peeks.tally?_eq).trans before
      have peeked := peeked.trans peeked''
      have chain := log_chain peeked.fine.lawful
      obtain ⟨front, le, ends⟩ := pulls.entry
      obtain ⟨e', member, begins, snapshot⟩ := found.mono (Trace.history_le d.segment peeked''.le)
      have here : e.offset = restart := ends ▸ (chain.of_le le).offset_eq
      rw [chain.eq_of_offset_eq member (le.subset (by simp)) (begins.trans here.symm)] at snapshot
      obtain ⟨snapshot, decoded⟩ := snapshot
      obtain rfl : record = .init snapshot := Except.ok.inj (pulls.decoded.symm.trans decoded)
      refine .bind (.lift (tally_yields fun t₄ tallied counted => ?_))
      have first := (aligned_of_snapshot pulls.entry (fun _ => decoded) pulls.numbered).mono tallied.le
      have reached := peeked.tends.trans tallied.settles
      refine .bind (.lift (replayRecords_yields trips tallied.fine (pulls.reads.mono tallied.le) first
        (fun none => by cases none) ?_ ?_))
      · intro copy n position t₅ looked _ _ _ replayed
        refine .bind (.lift (tally_yields fun t₆ looked' recorded => ?_))
        refine remember_yields fun t₇ tended cached same => ?_
        refine recovered copy t₇ (((reached.trans looked.settles).trans looked'.settles).trans tended) cached ?_
        rw [same, recorded, replayed, counted, before]
        rfl
      · intro cause slot n t₅ looked gone' low _
        refine .throw (gone cause t₅ (reached.trans looked.settles) gone' ?_)
        have := pulls.lt peeked''.fine.lawful
        omega
    · intro reader through
      exact absurd through (Nat.not_le.mpr (found.lt_ending chain))
    · intro cause reader t₃ peeked'' gone' low
      exact .throw (gone cause t₃ (peeked.trans peeked'').tends gone' (Nat.lt_of_le_of_lt high low))
  · exact fun cause t₂ peeked' gone' low => gone cause t₂ (peeked.trans peeked').tends gone'
      (Nat.lt_of_le_of_lt high low)

/-- Whether the records are gone that the copy at a place needs next. -/
def Lagging (d : Deployment M) (t : Trace M R O) (place : Nat) : Bool :=
  (t.cache place).any fun copy => copy.revision.offset < d.oldest t

/-- What a reading that began at `t` has counted by `t'`, if the log was not cut off meanwhile. Without
a copy it has counted all records from where readers start on. -/
structure Caught (d : Deployment M) (me : Caller O) (t t' : Trace M R O) : Prop where
  recoveries : (t'.recorded me).truncationRecoveries =
    (t.recorded me).truncationRecoveries + if d.Lagging t me.place then 1 else 0
  fresh : t.cache me.place = none → ∃ offset position n earlier, t <+: earlier ∧ earlier <+: t' ∧
    d.RestartAt earlier offset ∧ ending 0 (d.log t) ≤ position ∧ Spans (d.log t') offset position n ∧
    t'.recorded me = (t.recorded me).count (.replayed n)

theorem resume_yields (trips : d.codec.RoundTrips) (place : Nat) (written : d.log t ≠ []) {slot : Replica.Cached M}
    {start : Revision} (here : start.segment = d.segment) (numbered : start.event ≤ start.offset)
    (aligned : d.Aligned t slot start.offset) (begins : slot = none → d.SnapshotAt (d.log t) start.offset)
    {ok : Unit → Trace M R O → Prop}
    (replayed : ∀ copy n t', d.Proceeded ρ me Deed.Tends t t' → t'.cache me.place = some copy →
      Spans (d.log t') start.offset copy.revision.offset n → ending 0 (d.log t) ≤ copy.revision.offset →
      d.oldest t ≤ start.offset → t'.recorded me = (t.recorded me).count (.replayed n) → ok () t')
    (recovered : ∀ copy (t₁ t' : Trace M R O), t <+: t₁ → t₁ <+: t' → d.Proceeded ρ me Deed.Tends t t' →
      t'.cache me.place = some copy → start.offset < d.oldest t₁ →
      (t'.recorded me).truncationRecoveries = (t.recorded me).truncationRecoveries + 1 → ok () t')
    (gone : ∀ cause t', d.Proceeded ρ me Deed.Tends t t' → cause.isTruncated = true → d.oldest t < d.oldest t' →
      err cause t') :
    d.Comes ρ me ok err ((d.replica place).resume slot start) t := by
  refine .bind (.lift (Attempt.Yields.run (replayFrom_yields trips place written here numbered aligned begins ?_ ?_)))
  · intro copy n t₁ tended cached spans through high counted
    exact .pure (replayed copy n t₁ tended cached spans through high counted)
  · intro cause n t₁ tended known low counted
    simp only [known, if_true]
    refine recover_yields trips place (log_ne_nil written tended.le) ?_ ?_
    · intro copy t₂ tended' cached recoveries
      refine recovered copy t₁ t₂ tended.le tended'.le (tended.trans tended') cached low ?_
      rw [recoveries, counted]
      rfl
    · intro cause t₂ tended' known' moved
      exact gone cause t₂ (tended.trans tended') known' (Nat.lt_of_le_of_lt tended.oldest_le moved)

theorem catchUp_yields (trips : d.codec.RoundTrips) (place : Nat) (written : d.log t ≠ [])
    (held : (World.after t).holders me.place .cache = some me.call) {ok : Unit → Trace M R O → Prop}
    (caught : ∀ copy t', d.Proceeded ρ me Deed.Tends t t' → t'.cache me.place = some copy →
      (d.oldest t' = d.oldest t → d.Caught me t t') → ok () t')
    (gone : ∀ cause t', d.Proceeded ρ me Deed.Tends t t' → cause.isTruncated = true → d.oldest t < d.oldest t' →
      err cause t') : d.Comes ρ me ok err (d.replica place).catchUp t := by
  rw [Replica.catchUp_eq]
  refine .bind (cached_yields fun t₁ peeked => ?_)
  have same : t₁.cache me.place = t.cache me.place := peeked.looks.went.cache_eq held
  have before : t₁.recorded me = t.recorded me := peeked.passed.recorded_eq fun _ => Deed.Peeks.tally?_eq
  cases cached : t.cache me.place with
  | some copy =>
    have placed := placed peeked.fine.lawful (same.trans cached)
    rw [same, cached]
    refine .bind (.pure (resume_yields trips place (log_ne_nil written peeked.le) placed.segment placed.numbered
      ⟨?_, ?_⟩ (fun none => by cases none) ?_ ?_ ?_))
    · rintro _ ⟨⟩
      exact ⟨placed, rfl⟩
    · exact fun none => by cases none
    · intro copy' n t₂ tended cached' _ _ high counted
      refine caught copy' t₂ (peeked.tends.trans tended) cached' fun _ =>
        ⟨?_, fun none => by rw [cached] at none; cases none⟩
      have caughtUp : d.Lagging t me.place = false := by
        have := Nat.le_trans peeked.oldest_le high
        simpa [Lagging, cached] using this
      rw [caughtUp, counted, before]
      rfl
    · intro copy' t₂ t₃ since by_ tended cached' low recoveries
      refine caught copy' t₃ (peeked.tends.trans tended) cached' fun still =>
        ⟨?_, fun none => by rw [cached] at none; cases none⟩
      have lagging : d.Lagging t me.place = true := by
        have low := Nat.lt_of_lt_of_le low (oldest_le tended.fine.lawful by_)
        rw [still] at low
        simpa [Lagging, cached] using low
      rw [lagging, recoveries, before]
      rfl
    · exact fun cause t₂ tended known moved =>
        gone cause t₂ (peeked.tends.trans tended) known (Nat.lt_of_le_of_lt peeked.oldest_le moved)
  | none =>
    rw [same, cached]
    refine .bind (freshStart_yields (log_ne_nil written peeked.le) trips place fun offset t₂ peeked' restarts => ?_)
    have peeked := peeked.trans peeked'
    have before : t₂.recorded me = t.recorded me := peeked.passed.recorded_eq fun _ => Deed.Peeks.tally?_eq
    have shape₂ := shape trips peeked.fine.lawful peeked.fine.clean
    have low := shape₂.oldest_le_of_restartAt restarts
    refine resume_yields trips place (log_ne_nil written peeked.le) rfl (Nat.zero_le _)
      ⟨fun _ none => (by cases none), ?_⟩ ?_ ?_ ?_ ?_
    · exact fun _ => ⟨t₂, List.prefix_refl _, restarts⟩
    · exact fun _ => shape₂.snapshotAt_of_restartAt peeked.fine.lawful (log_ne_nil written peeked.le) restarts
    · intro copy n t₃ tended cached' spans through _ counted
      have caughtUp : d.Lagging t me.place = false := by simp [Lagging, cached]
      refine caught copy t₃ (peeked.tends.trans tended) cached' fun _ => ⟨?_, fun _ => ?_⟩
      · rw [caughtUp, counted, before]
        rfl
      · refine ⟨offset, copy.revision.offset, n, t₂, peeked.le, tended.le, restarts, ?_, spans, by rw [counted, before]⟩
        exact Nat.le_trans (ending_mono peeked.fine.lawful peeked.le) through
    -- Without a copy it started at or after the oldest position, so that has moved if the start is gone.
    · intro copy t₃ t₄ since by_ tended cached' below _
      refine caught copy t₄ (peeked.tends.trans tended) cached' fun still => absurd still (Nat.ne_of_gt ?_)
      have below : offset < d.oldest t₃ := below
      exact Nat.lt_of_le_of_lt peeked.oldest_le
        (Nat.lt_of_lt_of_le (Nat.lt_of_le_of_lt low below) (oldest_le tended.fine.lawful by_))
    · exact fun cause t₃ tended known moved =>
        gone cause t₃ (peeked.tends.trans tended) known (Nat.lt_of_le_of_lt peeked.oldest_le moved)

namespace Caught

variable {t'' : Trace M R O}

theorem mono (caught : d.Caught me t t') (le : t' <+: t'') (same : t''.recorded me = t'.recorded me) :
    d.Caught me t t'' := by
  refine ⟨by rw [same, caught.recoveries], fun none => ?_⟩
  obtain ⟨offset, position, n, earlier, since, by_, restart, through, spans, counted⟩ := caught.fresh none
  exact ⟨offset, position, n, earlier, since, by_.trans le, restart, through, spans.mono (Trace.history_le _ le),
    by rw [same, counted]⟩

theorem of_locked (caught : d.Caught me (t ++ [⟨me, .acted (.touch .lockCache) ()⟩]) t') : d.Caught me t t' := by
  have cache : (t ++ [(⟨me, .acted (.touch .lockCache) ()⟩ : Event M R O)]).cache me.place = t.cache me.place := by
    rw [Trace.cache, World.memories_touched]
    rfl
  have log : d.log (t ++ [(⟨me, .acted (.touch .lockCache) ()⟩ : Event M R O)]) = d.log t := log_of_unlanded t rfl
  have oldest : d.oldest (t ++ [(⟨me, .acted (.touch .lockCache) ()⟩ : Event M R O)]) = d.oldest t := by
    rw [Deployment.oldest, Trace.oldest, Trace.buffer, World.after_concat]
    rfl
  have recorded : Trace.recorded me (t ++ [⟨me, .acted (.touch .lockCache) ()⟩]) = t.recorded me :=
    Trace.recorded_concat me t _
  obtain ⟨recoveries, fresh⟩ := caught
  rw [Lagging, cache, oldest, recorded] at recoveries
  rw [cache, log, recorded] at fresh
  refine ⟨recoveries, fun none => ?_⟩
  obtain ⟨offset, position, n, earlier, since, found⟩ := fresh none
  exact ⟨offset, position, n, earlier, (List.prefix_append _ _).trans since, found⟩

end Caught

theorem getRevisionedState_yields (trips : d.codec.RoundTrips) (place : Nat) (written : d.log t ≠ [])
    {ok : Revisioned M.State → Trace M R O → Prop}
    (got : ∀ copy past t', Idled me t past → past ++ [⟨me, .acted (.touch .lockCache) ()⟩] <+: t' →
      d.Undisturbed ρ me t' →
      (d.oldest t' = d.oldest past → d.Caught me past t') → ok copy t')
    (gone : ∀ cause t', t <+: t' → d.Undisturbed ρ me t' → cause.isTruncated = true → d.oldest t < d.oldest t' →
      err cause t') :
    d.Comes ρ me ok err (d.replica place).getRevisionedState t := by
  unfold Replica.getRevisionedState
  refine .locked fun past idled fine => ?_
  have held := World.holders_locked past me ()
  have since : t <+: past ++ [⟨me, .acted (.touch .lockCache) ()⟩] := idled.le.trans (List.prefix_append _ _)
  refine .bind (catchUp_yields trips place (log_ne_nil written since) held ?_ ?_)
  · intro copy t₂ tended cached caught
    refine .bind (cached_yields fun t₃ peeked => ?_)
    rw [peeked.looks.went.cache_eq (tended.went.holds held), cached]
    refine .pure fun left leaves fine' => got copy past _ idled ?_ fine' fun still => ?_
    · exact (tended.trans peeked.tends).le.trans (leaves.le.trans (List.prefix_append _ _))
    · have later : t₂ <+: left ++ [⟨me, .acted (.touch .unlockCache) ()⟩] :=
        peeked.le.trans (leaves.le.trans (List.prefix_append _ _))
      have between : d.oldest t₂ = d.oldest (past ++ [(⟨me, .acted (.touch .lockCache) ()⟩ : Event M R O)]) := by
        have low := oldest_le fine.lawful (List.prefix_append past [⟨me, .acted (.touch .lockCache) ()⟩])
        exact Nat.le_antisymm (Nat.le_trans (oldest_le fine'.lawful later) (still ▸ low)) tended.oldest_le
      refine (caught between).of_locked.mono later ?_
      rw [Trace.recorded_concat, leaves.recorded_eq fun _ => False.elim,
        peeked.passed.recorded_eq fun _ => Deed.Peeks.tally?_eq]
      rfl
  · intro cause t₂ tended known moved left leaves fine'
    have later : t₂ <+: left ++ [⟨me, .acted (.touch .unlockCache) ()⟩] := leaves.le.trans (List.prefix_append _ _)
    refine gone cause _ (since.trans (tended.le.trans later)) fine' known ?_
    exact Nat.lt_of_le_of_lt (oldest_le fine.lawful since) (Nat.lt_of_lt_of_le moved (oldest_le fine'.lawful later))

end Deployment

end LogReplica
