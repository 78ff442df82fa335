import LogReplica.Proofs.Replica.Blame

namespace LogReplica

variable {M : Model} {R O : Type}

def Reader.filled {T : Type} (r : Reader T) (entries : List Entry) : Reader T :=
  let buffer := entries.takeWhile fun entry => entry.offset < r.endOffset
  let nextOffset :=
    match buffer.getLast? with
    | some last => last.endOffset
    | none => r.nextOffset
  { r with buffer := buffer, nextOffset := nextOffset }

theorem Reader.filled_eq {T : Type} (r : Reader T) {entries rest : List Entry} {first : Entry} (position : Nat)
    (taken : entries.takeWhile (fun e => e.offset < r.endOffset) = first :: rest) :
    r.filled entries = { r with buffer := first :: rest, nextOffset := ending position (first :: rest) } := by
  have last : (first :: rest).getLast? = some ((first :: rest).getLast (List.cons_ne_nil first rest)) :=
    List.getLast?_eq_some_getLast _
  simp only [Reader.filled, taken, last, ending_eq_of_getLast? position last]

theorem Revision.eq_succ_of_nextEvent? {event next : Nat} (counted : Revision.nextEvent? event = some next) :
    next = event + 1 := by
  unfold Revision.nextEvent? at counted
  split at counted <;> simp_all

namespace Deployment

variable {d : Deployment M} {ρ : Conduct M R O} {me : Caller O} {t t' past : Trace M R O}

theorem RestartAt.anchored {offset : Nat} (lawful : Lawful (d.law ρ) t) (restart : d.RestartAt t offset) :
    d.Anchored t offset := by
  rcases restart with marked | rfl
  · exact .inr ⟨t, List.prefix_refl _, marked⟩
  · obtain ⟨dropped, kept, split, start, _⟩ := (lawful.logs d.segment).kept
    exact .inl ⟨dropped, ⟨kept, split.symm⟩, start.symm⟩

theorem Anchored.mono {offset : Nat} (anchored : d.Anchored t offset) (le : t <+: t') : d.Anchored t' offset := by
  rcases anchored with ⟨before, front, ends⟩ | ⟨earlier, early, marked⟩
  · exact .inl ⟨before, front.trans (Trace.history_le _ le), ends⟩
  · exact .inr ⟨earlier, early.trans le, marked⟩

theorem checkSegment_safe {crash : Trace M R O → Prop} {ok : Unit → Trace M R O → Prop}
    {err : CoreError → Trace M R O → Prop} (place : Nat) {revision : Revision} (here : revision.segment = d.segment)
    (checked : ok () t) : Attempt.Safe (d.law ρ) me crash ok err ((d.client place).checkSegment revision) t := by
  have here : revision.segment = (d.client place).segment := here
  rw [Client.checkSegment, if_pos here]
  exact .pure checked

section Starting

variable {crash : Trace M R O → Prop} {err : CoreError → Trace M R O → Prop} (fails : d.Fails ρ me err t)

include fails

theorem freshStart_safe (place : Nat) {ok : Revision → Trace M R O → Prop}
    (found : ∀ offset t', Went (d.law ρ) me Deed.Looks t t' → d.RestartAt t' offset → ok ⟨d.segment, offset, 0⟩ t') :
    Attempt.Safe (d.law ρ) me crash ok err (d.replica place).freshStart t := by
  unfold Replica.freshStart
  refine .bind (getMark_safe fails place ?_ ?_)
  · intro t₁ went _
    refine fetchOldest_safe (fails.after went) place ?_
    intro t₂ went'
    exact found _ t₂ (went.trans went') (.inr rfl)
  · intro offset t₁ went marked
    exact .pure (found offset t₁ went (.inl marked))

theorem readFrom_safe (place : Nat) {start : Revision} (here : start.segment = d.segment)
    {ok : Reader M.Record → Trace M R O → Prop}
    (opened : ∀ t', Went (d.law ρ) me Deed.Looks t t' → d.oldest t ≤ start.offset →
      ok { client := d.client place, nextOffset := start.offset, endOffset := ending 0 (d.log t'),
           ordinal := start.event } t')
    (truncated : ∀ t', Went (d.law ρ) me Deed.Looks t t' → start.offset < d.oldest t' →
      err (.dataTruncated d.segment start.offset (d.oldest t')) t') :
    Attempt.Safe (d.law ρ) me crash ok err ((d.client place).readFrom start) t := by
  unfold Client.readFrom
  refine .bind (ensureOpen_safe fails fun t₁ checked _ => .bind (checkSegment_safe place here ?_))
  refine .bind (oldestOffset_safe (fails.after checked) ?_)
  rintro _ t₂ went rfl
  have went := checked.trans went
  split
  · rename_i low
    exact .throw (truncated t₂ went low)
  · rename_i high
    refine .bind (tailOffset_safe (fails.after went) ?_)
    rintro _ t₃ went' rfl
    refine .pure (opened t₃ (went.trans went') ?_)
    exact Nat.le_trans (oldest_le went.lawful went.le) (Nat.le_of_not_lt high)

end Starting

/-- A reader whose next record begins at `position`: what it has fetched is a stretch of the log. -/
structure Reads (d : Deployment M) (place : Nat) (t : Trace M R O) (r : Reader M.Record) (position : Nat) : Prop where
  client : r.client = d.client place
  going : r.finished = false
  numbered : r.ordinal ≤ position
  next : r.nextOffset = ending position r.buffer
  stretch : r.buffer = [] ∨ ∃ before, before ++ r.buffer <+: d.log t ∧ ending 0 before = position
  inside : ∃ past, past <+: t ∧ r.endOffset = ending 0 (d.log past)

theorem Reads.mono {place position : Nat} {r : Reader M.Record} (reads : d.Reads place t r position) (le : t <+: t') :
    d.Reads place t' r position := by
  refine ⟨reads.client, reads.going, reads.numbered, reads.next, ?_, ?_⟩
  · exact reads.stretch.imp_right fun ⟨before, front, ends⟩ => ⟨before, front.trans (Trace.history_le _ le), ends⟩
  · obtain ⟨past, early, same⟩ := reads.inside
    exact ⟨past, early.trans le, same⟩

/-- An error that stems from a truncation past `position`, for all that the call has heard since `start`. -/
def Behind (d : Deployment M) (me : Caller O) (start : Trace M R O) (position : Nat) (t : Trace M R O)
    (cause : CoreError) : Prop := cause.isTruncated = true → Trace.CandidSince me start t → position < d.oldest t

namespace Behind

variable {start : Trace M R O} {position : Nat} {cause : CoreError}

theorem of_untruncated (other : cause.Untruncated me start t) : d.Behind me start position t cause :=
  fun truncated candid => absurd candid (other truncated)

theorem mono (behind : d.Behind me start position t cause) (lawful : Lawful (d.law ρ) t') (le : t <+: t') :
    d.Behind me start position t' cause := by
  intro truncated candid
  exact Nat.lt_of_lt_of_le (behind truncated (candid.of_le le)) (oldest_le lawful le)

theorem since (behind : d.Behind me past position t cause) (le : start <+: past) :
    d.Behind me start position t cause := fun truncated candid => behind truncated (candid.after le)

end Behind

theorem takeWhile_entries {position limit : Nat} {entries : List Entry} (chain : Contiguous position entries)
    (nonempty : entries ≠ []) (ahead : position < limit) :
    ∃ first rest, entries.takeWhile (fun e => e.offset < limit) = first :: rest ∧
      rest.length + 1 + (limit - ending position (first :: rest)) ≤ limit - position := by
  obtain ⟨first, others, rfl⟩ := List.exists_cons_of_ne_nil nonempty
  have begins : first.offset < limit := chain.1 ▸ ahead
  refine ⟨first, others.takeWhile fun e => e.offset < limit, by simp [begins], ?_⟩
  generalize taken : others.takeWhile (fun e => decide (e.offset < limit)) = rest
  have front : first :: rest <+: first :: others :=
    List.cons_prefix_cons.mpr ⟨rfl, taken ▸ List.takeWhile_prefix _⟩
  have low : ∀ e ∈ first :: rest, e.offset < limit := by
    intro e member
    rcases List.mem_cons.mp member with rfl | member
    · exact begins
    · rw [← taken] at member
      exact of_decide_eq_true (List.all_eq_true.mp List.all_takeWhile e member)
  obtain ⟨init, last, same⟩ : ∃ init last, first :: rest = init ++ [last] :=
    ⟨_, _, (List.dropLast_concat_getLast (List.cons_ne_nil first rest)).symm⟩
  have chain := chain.of_le front
  have count : rest.length + 1 = init.length + 1 := by simpa using congrArg List.length same
  rw [same] at chain low ⊢
  have spread := chain.length_le
  have reach := chain.left.length_le
  have below := low last (by simp)
  rw [chain.offset_eq] at below
  rw [List.length_append, List.length_singleton] at spread
  omega

structure Fills (d : Deployment M) (place : Nat) (t : Trace M R O) (r r' : Reader M.Record) (position : Nat) :
    Prop where
  filled : r'.buffer ≠ []
  reads : d.Reads place t r' position
  limit : r'.endOffset = r.endOffset
  ordinal : r'.ordinal = r.ordinal
  shorter : r'.bound ≤ r.bound

theorem Fills.mono {place position : Nat} {r r' : Reader M.Record} (fills : d.Fills place t r r' position)
    (le : t <+: t') :
    d.Fills place t' r r' position := ⟨fills.filled, fills.reads.mono le, fills.limit, fills.ordinal, fills.shorter⟩

theorem Reads.fills {place position budget : Nat} {r : Reader M.Record} (lawful : Lawful (d.law ρ) t)
    (reads : d.Reads place t r position) (empty : r.buffer = []) (ahead : r.nextOffset < r.endOffset)
    {entries : List Entry} (reply : (Store.serve d.segment (.readAt position budget) (World.after t).store).1 =
      .ok entries) :
    d.Fills place t r (r.filled entries) position := by
  obtain ⟨front, after, split, ends, nonempty⟩ := (lawful.logs d.segment).readAt reply
  obtain ⟨early, bounded, same⟩ := reads.inside
  have start : r.nextOffset = position := by rw [reads.next, empty, ending_nil]
  have inside : position < ending 0 (d.log t) := by
    have := ending_mono lawful bounded
    omega
  have chain : Contiguous position entries := by
    have whole := log_chain lawful
    rw [Deployment.log, split] at whole
    exact ends ▸ whole.left.right
  obtain ⟨e, rest, taken, bound⟩ := takeWhile_entries chain (nonempty (Nat.ne_of_lt inside)) (start ▸ ahead)
  have reached : e :: rest <+: entries := taken ▸ List.takeWhile_prefix _
  rw [r.filled_eq position taken]
  refine ⟨List.cons_ne_nil _ _, ⟨reads.client, reads.going, reads.numbered, rfl, .inr ⟨front, ?_, ends⟩, early, bounded,
    same⟩,
    rfl, rfl, ?_⟩
  · rw [Deployment.log, split, List.append_assoc]
    exact (List.prefix_append_right_inj front).mpr (reached.trans (List.prefix_append _ _))
  · simp only [Reader.bound, empty, List.length_nil, List.length_cons, start]
    omega

theorem refill_safe {crash : Trace M R O → Prop} {place position : Nat} {r : Reader M.Record}
    (reads : d.Reads place t r position) (anchored : d.Anchored t position) (empty : r.buffer = [])
    (ahead : r.nextOffset < r.endOffset) {ok : Reader M.Record → Trace M R O → Prop}
    {err : CoreError → Trace M R O → Prop}
    (filled : ∀ r' t', Went (d.law ρ) me Deed.Looks t t' → d.Fills place t' r r' position → ok r' t')
    (fails : ∀ cause t', Went (d.law ρ) me Deed.Looks t t' → d.Blame ρ me t t' cause → d.Behind me t position t' cause →
      err cause t') :
    Attempt.Safe (d.law ρ) me crash ok err r.refill t := by
  have here : r.client.segment = d.segment := by rw [reads.client]; rfl
  have start : r.nextOffset = position := by rw [reads.next, empty, ending_nil]
  unfold Reader.refill
  rw [here, start]
  refine .bind (.ask (fun _ _ => law_of_passive trivial) ?_ ?_)
  · intro entries past waited lawful
    obtain ⟨before, fits, _⟩ := lawful.of_concat
    have looks : (Deed.acted (.ask d.segment (.readAt position r.client.readBuffer)) (.ok entries) : Deed M R).Looks :=
      trivial
    have fills := (reads.mono waited.le).fills before empty ahead fits.symm
    have goes := filled _ _ (waited.step looks lawful) (fills.mono (List.prefix_append _ _))
    rw [Reader.filled, start] at goes
    exact .pure goes
  · intro cause deed past waited outcome lawful
    have le : past <+: past ++ [⟨me, deed⟩] := List.prefix_append _ _
    rcases refused_or_failed outcome lawful with rfl | ⟨rfl, refusal⟩
    · have happened : (⟨me, .failed d.segment (.readAt position r.client.readBuffer) cause⟩ : Event M R O) ∈
          past ++ [⟨me, .failed d.segment (.readAt position r.client.readBuffer) cause⟩] := by simp
      exact fails _ _ (waited.step trivial lawful) (.failed _ cause happened)
        (.of_untruncated (.of_failed waited.le))
    · have looks : (Deed.acted (.ask d.segment (.readAt position r.client.readBuffer))
        (.error cause) : Deed M R).Looks :=
        trivial
      have went := waited.step looks lawful
      cases refusal with
      | absent _ none => exact fails _ _ went (.absent past waited.le le none) nofun
      | truncated _ _ low =>
        refine fails _ _ went (.truncated position _ past waited.le le rfl low) ?_
        intro _ _
        exact Nat.lt_of_lt_of_le low (oldest_le lawful le)
      | unreadable _ _ tail apart =>
        rcases anchored with ⟨before, front, ends⟩ | ⟨earlier, early, marked⟩
        · exact absurd ends (apart before (front.trans (Trace.history_le _ waited.le)))
        · exact fails _ _ went (.misplaced position tail earlier past (early.trans waited.le) le marked apart) nofun

/-- A reader at `position` gives the record of the entry `e` and becomes `r'`. -/
structure Pulls (d : Deployment M) (place : Nat) (t : Trace M R O) (r r' : Reader M.Record) (position : Nat) (e : Entry)
    (record : M.Record) (ordinal : Nat) : Prop where
  entry : ∃ before, before ++ [e] <+: d.log t ∧ ending 0 before = position
  decoded : d.codec.decode e.data = .ok record
  counted : Revision.nextEvent? r.ordinal = some ordinal
  ordinal : r'.ordinal = ordinal
  limit : r'.endOffset = r.endOffset
  shorter : r'.bound < r.bound
  reads : d.Reads place t r' e.endOffset

theorem Pulls.lt {place position ordinal : Nat} {r r' : Reader M.Record} {e : Entry} {record : M.Record}
    (pulls : d.Pulls place t r r' position e record ordinal) (lawful : Lawful (d.law ρ) t) :
    position < e.endOffset := by
  obtain ⟨before, front, rfl⟩ := pulls.entry
  have ends := ((log_chain lawful).of_le front).endOffset_eq
  rw [ends]
  simp only [Framed.headerSize]
  omega

theorem Pulls.numbered {place position ordinal : Nat} {r r' : Reader M.Record} {e : Entry} {record : M.Record}
    (pulls : d.Pulls place t r r' position e record ordinal) : ordinal ≤ e.endOffset :=
  pulls.ordinal ▸ pulls.reads.numbered

theorem Pulls.of_fills {place position ordinal : Nat} {r r₁ r' : Reader M.Record} {e : Entry} {record : M.Record}
    (pulls : d.Pulls place t r₁ r' position e record ordinal) (fills : d.Fills place t r r₁ position) :
    d.Pulls place t r r' position e record ordinal :=
  ⟨pulls.entry, pulls.decoded, fills.ordinal ▸ pulls.counted, pulls.ordinal, pulls.limit.trans fills.limit,
    Nat.lt_of_lt_of_le pulls.shorter fills.shorter, pulls.reads⟩

theorem pop_of_reads {place position : Nat} {r : Reader M.Record} {e : Entry} {rest : List Entry}
    (chain : Contiguous 0 (d.log t)) (reads : d.Reads place t r position) (filled : r.buffer = e :: rest) :
    (∃ record ordinal r', r.pop = (.record ⟨d.segment, e.endOffset, ordinal⟩ record, r') ∧
      d.Pulls place t r r' position e record ordinal) ∨
    (∃ cause r', r.pop = (.failed (.encoding cause), r') ∧ d.codec.decode e.data = .error cause ∧ e ∈ d.log t) ∨
    ∃ r', r.pop = (.uncounted, r') ∧ Revision.nextEvent? r.ordinal = none := by
  obtain ⟨before, front, ends⟩ := reads.stretch.resolve_left (by rw [filled]; exact List.cons_ne_nil _ _)
  rw [filled] at front
  have codec : r.client.codec = d.codec := by rw [reads.client]; rfl
  have segment : r.client.segment = d.segment := by rw [reads.client]; rfl
  simp only [Reader.pop, filled, codec, segment]
  cases decoded : d.codec.decode e.data with
  | error cause => exact .inr (.inl ⟨cause, _, rfl, rfl, front.subset (by simp)⟩)
  | ok record =>
    cases counted : Revision.nextEvent? r.ordinal with
    | none => exact .inr (.inr ⟨_, rfl, rfl⟩)
    | some ordinal =>
      have first : before ++ [e] <+: d.log t := by
        refine .trans ?_ front
        exact (List.prefix_append_right_inj before).mpr (List.cons_prefix_cons.mpr ⟨rfl, List.nil_prefix⟩)
      have numbered : ordinal ≤ e.endOffset := by
        have ends' := (chain.of_le first).endOffset_eq
        have low := reads.numbered
        have next := Revision.eq_succ_of_nextEvent? counted
        simp only [Framed.headerSize] at ends'
        omega
      refine .inl ⟨record, ordinal, _, rfl, ⟨before, first, ends⟩, decoded, counted, rfl, rfl, ?_, ?_⟩
      · simp only [Reader.bound, filled, List.length_cons]
        omega
      · refine ⟨reads.client, reads.going, numbered, ?_, ?_, reads.inside⟩
        · rw [reads.next, filled, ending_cons]
        · refine .inr ⟨before ++ [e], by simpa using front, ?_⟩
          simp

theorem next_safe {crash : Trace M R O → Prop} {place position : Nat} {r : Reader M.Record}
    (lawful : Lawful (d.law ρ) t) (reads : d.Reads place t r position) (anchored : d.Anchored t position)
    {post : Reader.Pulled M.Record × Reader M.Record → Trace M R O → Prop}
    (pulled : ∀ e record ordinal r' t', Went (d.law ρ) me Deed.Looks t t' →
      d.Pulls place t' r r' position e record ordinal → post (.record ⟨d.segment, e.endOffset, ordinal⟩ record, r') t')
    (finished : ∀ r' t', Went (d.law ρ) me Deed.Looks t t' → r.endOffset ≤ position → post (.finished, r') t')
    (failed : ∀ cause r' t', Went (d.law ρ) me Deed.Looks t t' → d.Blame ρ me t t' cause →
      d.Behind me t position t' cause → post (.failed cause, r') t')
    (uncounted : ∀ r' t', Went (d.law ρ) me Deed.Looks t t' → post (.uncounted, r') t') :
    (r.next : Procedure M R _).Safe (d.law ρ) me crash post t := by
  unfold Reader.next
  simp only [reads.going, Bool.false_eq_true, if_false]
  cases filled : r.buffer with
  | cons e rest =>
    have stays : Went (d.law ρ) me Deed.Looks t t := Went.refl lawful
    simp only [List.isEmpty_cons, Bool.not_false, if_true]
    rcases pop_of_reads (log_chain lawful) reads filled with
      ⟨record, ordinal, r', same, pulls⟩ | ⟨cause, r', same, undecoded, member⟩ | ⟨r', same, _⟩
    · rw [same]
      exact pulled e record ordinal r' t stays pulls
    · rw [same]
      exact failed _ r' t stays (.undecodable e member cause undecoded) nofun
    · rw [same]
      exact uncounted r' t stays
  | nil =>
    simp only [List.isEmpty_nil, Bool.not_true, Bool.false_eq_true, if_false]
    have start : r.nextOffset = position := by rw [reads.next, filled, ending_nil]
    split
    · rename_i done
      exact finished _ t (Went.refl lawful) (start ▸ done)
    · rename_i ahead
      refine Procedure.Safe.bind (Attempt.Safe.run (refill_safe reads anchored filled (Nat.lt_of_not_le ahead) ?_ ?_))
      · intro r₁ t' went fills
        show post r₁.pop t'
        obtain ⟨e, rest, full⟩ := List.exists_cons_of_ne_nil fills.filled
        rcases pop_of_reads (log_chain went.lawful) fills.reads full with
          ⟨record, ordinal, r', same, pulls⟩ | ⟨cause, r', same, undecoded, member⟩ | ⟨r', same, _⟩
        · rw [same]
          exact pulled e record ordinal r' t' went (pulls.of_fills fills)
        · rw [same]
          exact failed _ r' t' went (.undecodable e member cause undecoded) nofun
        · rw [same]
          exact uncounted r' t' went
      · intro cause t' went blame behind
        exact failed cause _ t' went blame behind

end Deployment

end LogReplica
