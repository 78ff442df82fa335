import LogReplica.Proofs.Replica.Fetching
import LogReplica.Proofs.Replica.Landing
import LogReplica.Proofs.Replica.Reckoning

namespace LogReplica

variable {M : Model} {R O : Type}

theorem Trace.step_cases {t past past' : Trace M R O} {e e' : Event M R O} (le : past ++ [e] <+: t)
    (le' : past' ++ [e'] <+: t) : (past = past' ∧ e = e') ∨ past ++ [e] <+: past' ∨ past' ++ [e'] <+: past := by
  have same : past ++ [e] = past' ++ [e'] → past = past' ∧ e = e' := fun same =>
    (List.append_inj' same rfl).imp_right List.singleton_inj.mp
  rcases List.prefix_or_prefix_of_prefix le le' with first | second
  · rcases List.prefix_concat_iff.mp first with equal | short
    · exact .inl (same equal)
    · exact .inr (.inl short)
  · rcases List.prefix_concat_iff.mp second with equal | short
    · exact .inl (same equal.symm)
    · exact .inr (.inr short)

theorem Went.entered_of_unlocked {law : Law M R O} {me other : Caller O} {before entered t : Trace M R O}
    (went : Went law me Deed.Tends entered t) (held : (World.after entered).holders me.place .cache = some me.call)
    (place : other.place = me.place) (le : before ++ [⟨other, .acted (.touch .unlockCache) ()⟩] <+: t) :
    before ++ [⟨other, .acted (.touch .unlockCache) ()⟩] <+: entered := by
  rcases List.prefix_or_prefix_of_prefix le went.le with since | early
  · exact since
  · have taken := (went.between early le).holds held
    rw [← place, World.holders_unlocked] at taken
    cases taken

namespace Deployment

variable {d : Deployment M}

section Landed

variable {ρ : Conduct M R O} {t past past' : Trace M R O} {e e' : Event M R O} {entry entry' : Entry}

theorem Landed.landed? {me : Caller O} {record : M.Record} (landed : d.Landed ρ me record entry past t) :
    ∃ e, e.caller = me ∧ t = past ++ [e] ∧ e.landed? d.segment = some entry :=
  ⟨_, rfl, landed.did.last, by simp [Event.landed?]⟩

theorem bounds_of_landed (lawful : Lawful (d.law ρ) (past ++ [e])) (landed : e.landed? d.segment = some entry) :
    entry.offset = ending 0 (d.log past) ∧ entry.offset < entry.endOffset ∧
      ending 0 (d.log (past ++ [e])) = entry.endOffset := by
  have chain := log_chain lawful
  rw [log_of_landed past landed] at chain ⊢
  have ends := chain.endOffset_eq
  have begins := chain.offset_eq
  rw [Framed.headerSize] at ends
  exact ⟨begins, by omega, by simp⟩

theorem unmoved_of_landed (lawful : Lawful (d.law ρ) (past ++ [e])) (landed : e.landed? d.segment = some entry) :
    d.mark (past ++ [e]) = d.mark past ∧ d.oldest (past ++ [e]) = d.oldest past := by
  obtain ⟨_, deed, _⟩ := lawful.append_of_landed landed
  refine lawful.unmoved_of_steady d.segment ?_
  rw [deed]
  trivial

theorem endOffset_le_of_landed (lawful : Lawful (d.law ρ) (past' ++ [e'])) (le : past ++ [e] <+: past')
    (landed : e.landed? d.segment = some entry) (landed' : e'.landed? d.segment = some entry') :
    entry.endOffset ≤ entry'.offset := by
  have early := lawful.of_le (List.prefix_append past' [e'])
  rw [(bounds_of_landed lawful landed').1, ← (bounds_of_landed (early.of_le le) landed).2.2]
  exact ending_mono early le

theorem landed_once (lawful : Lawful (d.law ρ) t) (le : past ++ [e] <+: t) (le' : past' ++ [e'] <+: t)
    (landed : e.landed? d.segment = some entry) (landed' : e'.landed? d.segment = some entry')
    (same : entry.offset = entry'.offset) : past = past' ∧ e = e' := by
  have forward := (bounds_of_landed (lawful.of_le le) landed).2.1
  have forward' := (bounds_of_landed (lawful.of_le le') landed').2.1
  rcases Trace.step_cases le le' with equal | first | second
  · exact equal
  · have further := endOffset_le_of_landed (lawful.of_le le') first landed landed'
    omega
  · have further := endOffset_le_of_landed (lawful.of_le le) second landed' landed
    omega

end Landed

variable {s : System M R (Operation M) (Result M R)} {past later seen : Trace M R (Operation M)}
  {e : Event M R (Operation M)} {entry : Entry} {copy held : Revisioned M.State}

variable (d) in
/-- A replay of the records `span`, from a copy at the end of `front`, comes to `held`, and so does an instance that
has this copy and looks at the log alone. -/
structure Replays (R : Type) (front span : List Entry) (copy held : Revisioned M.State) : Prop where
  resumed : d.resume (some copy) copy.revision.event span = .ok (some held)
  revision : held.revision = ⟨d.segment, ending 0 (front ++ span), copy.revision.event + span.length⟩
  fetched : ∀ (generate : M.State → List M.Update × R) (summarize : M.State → M.Snapshot) (place : Nat)
    (solo : Solo Store M.State), solo.service.Logs d.segment (front ++ span) →
      (solo.service.get? d.segment).isSome = true → (solo.service.buffer d.segment).start ≤ copy.revision.offset →
      solo.memory.closed = false → solo.memory.cache = some copy → held.revision.event < Revision.eventLimit →
      Solo.play generate summarize ((d.replica place).catchUp : Attempt M R Unit).run solo =
        (some (.ok ()), solo.fetched held span.length)

theorem replays_of_resume {front span : List Entry}
    (known : copy.revision = ⟨d.segment, ending 0 front, copy.revision.event⟩)
    (resumed : d.resume (some copy) copy.revision.event span = .ok (some held)) : d.Replays R front span copy held := by
  have aligned : ∀ old, some copy = some old → old.revision = ⟨d.segment, ending 0 front, copy.revision.event⟩ := by
    rintro _ ⟨⟩
    exact known
  have reached := revision_of_resume resumed aligned
  refine ⟨resumed, by rw [reached, ending_append], ?_⟩
  intro generate summarize place solo logs present start opened cached counted
  rw [known] at start
  rw [reached] at counted
  have starts : d.Starts solo ⟨d.segment, ending 0 front, copy.revision.event⟩ := by
    refine ⟨fun old here => aligned old (cached.symm.trans here), fun none => ?_⟩
    rw [none] at cached
    cases cached
  have foresees : d.Foresees solo (front ++ span) span held :=
    ⟨logs, present, opened, front, _, rfl, start, starts, by rwa [cached], counted⟩
  exact foresees.play_catchUp place generate summarize

variable (d) in
/-- What a cache has is what a replay makes of the copy that a record was written on top of, and if it is past the
record, that is the first one to be replayed. -/
def Agrees (R : Type) (past later : Trace M R (Operation M)) (entry : Entry) (copy held : Revisioned M.State) : Prop :=
  ∃ span, d.log past ++ span <+: d.log later ∧ (entry.endOffset ≤ held.revision.offset → [entry] <+: span) ∧
    d.Replays R (d.log past) span copy held

variable (d) in
/-- Nothing keeps a cache from following the log: no request of a call there has failed with a word about positions,
and the log has not been cut off behind the copy. -/
structure Unsevered (place : Nat) (seen later : Trace M R (Operation M)) : Prop where
  candid : ∀ (past : Trace M R (Operation M)) caller segment request cause, seen <+: past →
    past ++ [⟨caller, .failed segment request cause⟩] <+: later → caller.place = place → ¬cause.Locates
  retained : ∀ (past : Trace M R (Operation M)) copy, seen <+: past → past <+: later → past.cache place = some copy →
    d.oldest past ≤ copy.revision.offset

variable (d) in
/-- Once a cache has the record, no call there has begun the log anew, from where it would count anew. -/
def Continued (place : Nat) (entry : Entry) (seen later : Trace M R (Operation M)) : Prop :=
  ∀ (past : Trace M R (Operation M)) e copy, seen <+: past → past ++ [e] <+: later → e.caller.place = place →
    past.cache place = some copy → entry.endOffset ≤ copy.revision.offset → e.caller.operation.Founds →
      e.landed? d.segment = none

variable (d) in
/-- The cache at a place has been what a replay makes of `copy` ever since `seen`. -/
def Tracks (place : Nat) (copy : Revisioned M.State) (seen t : Trace M R (Operation M)) : Prop :=
  ∀ past, seen <+: past → past <+: t → ∃ held, Trace.cache past place = some held ∧
    d.Passes past (some copy) copy.revision (some held)

/-- A record that has been written on top of `copy`, with what has happened since until `later`. -/
structure Awaits (d : Deployment M) (s : System M R (Operation M) (Result M R)) (past : Trace M R (Operation M))
    (e : Event M R (Operation M)) (entry : Entry) (copy : Revisioned M.State)
    (seen later : Trace M R (Operation M)) : Prop where
  le : past ++ [e] <+: s.trace
  landed : e.landed? d.segment = some entry
  follows : ¬e.caller.operation.Founds
  drafts : Drafts e.caller copy seen past
  begins : entry.offset = copy.revision.offset
  by_ : later <+: s.trace
  unsevered : d.Unsevered e.caller.place seen later
  continued : d.Continued e.caller.place entry seen later

namespace Awaits

variable (reachable : d.Reachable R s) (awaits : d.Awaits s past e entry copy seen later)
  {t : Trace M R (Operation M)} (upTo : t <+: later)

include reachable awaits upTo

theorem not_founded {me : Caller (Operation M)} {record : M.Record} {entry' : Entry}
    {before after : Trace M R (Operation M)} (tracks : d.Tracks e.caller.place copy seen t)
    (here : me.place = e.caller.place) (founds : me.operation.Founds)
    (began : ∃ earlier, earlier <+: before ∧ d.oldest earlier = entry'.offset)
    (landed' : d.Landed (conduct M R) me record entry' before after)
    (taken : (World.after after).holders me.place .cache = some me.call)
    (looked : Went (d.law (conduct M R)) me Deed.Looks after t) (le : seen <+: t) : False := by
  have lawful := looked.lawful
  obtain ⟨prior, rfl⟩ := awaits.drafts.left
  obtain ⟨e', mine, rfl, lands⟩ := landed'.landed?
  have entered := looked.tends.entered_of_unlocked taken here.symm le
  -- The lock was free when the copy was taken, so the record that began the log has landed after that.
  have since : prior ++ [⟨e.caller, .acted (.touch .unlockCache) ()⟩] <+: before := by
    refine (List.prefix_concat_iff.mp entered).resolve_left fun same => ?_
    obtain ⟨_, equal⟩ := List.append_inj' same rfl
    rw [← List.singleton_inj.mp equal] at lands
    cases lands
  have early := (List.prefix_append before [e']).trans looked.le
  obtain ⟨held, cached, passes⟩ := tracks before since early
  have lawful' := lawful.of_le early
  have chain := log_chain lawful'
  obtain ⟨earlier, first, oldest⟩ := began
  have bounds := bounds_of_landed (lawful.of_le looked.le) lands
  have whole : held.revision.offset = entry'.offset := by
    refine Nat.le_antisymm ?_ ?_
    · rw [bounds.1]
      exact (placed lawful' cached).offset_le chain
    · rw [← oldest]
      exact Nat.le_trans (oldest_le lawful' first)
        (awaits.unsevered.retained before held since (early.trans upTo) cached)
  have onward : copy.revision.offset ≤ held.revision.offset := by
    rcases passes.eq_or_lt chain with same | ⟨_, ⟨⟩, further⟩
    · cases same
      exact Nat.le_refl _
    · exact Nat.le_of_lt further
  have lawfulS := (secure_of_reachable reachable).lawful
  have le' := (looked.le.trans upTo).trans awaits.by_
  rcases Trace.step_cases awaits.le le' with ⟨_, rfl⟩ | first | second
  · exact awaits.follows (mine ▸ founds)
  · have further := endOffset_le_of_landed (lawfulS.of_le le') first awaits.landed lands
    have none := awaits.continued before e' held since (looked.le.trans upTo) (mine ▸ here) cached
      (whole ▸ further) (mine ▸ founds)
    rw [none] at lands
    cases lands
  · have further := endOffset_le_of_landed (lawfulS.of_le awaits.le) second lands awaits.landed
    have begins := awaits.begins
    omega

theorem drafted_eq {me : Caller (Operation M)} {record : M.Record} {entry' : Entry} {copy' : Revisioned M.State}
    {seen' before after : Trace M R (Operation M)} (tracks : d.Tracks e.caller.place copy seen t)
    (here : me.place = e.caller.place) (drafts : Drafts me copy' seen' before)
    (landed' : d.Landed (conduct M R) me record entry' before after) (le : after <+: t)
    (begins : entry'.offset = copy'.revision.offset) (since : seen <+: t) (cached : t.cache e.caller.place = some held)
    (same : held.revision.offset = copy'.revision.offset) : held = copy' := by
  have lawfulS := (secure_of_reachable reachable).lawful
  have lawful := lawfulS.of_le (upTo.trans awaits.by_)
  have chain := log_chain lawful
  obtain ⟨_, cached', passes⟩ := tracks t since (List.prefix_refl t)
  obtain rfl := Option.some.inj (cached.symm.trans cached')
  have known : ∀ old, some copy = some old → old.revision = copy.revision := by
    rintro _ ⟨⟩
    rfl
  have early : seen' <+: t := drafts.passed.le.trans (landed'.did.le.trans le)
  rcases List.prefix_or_prefix_of_prefix since early with after' | before'
  · obtain ⟨_, there, passes'⟩ := tracks seen' after' early
    rw [← here, drafts.cached] at there
    cases there
    exact passes.unique chain known (passes'.mono early) same
  · -- An older copy at the same place is that of the same write.
    obtain ⟨_, there, older⟩ :=
      noOlder (lawful.of_le since) before' me.place copy' drafts.cached
    rw [here, awaits.drafts.cached] at there
    cases there
    obtain ⟨e', mine, rfl, lands⟩ := landed'.landed?
    have further := passes.eq_or_lt chain
    have equal : copy.revision.offset = copy'.revision.offset := by
      rcases further with here' | ⟨_, ⟨⟩, further⟩
      · cases here'
        exact same
      · omega
    obtain ⟨rfl, rfl⟩ := landed_once lawfulS awaits.le (le.trans (upTo.trans awaits.by_)) awaits.landed lands
      (by rw [awaits.begins, begins, equal])
    subst mine
    obtain ⟨rfl, rfl⟩ := awaits.drafts.unique drafts
    rcases further with here' | ⟨_, ⟨⟩, further⟩
    · exact Option.some.inj here'
    · omega

theorem remembered {me : Caller (Operation M)} {slot : Replica.Cached M}
    (tracks : d.Tracks e.caller.place copy seen t) (here : me.place = e.caller.place) (since : seen <+: t)
    (remembers : d.Remembers (conduct M R) me t slot) :
    ∃ held, slot = some held ∧ d.Passes t (some copy) copy.revision (some held) := by
  have lawful := (secure_of_reachable reachable).lawful.of_le (upTo.trans awaits.by_)
  have chain := log_chain lawful
  obtain ⟨held, cached, passes⟩ := tracks t since (List.prefix_refl t)
  have there : t.cache me.place = some held := here ▸ cached
  have known : ∀ old, some copy = some old → old.revision = copy.revision := by
    rintro _ ⟨⟩
    rfl
  cases remembers with
  | replayed start begins passes' =>
    rw [there] at begins passes'
    obtain rfl := begins.copy held rfl
    rcases passes'.eq_or_lt chain with rfl | ⟨next, rfl, _⟩
    · exact ⟨held, rfl, passes⟩
    · exact ⟨next, rfl, passes.trans chain known passes'⟩
  | rebuilt entered taken tended fresh counted behind =>
    obtain ⟨prior, rfl⟩ := awaits.drafts.left
    have entering := tended.entered_of_unlocked taken here.symm since
    refine absurd (behind held there fun past segment request cause le failed => ?_).1 (Nat.not_lt.mpr ?_)
    · exact awaits.unsevered.candid past me segment request cause (entering.trans le) (failed.trans upTo) here
    · exact awaits.unsevered.retained t held since upTo cached
  | founded founds record entry' before after began landed taken looked fresh resumed =>
    exact (awaits.not_founded reachable upTo tracks here founds began landed taken looked since).elim
  | applied copy' current next cached' same record entry' seen' before after drafts landed by_ begins handed =>
    obtain rfl := Option.some.inj (there.symm.trans cached')
    obtain rfl := awaits.drafted_eq reachable upTo tracks here drafts landed by_ begins since cached same.2
    have next_passes := landed.passes by_ (placed lawful there).segment begins handed
    exact ⟨next, rfl, passes.trans chain known next_passes⟩

omit upTo in
theorem tracks (trips : d.codec.RoundTrips) (le : t <+: later) (since : seen <+: t) :
    d.Tracks e.caller.place copy seen t := by
  obtain ⟨more, rfl⟩ := since
  -- On what has happened since the copy was taken.
  induction more using List.reverseRecOn with
  | nil =>
    intro past since le
    rw [List.append_nil] at le
    obtain rfl := since.eq_of_length_le le.length_le
    exact ⟨copy, awaits.drafts.cached, .stays⟩
  | append_singleton more e' ih =>
    rw [← List.append_assoc] at le ⊢
    have early := (List.prefix_append (seen ++ more) [e']).trans le
    have tracks := ih early
    have since := List.prefix_append seen more
    intro past since' le'
    rcases List.prefix_concat_iff.mp le' with rfl | short
    · have later := List.prefix_append (seen ++ more) [e']
      rcases Trace.cache_concat (seen ++ more) e' e.caller.place with same | ⟨slot, answer, here, deed, same⟩
      · obtain ⟨held, cached, passes⟩ := tracks _ since (List.prefix_refl _)
        exact ⟨held, same.trans cached, passes.mono later⟩
      · have remembers := remembers_of_reachable trips reachable (le.trans awaits.by_) deed
        obtain ⟨held, rfl, passes⟩ := awaits.remembered reachable early tracks here since remembers
        exact ⟨held, same, passes.mono later⟩
    · exact tracks past since' short

omit upTo in
theorem agrees (trips : d.codec.RoundTrips) (since : past ++ [e] <+: later)
    (cached : later.cache e.caller.place = some held) : d.Agrees R past later entry copy held := by
  have lawful := (secure_of_reachable reachable).lawful
  have chain := log_chain (lawful.of_le awaits.by_)
  have bounds := bounds_of_landed (lawful.of_le awaits.le) awaits.landed
  have early := awaits.drafts.passed.le.trans ((List.prefix_append past [e]).trans since)
  have whole := List.prefix_refl later
  have ends : ending 0 (d.log past) = copy.revision.offset := by rw [← bounds.1, awaits.begins]
  have known : copy.revision = ⟨d.segment, ending 0 (d.log past), copy.revision.event⟩ := by
    rw [ends, ← (placed (lawful.of_le (early.trans awaits.by_)) awaits.drafts.cached).segment]
  have front : d.log past ++ [entry] <+: d.log later := by
    rw [← log_of_landed past awaits.landed]
    exact Trace.history_le d.segment since
  obtain ⟨_, cached', passes⟩ := awaits.tracks reachable trips whole early later early whole
  obtain rfl := Option.some.inj (cached.symm.trans cached')
  have lt := awaits.begins ▸ bounds.2.1
  cases passes with
  | stays =>
    refine ⟨[], ?_, fun past => absurd past (Nat.not_le.mpr lt), replays_of_resume known rfl⟩
    rw [List.append_nil]
    exact (List.prefix_append _ _).trans front
  | resumed before x rest _ through starts folded =>
    obtain rfl : before = d.log past :=
      chain.prefix_eq ((List.prefix_append _ _).trans through) ((List.prefix_append _ _).trans front)
        (starts.trans ends.symm)
    refine ⟨x :: rest, through, fun _ => ?_, replays_of_resume known folded⟩
    exact (List.prefix_append_right_inj _).mp (List.prefix_of_prefix_length_le front through (by simp))

end Awaits

theorem foresees_fresh {ρ : Conduct M R O} {past : Trace M R O} {e : Event M R O} {solo : Solo Store M.State}
    (lawful : Lawful (d.law ρ) (past ++ [e])) (landed : e.landed? d.segment = some entry)
    (began : ∃ earlier, earlier <+: past ∧ d.oldest earlier = entry.offset)
    (resumed : d.resume none 0 [entry] = .ok (some held)) (service : solo.service = (World.after (past ++ [e])).store)
    (unmarked : d.mark past = none) (opened : solo.memory.closed = false) (cached : solo.memory.cache = none) :
    d.Foresees solo (d.log past ++ [entry]) [entry] held := by
  obtain ⟨mark, start⟩ := unmoved_of_landed lawful landed
  obtain ⟨earlier, first, oldest⟩ := began
  have logs := lawful.logs d.segment
  rw [show Trace.history d.segment (past ++ [e]) = _ from log_of_landed past landed, ← service] at logs
  have before := lawful.of_concat.1
  -- All that was there before was cut off, so a fresh instance begins with this record.
  have whole : d.oldest past = ending 0 (d.log past) := by
    refine Nat.le_antisymm (before.logs d.segment).start_le ?_
    rw [← (bounds_of_landed lawful landed).1, ← oldest]
    exact oldest_le before first
  have left : (solo.service.buffer d.segment).start = ending 0 (d.log past) := by
    rw [service, ← whole]
    exact start
  have starts : d.Starts solo ⟨d.segment, ending 0 (d.log past), 0⟩ := by
    refine ⟨fun old here => ?_, fun _ => ⟨rfl, ?_⟩⟩
    · rw [cached] at here
      cases here
    · have none : solo.service.mark d.segment = none := by
        rw [service, ← unmarked]
        exact mark
      rw [Store.restart?, none, left]
  exact ⟨logs, logs.present (by simp), opened, d.log past, 0, rfl, Nat.le_of_eq left, starts, by rwa [cached],
    by simp [Revision.eventLimit]⟩

section Written

/-- What becomes of a record that was written on top of `copy`. The cache comes to what a replay of the log makes of
that copy, at least until it has the record; and when the call has ended, it has it. -/
structure Reconciled (d : Deployment M) (s : System M R (Operation M) (Result M R)) (past : Trace M R (Operation M))
    (e : Event M R (Operation M)) (entry : Entry) (copy : Revisioned M.State)
    (seen : Trace M R (Operation M)) : Prop where
  drafts : Drafts e.caller copy seen past
  begins : entry.offset = copy.revision.offset
  folded : ∀ (later : Trace M R (Operation M)) held, past ++ [e] <+: later → later <+: s.trace →
    d.Unsevered e.caller.place seen later → later.cache e.caller.place = some held →
      (∀ (before : Trace M R (Operation M)) copy', seen <+: before → before <+: later → before ≠ later →
        before.cache e.caller.place = some copy' → copy'.revision.offset < entry.endOffset) →
      d.Agrees R past later entry copy held
  continued : ∀ (later : Trace M R (Operation M)) held, past ++ [e] <+: later → later <+: s.trace →
    d.Unsevered e.caller.place seen later → later.cache e.caller.place = some held →
      d.Continued e.caller.place entry seen later → d.Agrees R past later entry copy held
  returned : ∀ result, s.Returned e.caller result → result ≠ .error .taskFailed → Folded e.caller entry s.trace

/-- What becomes of a first record: whoever has written it has the copy that a fresh instance comes to. -/
structure Initiated (d : Deployment M) (s : System M R (Operation M) (Result M R)) (past : Trace M R (Operation M))
    (e : Event M R (Operation M)) (entry : Entry) (held : Revisioned M.State) : Prop where
  resumed : d.resume none 0 [entry] = .ok (some held)
  fetched : ∀ (generate : M.State → List M.Update × R) (summarize : M.State → M.Snapshot) (place : Nat)
    (solo : Solo Store M.State), solo.service = (World.after (past ++ [e])).store → d.mark past = none →
      solo.memory.closed = false → solo.memory.cache = none →
      Solo.play generate summarize ((d.replica place).getRevisionedState : Attempt M R _).run solo =
        (some (.ok held), (solo.fetched held 1).withLock false)
  returned : ∀ result, s.Returned e.caller result → result ≠ .error .taskFailed →
    ∃ set : Trace M R (Operation M), set <+: s.trace ∧ entry ∈ d.log set ∧ set.cache e.caller.place = some held

variable (d) in
/-- Whoever folds a record into the cache of the instance that has written it, the cache comes to the same. -/
structure WritesReplayed (s : System M R (Operation M) (Result M R)) : Prop where
  updated : ∀ past e entry, past ++ [e] <+: s.trace → e.landed? d.segment = some entry →
    e.caller.operation.Updates ∨ e.caller.operation = .compact → ∃ copy seen, d.Reconciled s past e entry copy seen
  founded : ∀ past e entry, past ++ [e] <+: s.trace → e.landed? d.segment = some entry →
    e.caller.operation.Founds → ∃ held, d.Initiated s past e entry held

variable (trips : d.codec.RoundTrips) (reachable : d.Reachable R s) (le : past ++ [e] <+: s.trace)
  (landed : e.landed? d.segment = some entry)

include trips reachable le landed

theorem reconciled (writes : e.caller.operation.Updates ∨ e.caller.operation = .compact) :
    ∃ copy seen, d.Reconciled s past e entry copy seen := by
  have follows := Operation.not_founds writes
  obtain ⟨copy, seen, drafts, begins⟩ :=
    drafts_of_landed trips reachable le landed (Operation.not_raw writes) follows
  have agrees : ∀ (later : Trace M R (Operation M)) held, past ++ [e] <+: later → later <+: s.trace →
      d.Unsevered e.caller.place seen later → later.cache e.caller.place = some held →
        d.Continued e.caller.place entry seen later → d.Agrees R past later entry copy held :=
    fun later held since by_ unsevered cached continued =>
      Awaits.agrees reachable ⟨le, landed, follows, drafts, begins, by_, unsevered, continued⟩ trips since cached
  refine ⟨copy, seen, drafts, begins, ?_, agrees, fun result returned own => ?_⟩
  · intro later held since by_ unsevered cached first
    refine agrees later held since by_ unsevered cached fun before e' copy' since' le' _ cached' past => ?_
    have short : before ≠ later := by
      rintro rfl
      exact absurd le'.length_le (by simp)
    exact absurd past (Nat.not_le.mpr (first before copy' since' ((List.prefix_append _ _).trans le') short cached'))
  · exact brought_of_returned Folded.mono (updates_bring writes) reachable returned own (le.subset (by simp)) rfl landed

theorem initiated (founds : e.caller.operation.Founds) : ∃ held, d.Initiated s past e entry held := by
  have lawful := (secure_of_reachable reachable).lawful.of_le le
  have polite := Operation.not_raw_of_founds founds
  obtain ⟨_, record, encoded, ⟨_, ⟨snapshot, rfl⟩, began⟩ | ⟨_, _, _, proposed⟩⟩ :=
    landing lawful polite landed
  swap
  · exact absurd proposed (not_answered_of_founds founds)
  have resumed := resume_init (trips _ _ encoded)
  refine ⟨_, resumed, ?_, fun result returned own => ?_⟩
  · intro generate summarize place solo service unmarked opened cached
    have foresees := foresees_fresh lawful landed began resumed service unmarked opened cached
    exact foresees.play_getRevisionedState place generate summarize
  · obtain ⟨set, held, early, member, cached, resumed'⟩ :=
      brought_of_returned Seeded.mono (founding_brings founds trips) reachable returned own (le.subset (by simp)) rfl
        landed
    rw [resumed] at resumed'
    cases resumed'
    exact ⟨set, early, member, cached⟩

omit trips le landed in
/-- A record that is folded as its writer has it, and one that is read back, make the same copy. Whatever calls of an
instance put into its cache meanwhile, it comes to what a replay of the log makes of the copy that the record was
written on top of. -/
theorem writes_replayed (updates : d.updates.RoundTrips) (snapshots : d.snapshots.RoundTrips) : d.WritesReplayed s :=
  ⟨fun _ _ _ => reconciled (Frame.codec_roundTrips updates snapshots) reachable,
    fun _ _ _ => initiated (Frame.codec_roundTrips updates snapshots) reachable⟩

end Written

/-- A record whose writer is outrun: another call of the instance reads the record and folds it first. -/
def outrun : System Model.numberedBytes Unit (Operation Model.numberedBytes) (Result Model.numberedBytes Unit) :=
  (System.Stage.initial.play ofNumbered.program (fun _ => ([[7]], ())) id (List.flatten [
    Move.run ⟨0, 0, .createSegment⟩ 1,
    Move.run ⟨1, 0, .establish [5]⟩ 9,
    Move.run ⟨2, 0, .updateState⟩ 11,
    Move.run ⟨3, 0, .getState⟩ 10,
    Move.steps 2 9])).system

theorem reachable_outrun : ofNumbered.Reachable Unit outrun := (System.Stage.fair_initial.play _).steps

theorem outrun_replayed : ∃ past e entry copy held, past ++ [e] <+: outrun.trace ∧
    e.caller.operation.Updates ∧ e.landed? ofNumbered.segment = some entry ∧
    outrun.trace.cache e.caller.place = some held ∧ held.revision = ⟨ofNumbered.segment, 20, 2⟩ ∧
    ofNumbered.Agrees Unit past outrun.trace entry copy held := by
  have replayed := writes_replayed reachable_outrun Codec.raw_roundTrips Codec.raw_roundTrips
  have lawful := (secure_of_reachable reachable_outrun).lawful
  have wrote : (outrun.trace[23]?).map (fun e => (e.caller.place, decide e.caller.operation.Updates,
      (e.landed? ofNumbered.segment).isSome)) = some (0, true, true) := by decide +kernel
  have ended : (outrun.trace.cache 0).map (·.revision) = some ⟨ofNumbered.segment, 20, 2⟩ := by decide +kernel
  have served : (outrun.trace.all fun e => e.failure?.isNone) = true := by decide +kernel
  have whole : ofNumbered.oldest outrun.trace = 0 := by decide +kernel
  have once : ((List.range outrun.trace.length).all fun i => (outrun.trace[i]?).all fun e =>
      !decide e.caller.operation.Founds || (e.landed? ofNumbered.segment).isNone ||
        (Trace.cache (outrun.trace.take i) 0).isNone) = true := by decide +kernel
  obtain ⟨e, there, fields⟩ := Option.map_eq_some_iff.mp wrote
  obtain ⟨here, updates, lands⟩ : e.caller.place = 0 ∧ e.caller.operation.Updates ∧
      (e.landed? ofNumbered.segment).isSome = true := by simpa using fields
  obtain ⟨entry, landed⟩ := Option.isSome_iff_exists.mp lands
  obtain ⟨held, cached, revision⟩ := Option.map_eq_some_iff.mp ended
  have le : outrun.trace.take 23 ++ [e] <+: outrun.trace := by
    have upTo : outrun.trace.take (23 + 1) <+: outrun.trace := List.take_prefix _ _
    rwa [List.take_add_one, there] at upTo
  obtain ⟨copy, seen, reconciled⟩ := replayed.updated _ e entry le landed (.inl updates)
  refine ⟨_, e, entry, copy, held, le, updates, landed, here ▸ cached, revision, ?_⟩
  refine reconciled.continued outrun.trace held le (List.prefix_refl _) ⟨?_, ?_⟩ (here ▸ cached) ?_
  · intro past caller segment request cause _ failed _
    have member : (⟨caller, .failed segment request cause⟩ : Event _ _ _) ∈ outrun.trace := failed.subset (by simp)
    cases Trace.failure?_eq_none served _ member
  · intro past copy _ le _
    exact Nat.le_trans (oldest_le lawful le) (whole ▸ Nat.zero_le _)
  · intro past e' copy _ le _ cached _ founds
    obtain ⟨rest, split⟩ := le
    have fine := List.all_eq_true.mp once past.length (by simp [← split])
    rw [here] at cached
    simpa [← split, founds, cached] using fine

end Deployment

end LogReplica
