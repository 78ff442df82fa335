import LogReplica.Proofs.Replica.Recovery

namespace LogReplica

variable {M : Model} {R O : Type}

def Result.state? : Result M R → Option M.State
  | .state given => some given
  | .revisioned copy => some copy.state
  | _ => none

def Trace.Only (me : Caller O) (t t' : Trace M R O) : Prop :=
  ∃ more, t' = t ++ more ∧ ∀ e ∈ more, e.caller.call = me.call

theorem Trace.Only.between {me : Caller O} {t t' first last : Trace M R O} (only : Trace.Only me t t')
    (since : t <+: first) (le : first <+: last) (by_ : last <+: t') : Trace.Only me first last := by
  obtain ⟨more, rfl, own⟩ := only
  obtain ⟨before, rfl⟩ := since
  obtain ⟨during, rfl⟩ := le
  obtain ⟨after, whole⟩ := by_
  rw [List.append_assoc, List.append_assoc] at whole
  refine ⟨during, rfl, fun e member => own e ?_⟩
  rw [← List.append_cancel_left whole]
  simp [member]

namespace Deployment

variable {d : Deployment M}

def batch? (d : Deployment M) (e : Entry) : Option (Entry × List M.Update) :=
  match d.codec.decode e.data with
  | .ok (.updates batch) => some (e, batch)
  | _ => none

/-- The state that a log stands for if nothing had been compacted: all its batches, in their order, folded into the
snapshot that it begins with. -/
def plain (d : Deployment M) : List Entry → Option M.State
  | [] => none
  | first :: rest =>
    match d.codec.decode first.data with
    | .ok (.init snapshot) => some (d.replay (M.create snapshot d.name (d.after first)) (rest.filterMap d.batch?))
    | _ => none

theorem plain_singleton (e : Entry) : d.plain [e] = d.fold [e] := by
  show (match d.codec.decode e.data with
    | .ok (.init snapshot) => some (d.replay (M.create snapshot d.name (d.after e)) [])
    | _ => none) = d.advance none e
  cases decoded : d.codec.decode e.data with
  | error cause => simp only [advance, decoded]
  | ok record => cases record <;> simp only [advance, decoded] <;> rfl

theorem plain_batch {log : List Entry} {e : Entry} {batch : List M.Update} (written : log ≠ [])
    (decoded : d.codec.decode e.data = .ok (.updates batch)) :
    d.plain (log ++ [e]) = (d.plain log).map fun state => Record.foldUpdates batch state (d.after e) := by
  obtain ⟨first, rest, rfl⟩ := List.exists_cons_of_ne_nil written
  have held : [e].filterMap d.batch? = [(e, batch)] := by simp [batch?, decoded]
  rw [List.cons_append, plain, plain, List.filterMap_append, held]
  split
  · simp [replay]
  · rfl

theorem plain_snapshot {log : List Entry} {e : Entry} {snapshot : M.Snapshot} (written : log ≠ [])
    (decoded : d.codec.decode e.data = .ok (.init snapshot)) : d.plain (log ++ [e]) = d.plain log := by
  obtain ⟨first, rest, rfl⟩ := List.exists_cons_of_ne_nil written
  have held : [e].filterMap d.batch? = [] := by simp [batch?, decoded]
  rw [List.cons_append, plain, plain, List.filterMap_append, held, List.append_nil]

/-- What compactions have made of a state is a snapshot of that state. -/
def Faithful (d : Deployment M) (t : Trace M R O) : Prop :=
  ∀ e ∈ t, ∀ state snapshot, e.deed = .acted (.summarize state) snapshot → ∀ revision,
    M.create snapshot d.name revision = state

theorem Faithful.of_le {t t' : Trace M R O} (faithful : d.Faithful t') (le : t <+: t') : d.Faithful t :=
  fun e member => faithful e (le.subset member)

section Folding

variable {t past : Trace M R (Operation M)} {e : Event M R (Operation M)}

theorem fold_eq_plain (sound : d.Sound) (lawful : Lawful (d.law (conduct M R)) t) (clean : Clean (conduct M R) t)
    (faithful : d.Faithful t) : d.fold (d.log t) = d.plain (d.log t) := by
  induction lawful with
  | nil => rfl
  | @concat past e lawful fits obeys ih =>
    have le : past <+: past ++ [e] := List.prefix_append _ _
    have ih := ih (clean.of_le le) (faithful.of_le le)
    cases landed : e.landed? d.segment with
    | none => rwa [log_of_unlanded past landed]
    | some entry =>
      obtain ⟨begins, record, encoded, basis⟩ := landing (.concat lawful fits obeys) (clean e (by simp)) landed
      have decoded := sound.roundTrips record entry.data encoded
      rw [log_of_landed past landed, fold_concat]
      -- The first snapshot founds the log. Every later one is of a compaction, and says what the log before it says.
      by_cases written : d.log past = []
      · rw [written, List.nil_append, plain_singleton]
        rfl
      cases record with
      | updates batch => rw [plain_batch written decoded, advance_batch decoded, ih]
      | init snapshot =>
        rw [plain_snapshot written decoded, advance_snapshot decoded]
        rcases basis with founds | ⟨_, state, folded, _, before, after, same, _⟩
        · exact absurd ((begins ▸ founds).unwritten lawful (clean.of_le le)) written
        · have member : (⟨e.caller, .acted (.summarize state) snapshot⟩ : Event M R (Operation M)) ∈ past ++ [e] := by
            simp [same]
          rw [faithful _ member state snapshot rfl, ← folded sound]
          exact ih

end Folding

section Cutting

variable {ρ : Conduct M R O} {me : Caller O} {t t' more : Trace M R O}

theorem still_of_only (quiet : Went (d.law ρ) me (Deed.Quiet d.segment) t t') (only : Trace.Only me t t') :
    d.log t' = d.log t ∧ Trace.buffer d.segment t' = Trace.buffer d.segment t := by
  obtain ⟨⟨more, rfl, allowed⟩, lawful⟩ := quiet
  obtain ⟨_, same, own⟩ := only
  obtain rfl := List.append_cancel_left same
  induction more using List.reverseRecOn with
  | nil => simp
  | append_singleton more e ih =>
    have last : e ∈ more ++ [e] := List.mem_append_right _ (List.mem_singleton_self e)
    rw [← List.append_assoc] at lawful ⊢
    obtain ⟨log, buffer⟩ := ih (fun e member => allowed e (List.mem_append_left _ member)) lawful.of_concat.1 rfl
      fun e member => own e (List.mem_append_left _ member)
    obtain ⟨log', buffer'⟩ := lawful.still_of_quiet d.segment (allowed e last (own e last))
    exact ⟨log'.trans log, buffer'.trans buffer⟩

theorem Compacted.cut (compacted : d.Compacted ρ me t t') (only : Trace.Only me t t') (shape : d.Shape t) :
    ∃ snapshot entry, d.codec.encode (.init snapshot) = .ok entry.data ∧ d.log t' = d.log t ++ [entry] ∧
      d.mark t' = some (entry.offset : Int) ∧ d.oldest t' = entry.offset := by
  obtain ⟨snapshot, entry, past, t₁, before, landed, advanced⟩ := compacted
  have since := before.le.trans landed.did.le
  have marks : ∀ {a b : Trace M R O}, Went (d.law ρ) me (Deed.Quiet d.segment) a b → t <+: a → b <+: t' →
      d.log b = d.log a ∧ d.mark b = d.mark a ∧ d.oldest b = d.oldest a := by
    intro a b quiet early late
    obtain ⟨log, buffer⟩ := still_of_only quiet (only.between early quiet.le late)
    exact ⟨log, congrArg (fun f : Framed => f.attributes.get? .mark) buffer, congrArg Framed.start buffer⟩
  obtain ⟨mark, oldest⟩ := landed.bounds
  have reach : ∀ {a}, past <+: a → a <+: t' → d.log past = d.log t ∧ d.mark past = d.mark t ∧
    d.oldest past = d.oldest t :=
    fun le late => marks before (List.prefix_refl _) (le.trans late)
  have chain := log_chain before.lawful
  -- Nobody else has moved the mark, so the attempt can neither come too late nor lose.
  cases advanced with
  | superseded t₂ offset read marked newer after =>
    obtain ⟨log₀, mark₀, _⟩ := reach landed.did.le (read.le.trans after.le)
    obtain ⟨_, mark₁, _⟩ := marks read since after.le
    exfalso
    rw [mark₁, mark, mark₀] at marked
    obtain ⟨_, same, _, found⟩ := shape.of_mark marked
    obtain rfl := Int.ofNat.inj same
    have := (log₀ ▸ found : d.SnapshotAt (d.log past) offset).lt_ending chain
    have := landed.begins
    omega
  | lost t₂ t₃ read between moved after =>
    obtain ⟨_, mark₂, _⟩ := marks between (since.trans read.le) after.le
    exact absurd mark₂ moved
  | done expected t₂ t₃ t₄ t₅ read moved between cut after =>
    have late₂ : t₂ <+: t' := moved.le.trans (between.le.trans (cut.le.trans after.le))
    obtain ⟨log₀, _, oldest₀⟩ := reach landed.did.le (read.le.trans late₂)
    obtain ⟨log₁, mark₁, oldest₁⟩ := marks read since late₂
    obtain ⟨mark₂, oldest₂, log₂⟩ := moved.mark_eq
    have early₃ := since.trans (read.le.trans moved.le)
    obtain ⟨log₃, mark₃, oldest₃⟩ := marks between early₃ (cut.le.trans after.le)
    obtain ⟨oldest₄, mark₄, log₄⟩ := cut.oldest_eq
    obtain ⟨log₅, mark₅, oldest₅⟩ := marks after (early₃.trans (between.le.trans cut.le)) (List.prefix_refl _)
    refine ⟨snapshot, entry, landed.encoded, ?_, ?_, ?_⟩
    · rw [log₅, log₄, log₃, log₂, log₁, landed.log, log₀]
    · rw [mark₅, mark₄, mark₃, mark₂]
    · have low : d.oldest past ≤ entry.offset :=
        landed.begins ▸ (before.lawful.logs d.segment).start_le
      rw [oldest₅, oldest₄, oldest₃, oldest₂, oldest₁, oldest]
      exact Nat.max_eq_right low

theorem steady_of_batches (trips : d.codec.RoundTrips) (lawful : Lawful (d.law ρ) (t ++ more))
    (clean : Clean ρ (t ++ more)) (new : ∀ e ∈ more, ∀ e' ∈ t, e'.caller.call ≠ e.caller.call)
    (batches : ∀ e ∈ more, ∀ entry, e.landed? d.segment = some entry → ¬d.IsSnapshot entry) :
    ∀ e ∈ more, e.deed.Steady d.segment := by
  induction more using List.reverseRecOn with
  | nil => exact fun e member => by cases member
  | append_singleton more e ih =>
    have last : e ∈ more ++ [e] := List.mem_append_right _ (List.mem_singleton_self e)
    have polite : ¬ρ.raw e.caller.operation := clean e (by simp)
    rw [← List.append_assoc] at lawful clean
    obtain ⟨before, _, obeys⟩ := lawful.of_concat
    have steady := ih before (clean.of_le (List.prefix_append _ _))
      (fun e member => new e (List.mem_append_left _ member))
      fun e member => batches e (List.mem_append_left _ member)
    have own : e.deed.Steady d.segment := by
      unfold Deed.Steady
      split
      · -- A new call that moves the mark has landed a snapshot before.
        rintro rfl
        rename_i deed
        simp only [Event.Obeys, deed] at obeys
        obtain ⟨_, target, _, _, x, member, mine, entry, landed, _, snapshot⟩ := obeys.2.2.2.resolve_left polite
        rcases List.mem_append.mp member with member | member
        · exact new e last x member mine
        · exact batches x (List.mem_append_left _ member) entry landed (snapshot trips)
      · -- One that truncates has moved the mark before.
        rintro rfl
        rename_i deed
        simp only [Event.Obeys, deed] at obeys
        obtain ⟨x, member, mine, expected, moves⟩ := obeys.2.2.2.resolve_left polite
        rcases List.mem_append.mp member with member | member
        · exact new e last x member mine
        · have unmoved := steady x member
          rw [moves] at unmoved
          exact unmoved rfl
      · trivial
    intro x member
    rcases List.mem_append.mp member with member | member
    · exact steady x member
    · rwa [List.mem_singleton.mp member]

theorem unmoved_of_steady (lawful : Lawful (d.law ρ) (t ++ more)) (steady : ∀ e ∈ more, e.deed.Steady d.segment) :
    d.mark (t ++ more) = d.mark t ∧ d.oldest (t ++ more) = d.oldest t := by
  induction more using List.reverseRecOn with
  | nil => simp
  | append_singleton more e ih =>
    rw [← List.append_assoc] at lawful ⊢
    obtain ⟨mark, oldest⟩ := ih lawful.of_concat.1 fun e member => steady e (List.mem_append_left _ member)
    obtain ⟨mark', oldest'⟩ :=
      lawful.unmoved_of_steady d.segment (steady e (List.mem_append_right _ (List.mem_singleton_self e)))
    exact ⟨mark'.trans mark, oldest'.trans oldest⟩

end Cutting

/-- From `s₀` to `s₁` a compaction has run from its call to its end, and no other operation was running. -/
structure Solitary (d : Deployment M) (compactor : Caller (Operation M))
    (s₀ s₁ : System M R (Operation M) (Result M R)) : Prop where
  compacts : compactor.operation = .compact
  reachable : d.Reachable R s₀
  idle : s₀.Idle
  uncalled : s₀.calls compactor.call = none
  steps : (s₀.call d.program compactor).Steps d.program s₁
  only : Trace.Only compactor s₀.trace s₁.trace
  returned : s₁.Returned compactor (.ok .nothing)

namespace Solitary

variable {compactor : Caller (Operation M)} {s₀ s₁ s : System M R (Operation M) (Result M R)}
    (solitary : d.Solitary compactor s₀ s₁)

include solitary

theorem reachable' : d.Reachable R s₁ := System.reachable_of_called solitary.reachable solitary.uncalled solitary.steps

theorem idle' : s₁.Idle := by
  intro id call here
  obtain ⟨named, member⟩ := System.called_of_reachable solitary.reachable' here
  by_cases mine : id = compactor.call
  · rw [mine, solitary.returned] at here
    cases here
    exact ⟨_, rfl⟩
  · obtain ⟨more, whole, own⟩ := solitary.only
    rw [whole] at member
    have early := (List.mem_append.mp member).resolve_right fun late => mine (named.symm.trans (own _ late))
    obtain ⟨rest, there⟩ := System.known_of_reachable solitary.reachable early
    have steps : s₀.Steps d.program s₁ := .head (.call compactor solitary.uncalled) solitary.steps
    have kept := System.kept_of_idle solitary.idle steps there
    rw [named, here] at kept
    obtain ⟨result, ended⟩ := solitary.idle _ _ there
    exact ⟨result, (congrArg Call.rest (Option.some.inj kept)).trans ended⟩

theorem cut (trips : d.codec.RoundTrips) (polite : Polite s₁) : ∃ entry, d.log s₁.trace = d.log s₀.trace ++ [entry] ∧
    d.mark s₁.trace = some (entry.offset : Int) ∧ d.oldest s₁.trace = entry.offset := by
  have secure := secure_of_reachable solitary.reachable'
  have clean := polite.clean secure
  obtain ⟨t, waited, raw | ⟨_, past, le, fulfilled⟩⟩ := secure.returned solitary.returned
  · rw [solitary.compacts] at raw
    exact raw.elim
  have since : s₀.trace ++ [⟨compactor, .called⟩] <+: s₁.trace := System.trace_le solitary.steps
  obtain rfl := System.called_once solitary.reachable' (le.trans waited.le) since
  have compacted : d.Compacted (conduct M R) compactor (s₀.trace ++ [⟨compactor, .called⟩]) t :=
    fulfilled solitary.compacts
  have before : s₀.trace <+: s₀.trace ++ [⟨compactor, .called⟩] := List.prefix_append _ _
  obtain ⟨_, entry, _, log, mark, oldest⟩ := compacted.cut (solitary.only.between before le waited.le)
    (shape trips (secure.lawful.of_le since) (clean.of_le since))
  -- After its last deed the compaction idles, and nobody else acts.
  have same : s₁.trace = t := by
    obtain ⟨after, whole, own⟩ := solitary.only.between (before.trans le) waited.le (List.prefix_refl _)
    obtain ⟨⟨after', whole', idle⟩, _⟩ := waited
    obtain rfl := List.append_cancel_left (whole.symm.trans whole')
    cases after with
    | nil => rw [whole, List.append_nil]
    | cons e _ => exact (idle e List.mem_cons_self (own e List.mem_cons_self)).elim
  refine ⟨entry, ?_, same ▸ mark, same ▸ oldest⟩
  rw [same, log, log_concat]
  simp [Event.landed?]

theorem bounds (trips : d.codec.RoundTrips) (steps : s₁.Steps d.program s) (polite : Polite s) {batches : List Entry}
    (log : d.log s.trace = d.log s₁.trace ++ batches) (plain : ∀ e ∈ batches, ¬d.IsSnapshot e) :
    ∃ entry, d.log s₁.trace = d.log s₀.trace ++ [entry] ∧ entry.offset = ending 0 (d.log s₀.trace) ∧
      ∀ now, s₁.trace <+: now → now <+: s.trace → d.mark now = some (entry.offset : Int) ∧
        d.oldest now = entry.offset := by
  have secure := secure_of_reachable (solitary.reachable'.trans steps)
  have clean := polite.clean secure
  have polite₁ : Polite s₁ := fun id call here => polite id call (System.kept_of_idle solitary.idle' steps here)
  -- What runs afterwards are new calls that land batches only, and such calls leave mark and oldest position alone.
  obtain ⟨entry, log₁, mark, oldest⟩ := solitary.cut trips polite₁
  have chain := log_chain (secure.lawful.of_le (System.trace_le steps))
  rw [log₁] at chain
  refine ⟨entry, log₁, chain.offset_eq, ?_⟩
  rintro now ⟨more, rfl⟩ ⟨after, whole⟩
  have le : s₁.trace ++ more <+: s.trace := ⟨after, whole⟩
  have split : s.trace = s₁.trace ++ (more ++ after) := by rw [← whole, List.append_assoc]
  have landings : d.log (more ++ after) = batches := by
    rw [split, Deployment.log, Trace.history_append] at log
    exact List.append_cancel_left log
  have new : ∀ e ∈ more, ∀ e' ∈ s₁.trace, e'.caller.call ≠ e.caller.call := fun e member =>
    System.fresh_of_uncalled solitary.reachable'
      (System.uncalled_of_idle solitary.idle' steps split e (List.mem_append_left _ member))
  have unsummed : ∀ e ∈ more, ∀ entry', e.landed? d.segment = some entry' → ¬d.IsSnapshot entry' :=
    fun e member entry' landed =>
    plain entry' (landings ▸ List.mem_filterMap.mpr ⟨e, List.mem_append_left _ member, landed⟩)
  have lawful := secure.lawful.of_le le
  obtain ⟨mark', oldest'⟩ := unmoved_of_steady lawful (steady_of_batches trips lawful (clean.of_le le) new unsummed)
  exact ⟨mark'.trans mark, oldest'.trans oldest⟩

theorem entryCount_eq (trips : d.codec.RoundTrips) (steps : s₁.Steps d.program s) (polite : Polite s)
    {batches : List Entry} (log : d.log s.trace = d.log s₁.trace ++ batches) (plain : ∀ e ∈ batches, ¬d.IsSnapshot e) :
    Store.entryCount d.segment (World.after s.trace).store = .ok (1 + batches.length) := by
  have lawful := (secure_of_reachable (solitary.reachable'.trans steps)).lawful
  obtain ⟨entry, log₁, begins, bounds⟩ := solitary.bounds trips steps polite log plain
  obtain ⟨_, oldest⟩ := bounds s.trace (System.trace_le steps) (List.prefix_refl _)
  have split : d.log s.trace = d.log s₀.trace ++ entry :: batches := by
    rw [log, log₁, List.append_assoc, List.singleton_append]
  rw [(lawful.logs d.segment).entryCount_eq split (oldest.trans begins)
    (by rw [show Trace.history _ _ = _ from split]; simp)]
  rw [List.length_cons, Nat.add_comm]

end Solitary

theorem open_of_alone {s : System M R (Operation M) (Result M R)} (reachable : d.Reachable R s)
    {reader : Caller (Operation M)} (reads : reader.operation.Reads)
    (alone : ∀ e ∈ s.trace, e.caller.place = reader.place → e.caller = reader) :
    ((World.after s.trace).memories reader.place).closed = false := by
  have confined : ∀ place (operation : Operation M), (d.program place operation : Attempt M R _).run.Confined
      (fun action => operation.Reads → action.OfReading) fun _ => True := by
    intro place operation
    have fetches := ((d.replica place).getRevisionedState_confined (R := R)).mono
      (fun action reading (_ : operation.Reads) => reading) fun _ _ => trivial
    cases operation with
    | getState =>
      exact Procedure.Confined.mono (Attempt.Confined.bind (.bind fetches fun _ => .pure _) fun _ => .pure _)
        (fun _ => id) fun _ _ => trivial
    | getRevisionedState =>
      exact Procedure.Confined.mono (Attempt.Confined.bind fetches fun _ => .pure _) (fun _ => id) fun _ _ => trivial
    | _ => exact .of_forall (fun _ reads => reads.elim) fun _ => trivial
  refine Bool.eq_false_iff.mpr fun closed => ?_
  obtain ⟨before, ⟨caller, deed⟩, after, split, _, here, closes⟩ := Trace.exists_close List.nil_prefix rfl closed
  have member : (⟨caller, deed⟩ : Event M R (Operation M)) ∈ s.trace := by simp [split]
  obtain rfl : caller = reader := alone _ member here
  cases deed with
  | called | failed | gaveUp => cases closes
  | acted action answer =>
    have reading := (System.confined_of_reachable confined reachable).1 _ member action answer rfl reads
    have acts : (Deed.acted action answer : Deed M R).Acts Action.OfReading := reading
    rw [Deed.open_of_reading acts] at closes
    cases closes

/-- From `s₂` to `s` a reading has run, from its call to its end, at a place where nothing else has been called. -/
structure FirstReading (d : Deployment M) (reader : Caller (Operation M))
    (s₂ s : System M R (Operation M) (Result M R)) : Prop where
  reads : reader.operation.Reads
  uncalled : s₂.calls reader.call = none
  steps : (s₂.call d.program reader).Steps d.program s
  returned : ∃ result, s.Returned reader (.ok result)
  alone : ∀ e ∈ s.trace, e.caller.place = reader.place → e.caller.call = reader.call
  /-- Its own requests were all served. -/
  served : ∀ e ∈ s.trace, e.caller.call = reader.call → e.failure? = none
  /-- Positions are words of 64 bits. -/
  short : (Trace.buffer d.segment s.trace).tail < Revision.eventLimit

namespace FirstReading

variable {reader : Caller (Operation M)} {s₂ s : System M R (Operation M) (Result M R)}
    (first : d.FirstReading reader s₂ s)
  (before : d.Reachable R s₂)

include first before

theorem reachable : d.Reachable R s := System.reachable_of_called before first.uncalled first.steps

theorem caller_eq {e : Event M R (Operation M)} (member : e ∈ s.trace) (mine : e.caller.call = reader.call) :
    e.caller = reader := by
  obtain ⟨result, returned⟩ := first.returned
  exact System.caller_eq_of_known (first.reachable before) returned member mine

theorem undisturbed (polite : Polite s) : d.Undisturbed (conduct M R) reader s.trace := by
  have secure := secure_of_reachable (first.reachable before)
  have opened := open_of_alone (first.reachable before) first.reads fun e member here =>
    first.caller_eq before member (first.alone e member here)
  exact ⟨secure.lawful, polite.clean secure, first.served, opened, tail_eq secure.lawful ▸ first.short⟩

theorem uncached {entered : Trace M R (Operation M)} (waited : Idled reader (s₂.trace ++ [⟨reader, .called⟩]) entered)
    (le : entered <+: s.trace) : entered.cache reader.place = none := by
  obtain ⟨idle, rfl, own⟩ := waited
  rw [Trace.cache_of_waiting fun e member here => own e member
    (first.alone e (le.subset (List.mem_append_right _ member)) here)]
  have since : s₂.trace <+: s.trace := (List.prefix_append _ _).trans ((List.prefix_append _ _).trans le)
  refine (Trace.cache_of_elsewhere (t := []) fun e member here => ?_)
  exact System.fresh_of_uncalled before first.uncalled e member (first.alone e (since.subset member) here)

theorem stats_eq : ((World.after s.trace).memories reader.place).stats = s.trace.recorded reader :=
  Trace.stats_of_alone fun e member =>
    ⟨fun mine => congrArg Caller.place (first.caller_eq before member mine), first.alone e member⟩

end FirstReading

namespace Solitary

variable {compactor reader : Caller (Operation M)} {s₀ s₁ s₂ s : System M R (Operation M) (Result M R)}
  (solitary : d.Solitary compactor s₀ s₁)

include solitary

theorem replays (trips : d.codec.RoundTrips) (earlier : s₁.Steps d.program s₂) (first : d.FirstReading reader s₂ s)
    (polite : Polite s) {batches : List Entry} (log : d.log s.trace = d.log s₁.trace ++ batches)
    (plain : ∀ e ∈ batches, ¬d.IsSnapshot e) :
    ∃ now seen, s₂.trace <+: now ∧ now <+: s.trace ∧ d.log now = d.log s₁.trace ++ seen ∧
      ((World.after s.trace).memories reader.place).stats.recordsReplayed = 1 + seen.length := by
  have reachable₂ : d.Reachable R s₂ := solitary.reachable'.trans earlier
  have lawful := (secure_of_reachable (first.reachable reachable₂)).lawful
  have before : s₁.trace <+: s₂.trace := System.trace_le earlier
  have since : s₂.trace ++ [⟨reader, .called⟩] <+: s.trace := System.trace_le first.steps
  obtain ⟨entry, log₁, begins, bounds⟩ :=
    solitary.bounds trips (earlier.trans (.head (.call reader first.uncalled) first.steps)) polite log plain
  have written : d.log s₁.trace ≠ [] := by
    rw [log₁]
    simp
  have still : d.oldest s.trace = d.oldest s₂.trace := by
    have after : s₂.trace <+: s.trace := (List.prefix_append _ _).trans since
    exact (bounds _ (before.trans after) (List.prefix_refl _)).2.trans (bounds _ before after).2.symm
  obtain ⟨result, returned⟩ := first.returned
  obtain ⟨entered, waited, locked, _, caught, unrecorded⟩ :=
    caught_of_returned trips reachable₂ first.uncalled first.steps
    first.reads (log_ne_nil written before) (first.undisturbed reachable₂ polite) returned still
  have inside : entered <+: s.trace := (List.prefix_append _ _).trans locked
  have begun : s₂.trace <+: entered := (List.prefix_append _ _).trans waited.le
  -- It begins at the snapshot, since the mark is there at every instant.
  obtain ⟨offset, position, n, instant, after, by_, restart, through, ⟨skipped, stretch, front, starts, rfl, rfl⟩,
    counted⟩ :=
    caught.fresh (first.uncached reachable₂ waited inside)
  obtain ⟨mark, oldest⟩ := bounds instant (before.trans (begun.trans after)) by_
  have offset_eq : offset = entry.offset := by
    rcases restart with marked | rfl
    · exact Int.ofNat.inj (Option.some.inj (marked.symm.trans mark))
    · exact oldest
  obtain rfl : skipped = d.log s₀.trace := by
    refine (log_chain lawful).prefix_eq ((List.prefix_append _ _).trans front) ?_
      ((starts.trans offset_eq).trans begins)
    rw [log, log₁, List.append_assoc]
    exact List.prefix_append _ _
  obtain ⟨now, since', by_', log'⟩ := exists_instant lawful inside front through
  obtain ⟨seen, split⟩ := Trace.history_le d.segment (before.trans (begun.trans since'))
  have split : d.log now = d.log s₁.trace ++ seen := split.symm
  refine ⟨now, seen, begun.trans since', by_', split, ?_⟩
  rw [log', log₁, List.append_assoc] at split
  rw [List.append_cancel_left split] at counted
  rw [first.stats_eq reachable₂, counted, unrecorded]
  simp [Stats.count, Nat.add_comm]

end Solitary

/-- Compactions do not show, other than by what they save. -/
structure Transparent (d : Deployment M) (s : System M R (Operation M) (Result M R)) : Prop where
  /-- At every moment the log stands for its first snapshot and all batches, and for nothing that a compaction has
  made. -/
  folded : ∀ now, now <+: s.trace → d.fold (d.log now) = d.plain (d.log now)
  /-- So does what each reading gives, for an instant of it. -/
  shown : ∀ (reader : Caller (Operation M)) result, reader.operation.Reads → s.Returned reader (.ok result) →
    ∃ now state, s.trace.Amid reader now ∧ d.plain (d.log now) = some state ∧ result.state? = some state
  /-- After a compaction that nothing else ran among, and batches only since, the segment retains its snapshot and
  these. -/
  retained : ∀ compactor s₀ s₁ batches, d.Solitary compactor s₀ s₁ → s₁.Steps d.program s →
    d.log s.trace = d.log s₁.trace ++ batches → (∀ e ∈ batches, ¬d.IsSnapshot e) →
    Store.entryCount d.segment (World.after s.trace).store = .ok (1 + batches.length)
  /-- The first reading at a new place replays just as many, those that land meanwhile up to an instant of it. -/
  replayed : ∀ compactor s₀ s₁ s₂ reader batches, d.Solitary compactor s₀ s₁ → s₁.Steps d.program s₂ →
    d.FirstReading reader s₂ s →
    d.log s.trace = d.log s₁.trace ++ batches → (∀ e ∈ batches, ¬d.IsSnapshot e) →
    ∃ now seen, s₂.trace <+: now ∧ now <+: s.trace ∧ d.log now = d.log s₁.trace ++ seen ∧
      ((World.after s.trace).memories reader.place).stats.recordsReplayed = 1 + seen.length ∧
      (d.log s₂.trace = d.log s.trace → seen = batches)

/-- In runs of replicas whose compactions are faithful, however they are interleaved and wherever they stop, nobody sees
that the log was compacted. -/
theorem compaction_transparent {s : System M R (Operation M) (Result M R)} (sound : d.Sound)
    (reachable : d.Reachable R s) (polite : Polite s) (faithful : d.Faithful s.trace) : d.Transparent s := by
  have secure := secure_of_reachable reachable
  have clean := polite.clean secure
  have folded : ∀ now, now <+: s.trace → d.fold (d.log now) = d.plain (d.log now) := fun now le =>
    fold_eq_plain sound (secure.lawful.of_le le) (clean.of_le le) (faithful.of_le le)
  refine ⟨folded, ?_, ?_, ?_⟩
  · intro reader result reads returned
    obtain ⟨now, amid, shows⟩ := shows_of_returned sound reachable reads returned
    rw [Shows.eq_def, folded now amid.le] at shows
    cases result with
    | state state => exact ⟨now, state, amid, shows, rfl⟩
    | revisioned copy => exact ⟨now, copy.state, amid, shows.2.2, rfl⟩
    | nothing | flag | value | number | revision => exact shows.elim
  · intro compactor s₀ s₁ batches solitary steps log plain
    exact solitary.entryCount_eq sound.roundTrips steps polite log plain
  · intro compactor s₀ s₁ s₂ reader batches solitary earlier first log plain
    obtain ⟨now, seen, since, by_, split, counted⟩ := solitary.replays sound.roundTrips earlier first polite log plain
    refine ⟨now, seen, since, by_, split, counted, fun still => ?_⟩
    have reached : d.log s.trace <+: d.log now :=
      still ▸ (Trace.history_le d.segment since : d.log s₂.trace <+: d.log now)
    have same : d.log now = d.log s.trace := (Trace.history_le d.segment by_).eq_of_length_le reached.length_le
    exact List.append_cancel_left (split.symm.trans (same.trans log))

def grown : List (Move (Operation Model.bytes)) := List.flatten [
  Move.run ⟨0, 0, .createSegment⟩ 1,
  Move.run ⟨1, 0, .establish [1]⟩ 12,
  Move.run ⟨2, 0, .updateState⟩ 25]

def tidier : Caller (Operation Model.bytes) := ⟨3, 0, .compact⟩

def tidied : List (Move (Operation Model.bytes)) := grown ++ Move.run tidier 45

def regrown : List (Move (Operation Model.bytes)) := tidied ++ Move.run ⟨4, 1, .updateState⟩ 40

def newcomer : Caller (Operation Model.bytes) := ⟨5, 2, .getState⟩

def revisited : List (Move (Operation Model.bytes)) := regrown ++ Move.run newcomer 30

def compactedAt (place : Nat) : Call Model.bytes Unit (Operation Model.bytes) (Result Model.bytes Unit) → Bool
  | ⟨⟨_, here, .compact⟩, .done (.ok .nothing)⟩ => decide (here = place)
  | _ => false

def mirrors (e : Event Model.bytes Unit (Operation Model.bytes)) : Bool :=
  match e.deed with
  | .acted (.summarize state) snapshot => decide (snapshot = state)
  | _ => true

theorem faithful_of_mirrors {t : Trace Model.bytes Unit (Operation Model.bytes)} (checked : t.all mirrors = true) :
    ofBytes.Faithful t := by
  intro e member state snapshot deed _
  have checked := List.all_eq_true.mp checked e member
  rw [mirrors, deed] at checked
  exact of_decide_eq_true checked

theorem solitary_tidied : ofBytes.Solitary tidier (playBytes 2 grown) (playBytes 2 tidied) := by
  have reachable := reachable_playBytes 2 grown
  have uncalled : (playBytes 2 grown).calls tidier.call = none := Option.isNone_iff_eq_none.mp (by decide +kernel)
  have steps : ((playBytes 2 grown).call ofBytes.program tidier).Steps ofBytes.program (playBytes 2 tidied) :=
    steps_playBytes_run 2 grown 45 tidier uncalled
  refine ⟨rfl, reachable, ?_, uncalled, steps, ?_, ?_⟩
  · exact fun id call here => Call.exists_of_isDone (System.forall_calls reachable Call.isDone (by decide +kernel) here)
  · obtain ⟨more, whole⟩ := (List.prefix_append _ _).trans (System.trace_le steps)
    have own : ((playBytes 2 tidied).trace.drop (playBytes 2 grown).trace.length).all
        (fun e => decide (e.caller.call = tidier.call)) = true := by
      decide +kernel
    refine ⟨more, whole.symm, fun e member => ?_⟩
    rw [← whole, List.drop_left] at own
    exact of_decide_eq_true (List.all_eq_true.mp own e member)
  · refine System.returned_of_any (reachable_playBytes 2 tidied) (compactedAt 0) (fun call checked => ?_)
      (by decide +kernel)
    unfold compactedAt at checked
    split at checked
    · exact ⟨of_decide_eq_true checked, rfl, rfl⟩
    · cases checked

theorem revisited_transparent : ofBytes.Sound ∧ ofBytes.Reachable Unit (playBytes 2 revisited) ∧
    Polite (playBytes 2 revisited) ∧
    ofBytes.Faithful (playBytes 2 revisited).trace ∧ ofBytes.Transparent (playBytes 2 revisited) ∧
    (playBytes 2 revisited).Returned newcomer (.ok (.state [1, 2, 2])) ∧
    ofBytes.plain (ofBytes.log (playBytes 2 revisited).trace) = some [1, 2, 2] ∧
    Store.entryCount ofBytes.segment (World.after (playBytes 2 revisited).trace).store = .ok 2 ∧
    ((World.after (playBytes 2 revisited).trace).memories newcomer.place).stats.recordsReplayed = 2 := by
  have reachable := reachable_playBytes 2 revisited
  have polite : Polite (playBytes 2 revisited) := polite_of_all reachable (by decide +kernel)
  have faithful : ofBytes.Faithful (playBytes 2 revisited).trace := faithful_of_mirrors (by decide +kernel)
  have transparent := compaction_transparent ofBytes_sound reachable polite faithful
  have earlier : (playBytes 2 tidied).Steps ofBytes.program (playBytes 2 regrown) := steps_playBytes 2 tidied _
  have uncalled : (playBytes 2 regrown).calls newcomer.call = none := Option.isNone_iff_eq_none.mp (by decide +kernel)
  have steps : ((playBytes 2 regrown).call ofBytes.program newcomer).Steps ofBytes.program (playBytes 2 revisited) :=
    steps_playBytes_run 2 regrown 30 newcomer uncalled
  have all : (playBytes 2 tidied).Steps ofBytes.program (playBytes 2 revisited) :=
    earlier.trans (steps_playBytes 2 regrown _)
  obtain ⟨batches, whole⟩ := Trace.history_le ofBytes.segment (System.trace_le earlier)
  have held :
      ((ofBytes.log (playBytes 2 regrown).trace).drop (ofBytes.log (playBytes 2 tidied).trace).length).length = 1 ∧
      ((ofBytes.log (playBytes 2 regrown).trace).drop (ofBytes.log (playBytes 2 tidied).trace).length).all
        (fun e => (ofBytes.batch? e).isSome) = true := by decide +kernel
  rw [← show _ = ofBytes.log (playBytes 2 regrown).trace from whole, List.drop_left] at held
  have plain : ∀ e ∈ batches, ¬ofBytes.IsSnapshot e := by
    rintro e member ⟨snapshot, decoded⟩
    have batch := List.all_eq_true.mp held.2 e member
    rw [batch?, decoded] at batch
    cases batch
  have still : ofBytes.log (playBytes 2 regrown).trace = ofBytes.log (playBytes 2 revisited).trace := by decide +kernel
  have log := still.symm.trans whole.symm
  have returned : (playBytes 2 revisited).Returned newcomer (.ok (.state [1, 2, 2])) :=
    returned_of_told (by decide +kernel)
  have alone : ((playBytes 2 revisited).trace.all
      fun e => decide (e.caller.place = newcomer.place → e.caller.call = newcomer.call)) = true := by
    decide +kernel
  have served : ((playBytes 2 revisited).trace.all fun e => e.failure?.isNone) = true := by decide +kernel
  have first : ofBytes.FirstReading newcomer (playBytes 2 regrown) (playBytes 2 revisited) := by
    refine ⟨trivial, uncalled, steps, ⟨_, returned⟩, ?_, ?_, by decide +kernel⟩
    · exact fun e member => of_decide_eq_true (List.all_eq_true.mp alone e member)
    · exact fun e member _ => Trace.failure?_eq_none served e member
  have count : 1 + batches.length = 2 := congrArg (1 + ·) held.1
  obtain ⟨_, seen, _, _, _, replayed, exactly⟩ :=
    transparent.replayed tidier _ _ _ newcomer batches solitary_tidied earlier first log plain
  refine ⟨ofBytes_sound, reachable, polite, faithful, transparent, returned, by decide +kernel, ?_, ?_⟩
  · rw [transparent.retained tidier _ _ batches solitary_tidied all log plain, count]
  · rw [replayed, exactly still, count]

end Deployment

end LogReplica
