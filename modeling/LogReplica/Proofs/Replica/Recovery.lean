import LogReplica.Proofs.Replica.Confinement
import LogReplica.Proofs.Replica.Undisturbed

namespace LogReplica

variable {M : Model} {R O : Type}

namespace Deed

variable {deed : Deed M R} (acts : deed.Acts Action.OfReading)

include acts

theorem quiet_of_reading (segment : SegmentId) : deed.Quiet segment := by
  cases deed with
  | called | failed => exact acts.elim
  | gaveUp => trivial
  | acted action answer =>
    cases action with
    | ask named request =>
      have passive : request.Passive := acts.resolve_right id
      cases request <;> first | exact passive.elim | trivial
    | touch | generate | summarize => trivial
    | abort => exact nomatch answer

theorem open_of_reading {caller : Caller O} : (⟨caller, deed⟩ : Event M R O).closes = false := by
  cases deed with
  | called | failed => exact acts.elim
  | gaveUp => rfl
  | acted action answer =>
    cases action with
    | touch x => cases x <;> first | rfl | exact (acts.elim id id).elim
    | ask | generate | summarize => rfl
    | abort => exact nomatch answer

end Deed

namespace Deployment

variable {d : Deployment M} {ρ : Conduct M R O} {me : Caller O} {t more : Trace M R O}

theorem Undisturbed.of_reading (fine : d.Undisturbed ρ me t) (lawful : Lawful (d.law ρ) (t ++ more))
    (polite : ¬ρ.raw me.operation) (own : ∀ e ∈ more, e.caller = me ∧ e.deed.Acts Action.OfReading) :
    d.Undisturbed ρ me (t ++ more) ∧ d.oldest (t ++ more) = d.oldest t := by
  induction more using List.reverseRecOn with
  | nil =>
    rw [List.append_nil]
    exact ⟨fine, rfl⟩
  | append_singleton more e ih =>
    rw [← List.append_assoc] at lawful ⊢
    obtain ⟨fine, same⟩ := ih lawful.of_concat.1 fun e' member => own e' (List.mem_append_left _ member)
    obtain ⟨rfl, acts⟩ := own e (List.mem_append_right _ (List.mem_singleton_self e))
    obtain ⟨log, buffer⟩ := lawful.still_of_quiet d.segment (Deed.quiet_of_reading acts d.segment)
    refine ⟨⟨lawful, ?_, ?_, ?_, ?_⟩, (congrArg Framed.start buffer).trans same⟩
    · intro e' member
      rcases List.mem_append.mp member with member | member
      · exact fine.clean e' member
      · rwa [List.mem_singleton.mp member]
    · intro e' member mine
      rcases List.mem_append.mp member with member | member
      · exact fine.served e' member mine
      · rw [List.mem_singleton.mp member, Event.failure?]
        split
        · rename_i failed
          rw [failed] at acts
          exact acts.elim
        · rfl
    · refine Bool.eq_false_iff.mpr fun closed => ?_
      rw [World.after_concat] at closed
      have closes := (World.note_closed _ fine.opened closed).2
      rw [Deed.open_of_reading acts] at closes
      cases closes
    · rw [Deployment.log, log]
      exact fine.short

variable {s₀ s : System M R (Operation M) (Result M R)} {reader : Caller (Operation M)}

/-- How a reading that was called at `t` has ended by `t'`: a truncation is news, and otherwise it has counted what it
did since it took the lock. -/
def Ended (d : Deployment M) (me : Caller O) (t t' : Trace M R O) : Except CoreError (Result M R) → Prop
  | .ok _ => ∃ entered, Idled me t entered ∧ entered ++ [⟨me, .acted (.touch .lockCache) ()⟩] <+: t' ∧
    (d.oldest t' = d.oldest entered → d.Caught me entered t')
  | .error cause => cause.isTruncated = true ∧ d.oldest t < d.oldest t'

theorem ended_of_returned (trips : d.codec.RoundTrips) (reachable : d.Reachable R s₀)
    (uncalled : s₀.calls reader.call = none) (steps : (s₀.call d.program reader).Steps d.program s)
    (reads : reader.operation.Reads) (written : d.log s₀.trace ≠ [])
    (fine : d.Undisturbed (conduct M R) reader s.trace) {result : Except CoreError (Result M R)}
    (returned : s.Returned reader result) :
    ∃ t, Idled reader t s.trace ∧ d.Ended reader (s₀.trace ++ [⟨reader, .called⟩]) t result := by
  have written : d.log (s₀.trace ++ [⟨reader, .called⟩]) ≠ [] := log_ne_nil written (List.prefix_append _ _)
  refine System.yielded_of_called reachable uncalled steps (d.Undisturbed (conduct M R) reader)
    (fun result t => d.Ended reader (s₀.trace ++ [⟨reader, .called⟩]) t result) returned
      (fun le fine => fine.of_le le) fine
    (Procedure.Yields.ends ?_ fun _ => False.elim)
  have gone : ∀ cause t', s₀.trace ++ [⟨reader, .called⟩] <+: t' → d.Undisturbed (conduct M R) reader t' →
      cause.isTruncated = true → d.oldest (s₀.trace ++ [⟨reader, .called⟩]) < d.oldest t' →
      d.Ended (R := R) reader (s₀.trace ++ [⟨reader, .called⟩]) t' (.error cause) :=
    fun cause t' _ _ known moved => ⟨known, moved⟩
  refine Attempt.Yields.run ?_
  cases operation : reader.operation with
  | getState =>
    refine .bind (.bind (getRevisionedState_yields trips reader.place written ?_ gone))
    exact fun copy past t' idled entered _ caught => .pure (.pure ⟨past, idled, entered, caught⟩)
  | getRevisionedState =>
    refine .bind (getRevisionedState_yields trips reader.place written ?_ gone)
    exact fun copy past t' idled entered _ caught => .pure ⟨past, idled, entered, caught⟩
  | _ =>
    rw [operation] at reads
    exact reads.elim

theorem enters_of_reads (place : Nat) {operation : Operation M} (reads : operation.Reads) :
    Procedure.Enters (fun action => action.Reads ∨ action = .touch .unlockCache)
      (d.program (R := R) place operation).run := by
  have fetches : Procedure.Enters (fun action => action.Reads ∨ action = .touch .unlockCache)
      ((d.replica place).getRevisionedState : Attempt M R _).run :=
    Attempt.locked_enters ((d.replica place).fetch_confined.mono (fun _ => .inl) fun _ => id) (.inr rfl)
  have ends : ∀ {α : Type} (a : α), (pure a : Attempt M R α).Confined
      (fun action => action.Reads ∨ action = .touch .unlockCache) CoreError.OfAttempt := fun a => .pure a
  cases operation with
  | getState => exact Attempt.enters_bind (Attempt.enters_bind fetches fun copy => ends _) fun state => ends _
  | getRevisionedState => exact Attempt.enters_bind fetches fun copy => ends _
  | _ => exact reads.elim

/-- How a reading ends that is called at `s₀` and followed up to `s`. -/
structure Recovers (d : Deployment M) (reader : Caller (Operation M)) (s₀ s : System M R (Operation M) (Result M R)) :
    Prop where
  /-- It fails only with the news of a truncation that took effect meanwhile. -/
  refused : ∀ cause, s.Returned reader (.error cause) → cause.isTruncated = true ∧ d.oldest s₀.trace < d.oldest s.trace
  /-- What it gives, the log stood for at an instant of it, where only the positions of records matter. -/
  shown : M.Positional → ∀ result, s.Returned reader (.ok result) →
    ∃ now, s.trace.Amid reader now ∧ d.Shows (d.log now) result
  /-- Without a truncation meanwhile it counts a recovery if the copy lagged behind when it took the lock. -/
  counted : ∀ result, s.Returned reader (.ok result) → d.oldest s.trace = d.oldest s₀.trace →
    ∃ entered, s₀.trace <+: entered ∧ entered ++ [⟨reader, .acted (.touch .lockCache) ()⟩] <+: s.trace ∧
      (s.trace.recorded reader).truncationRecoveries = if d.Lagging entered reader.place then 1 else 0
  /-- If it was alone at its place, that copy was there when it was called, and nothing else was counted. -/
  alone : ∀ result, s.Returned reader (.ok result) → d.oldest s.trace = d.oldest s₀.trace →
    (∀ more, s.trace = s₀.trace ++ more → ∀ e ∈ more, e.caller.place = reader.place → e.caller.call = reader.call) →
    ((World.after s.trace).memories reader.place).stats.truncationRecoveries =
      ((World.after s₀.trace).memories reader.place).stats.truncationRecoveries +
        if d.Lagging s₀.trace reader.place then 1 else 0
  /-- It ends by its own steps unless another call holds the lock, and has a result unless there was a truncation. -/
  ends : (∀ holder, s.world.holders reader.place .cache = some holder → holder = reader.call) →
    ∃ s' ending, s.Steps d.program s' ∧ s'.Returned reader ending ∧
      (d.oldest s.trace = d.oldest s₀.trace → ∃ result, ending = .ok result)

section Recovering

variable (trips : d.codec.RoundTrips) (reachable : d.Reachable R s₀) (uncalled : s₀.calls reader.call = none)
  (steps : (s₀.call d.program reader).Steps d.program s) (reads : reader.operation.Reads)
    (written : d.log s₀.trace ≠ [])
  (fine : d.Undisturbed (conduct M R) reader s.trace)

include trips reachable uncalled steps reads written fine

theorem caught_of_returned {result : Result M R} (returned : s.Returned reader (.ok result))
    (still : d.oldest s.trace = d.oldest s₀.trace) : ∃ entered, Idled reader (s₀.trace ++ [⟨reader, .called⟩]) entered ∧
      entered ++ [⟨reader, .acted (.touch .lockCache) ()⟩] <+: s.trace ∧ d.oldest entered = d.oldest s₀.trace ∧
      d.Caught reader entered s.trace ∧ entered.recorded reader = {} := by
  obtain ⟨t, idled, entered, waited, locked, caught⟩ :=
    ended_of_returned trips reachable uncalled steps reads written fine returned
  have since : s₀.trace <+: entered := (List.prefix_append _ _).trans waited.le
  have before : entered <+: t := (List.prefix_append _ _).trans locked
  have first := oldest_le (fine.of_le (before.trans idled.le)).lawful since
  have second := oldest_le (fine.of_le idled.le).lawful before
  have third := oldest_le fine.lawful idled.le
  have none : s₀.trace.own reader Deed.tally? = [] :=
    List.filterMap_eq_nil_iff.mpr fun e member => if_neg (System.fresh_of_uncalled reachable uncalled e member)
  refine ⟨entered, waited, locked.trans idled.le, by omega, ?_, ?_⟩
  · exact (caught (by omega)).mono idled.le (idled.recorded_eq fun _ => False.elim)
  · rw [waited.recorded_eq fun _ => False.elim, Trace.recorded_concat, Trace.recorded, none]
    rfl

theorem counted_of_alone {result : Result M R} (returned : s.Returned reader (.ok result))
    (still : d.oldest s.trace = d.oldest s₀.trace)
    (alone : ∀ more, s.trace = s₀.trace ++ more → ∀ e ∈ more, e.caller.place = reader.place →
      e.caller.call = reader.call) :
    ((World.after s.trace).memories reader.place).stats.truncationRecoveries =
      ((World.after s₀.trace).memories reader.place).stats.truncationRecoveries +
        if d.Lagging s₀.trace reader.place then 1 else 0 := by
  obtain ⟨entered, waited, locked, same, caught, unrecorded⟩ :=
    caught_of_returned trips reachable uncalled steps reads written fine returned still
  obtain ⟨idle, rfl, own⟩ := waited
  have since : s₀.trace ++ [⟨reader, .called⟩] ++ idle <+: s.trace := (List.prefix_append _ _).trans locked
  obtain ⟨rest, whole⟩ := since
  have split : s.trace = s₀.trace ++ (⟨reader, .called⟩ : Event M R (Operation M)) :: (idle ++ rest) := by
    rw [← whole]
    simp
  have alone := alone _ split
  have cached : (s₀.trace ++ [(⟨reader, .called⟩ : Event M R (Operation M))] ++ idle).cache reader.place =
    s₀.trace.cache reader.place :=
    Trace.cache_of_waiting fun e member here => own e member (alone e (by simp [member]) here)
  have reachable' := System.reachable_of_called reachable uncalled steps
  -- Nobody else counts at this place meanwhile, so what the call has counted is what the place has.
  have counted := Trace.recoveries_of_alone (System.fresh_of_uncalled reachable uncalled) fun e member => by
    have own := System.caller_eq_of_known reachable' returned (split ▸ List.mem_append_right s₀.trace member)
    exact ⟨fun mine => congrArg Caller.place (own mine), alone e member⟩
  have recoveries := caught.recoveries
  rw [unrecorded, Lagging, cached, same] at recoveries
  rw [← split, recoveries] at counted
  exact counted.trans (congrArg (_ + ·) (Nat.zero_add _))

theorem ends_of_free (polite : ¬reader.operation.Raw)
    (free : ∀ holder, s.world.holders reader.place .cache = some holder → holder = reader.call) :
    ∃ s' ending, s.Steps d.program s' ∧ s'.Returned reader ending ∧
      (d.oldest s.trace = d.oldest s₀.trace → ∃ result, ending = .ok result) := by
  have proceeds : ∀ action : Action M R, (action.Reads ∨ action = .touch .unlockCache) → action.Proceeds := by
    rintro action (reads | rfl)
    · cases action with
      | ask | abort => trivial
      | generate | summarize => exact reads
      | touch x => cases x <;> first | exact reads.elim | rfl
    · rfl
  obtain ⟨s', ending, steps', returned, more, trace, own⟩ := System.exists_returned_of_free reachable uncalled steps
    (enters_of_reads reader.place reads) proceeds free
  refine ⟨s', ending, steps', returned, fun still => ?_⟩
  have lawful := (secure_of_reachable (System.reachable_of_called reachable uncalled (steps.trans steps'))).lawful
  rw [trace] at lawful
  obtain ⟨fine', same⟩ := fine.of_reading lawful polite fun e member => by
    refine ⟨(own e member).1, (own e member).2.mono ?_⟩
    rintro action (rfl | reads | rfl)
    · exact .inr trivial
    · exact .inl reads
    · exact .inr trivial
  rw [← trace] at fine' same
  -- Its own steps truncate nothing, so an end with an error would mean that it was truncated before.
  obtain ⟨t, idled, ended⟩ :=
    ended_of_returned trips reachable uncalled (steps.trans steps') reads written fine' returned
  cases ending with
  | ok result => exact ⟨result, rfl⟩
  | error cause =>
    have moved : d.oldest s₀.trace < d.oldest t :=
      Nat.lt_of_le_of_lt (oldest_le (lawful.of_le (trace ▸ System.trace_le (steps.trans steps')))
        (List.prefix_append _ _)) ended.2
    have := oldest_le fine'.lawful idled.le
    omega

end Recovering

/-- Once there are records, every reading at an open place recovers, however far its copy has fallen behind and wherever
earlier compactions were cut short, as long as its own requests are served. -/
theorem readers_recover (updates : d.updates.RoundTrips) (snapshots : d.snapshots.RoundTrips)
    (reachable : d.Reachable R s₀) (uncalled : s₀.calls reader.call = none)
    (steps : (s₀.call d.program reader).Steps d.program s) (polite : Polite s) (reads : reader.operation.Reads)
    (written : d.log s₀.trace ≠ []) (opened : ((World.after s.trace).memories reader.place).closed = false)
    (served : ∀ e ∈ s.trace, e.caller.call = reader.call → e.failure? = none)
    (short : (Trace.buffer d.segment s.trace).tail < Revision.eventLimit) : d.Recovers reader s₀ s := by
  have trips : d.codec.RoundTrips := Frame.codec_roundTrips updates snapshots
  have reachable' := System.reachable_of_called reachable uncalled steps
  have secure := secure_of_reachable reachable'
  have fine : d.Undisturbed (conduct M R) reader s.trace :=
    ⟨secure.lawful, polite.clean secure, served, opened, tail_eq secure.lawful ▸ short⟩
  refine ⟨?_, ?_, ?_, ?_, ?_⟩
  · intro cause returned
    obtain ⟨t, idled, known, moved⟩ := ended_of_returned trips reachable uncalled steps reads written fine returned
    refine ⟨known, ?_⟩
    have first := oldest_le (secure.lawful.of_le (System.trace_le steps))
      (List.prefix_append s₀.trace [⟨reader, .called⟩])
    exact Nat.lt_of_le_of_lt first (Nat.lt_of_lt_of_le moved (oldest_le secure.lawful idled.le))
  · intro positional result returned
    exact shows_of_returned ⟨updates, snapshots, positional⟩ reachable' reads returned
  · intro result returned still
    obtain ⟨entered, waited, locked, _, caught, unrecorded⟩ :=
      caught_of_returned trips reachable uncalled steps reads written fine returned still
    refine ⟨entered, (List.prefix_append _ _).trans waited.le, locked, ?_⟩
    rw [caught.recoveries, unrecorded]
    exact Nat.zero_add _
  · exact fun result returned => counted_of_alone trips reachable uncalled steps reads written fine returned
  · refine ends_of_free trips reachable uncalled steps reads written fine fun raw => ?_
    cases operation : reader.operation <;> rw [operation] at reads raw <;> first | exact reads | exact raw

theorem steps_playBytes_run (byte : UInt8) (schedule : List (Move (Operation Model.bytes))) (count : Nat)
    (caller : Caller (Operation Model.bytes)) (uncalled : (playBytes byte schedule).calls caller.call = none) :
    ((playBytes byte schedule).call ofBytes.program caller).Steps ofBytes.program
      (playBytes byte (schedule ++ Move.run caller count)) := by
  unfold playBytes System.Stage.play Move.run at *
  rw [List.foldl_append, List.foldl_cons]
  generalize staged : schedule.foldl _ _ = stage at uncalled ⊢
  have fair : stage.Fair := staged ▸ (System.Stage.fair_initial.play schedule).fair
  have called : stage.take ofBytes.program (fun _ => ([[byte]], ())) id (.call caller) =
      stage.proceed caller .called (ofBytes.program caller.place caller.operation).run := by
    simp only [System.Stage.take, uncalled]
  have fair' : (stage.proceed caller .called (ofBytes.program caller.place caller.operation).run).Fair := by
    rw [← called]
    exact (fair.take (.call caller)).fair
  rw [called]
  exact (fair'.play _).steps

def overhauled : List (Move (Operation Model.bytes)) := List.flatten [
  Move.run ⟨0, 0, .createSegment⟩ 1,
  Move.run ⟨1, 0, .establish [1]⟩ 12,
  Move.run ⟨2, 1, .getState⟩ 20,
  Move.run ⟨3, 0, .updateState⟩ 25,
  Move.run ⟨4, 0, .compact⟩ 45]

def told (place : Nat) (state : Bytes) : Call Model.bytes Unit (Operation Model.bytes) (Result Model.bytes Unit) → Bool
  | ⟨⟨_, here, .getState⟩, .done (.ok (.state given))⟩ => decide (here = place ∧ given = state)
  | _ => false

theorem returned_of_told {schedule : List (Move (Operation Model.bytes))} {id place : Nat} {state : Bytes}
    (checked : ((playBytes 2 schedule).calls id).any (told place state) = true) :
    (playBytes 2 schedule).Returned ⟨id, place, .getState⟩ (.ok (.state state)) := by
  refine System.returned_of_any (reachable_playBytes 2 schedule) (told place state) (fun call checked => ?_) checked
  unfold told at checked
  split at checked
  · obtain ⟨here, rfl⟩ := of_decide_eq_true checked
    exact ⟨here, rfl, rfl⟩
  · cases checked

def latecomer : Caller (Operation Model.bytes) := ⟨5, 1, .getState⟩

theorem overhauled_recovers : ofBytes.Sound ∧ ofBytes.Reachable Unit (playBytes 2 overhauled) ∧
    (playBytes 2 overhauled).calls latecomer.call = none ∧ ofBytes.log (playBytes 2 overhauled).trace ≠ [] ∧
    ofBytes.Lagging (playBytes 2 overhauled).trace latecomer.place = true ∧ ∃ s,
      ((playBytes 2 overhauled).call ofBytes.program latecomer).Steps ofBytes.program s ∧ Polite s ∧
      s.Returned latecomer (.ok (.state [1, 2])) ∧ ofBytes.Recovers latecomer (playBytes 2 overhauled) s ∧
      ((World.after s.trace).memories latecomer.place).stats.truncationRecoveries = 1 := by
  have reachable := reachable_playBytes 2 overhauled
  have uncalled : (playBytes 2 overhauled).calls latecomer.call = none :=
    Option.isNone_iff_eq_none.mp (by decide +kernel)
  have steps := steps_playBytes_run 2 overhauled 30 latecomer uncalled
  have nonempty : (ofBytes.log (playBytes 2 overhauled).trace).isEmpty = false := by decide +kernel
  have written : ofBytes.log (playBytes 2 overhauled).trace ≠ [] := List.isEmpty_eq_false_iff.mp nonempty
  have lagging : ofBytes.Lagging (playBytes 2 overhauled).trace latecomer.place = true := by decide +kernel
  have counted :
      ((World.after (playBytes 2 overhauled).trace).memories latecomer.place).stats.truncationRecoveries = 0 := by
    decide +kernel
  refine ⟨ofBytes_sound, reachable, uncalled, written, lagging, _, steps, ?_⟩
  generalize later : overhauled ++ Move.run latecomer 30 = schedule at steps ⊢
  have returned : (playBytes 2 schedule).Returned latecomer (.ok (.state [1, 2])) :=
    returned_of_told (by rw [← later]; decide +kernel)
  have polite : Polite (playBytes 2 schedule) :=
    polite_of_all (reachable_playBytes 2 schedule) (by rw [← later]; decide +kernel)
  have opened : ((World.after (playBytes 2 schedule).trace).memories latecomer.place).closed = false := by
    rw [← later]
    decide +kernel
  have served : ((playBytes 2 schedule).trace.all fun e => e.failure?.isNone) = true := by
    rw [← later]
    decide +kernel
  have short : (Trace.buffer ofBytes.segment (playBytes 2 schedule).trace).tail < Revision.eventLimit := by
    rw [← later]
    decide +kernel
  have recovers := readers_recover ofBytes_sound.updates ofBytes_sound.snapshots reachable uncalled steps polite trivial
    written opened (fun e member _ => Trace.failure?_eq_none served e member) short
  have still : ofBytes.oldest (playBytes 2 schedule).trace = ofBytes.oldest (playBytes 2 overhauled).trace := by
    rw [← later]
    decide +kernel
  have elsewhere : ((playBytes 2 schedule).trace.drop (playBytes 2 overhauled).trace.length).all
      (fun e => decide (e.caller.place = latecomer.place → e.caller.call = latecomer.call)) = true := by
    rw [← later]
    decide +kernel
  refine ⟨polite, returned, recovers, ?_⟩
  rw [recovers.alone _ returned still, counted, lagging]
  · rfl
  · intro more split e member here
    rw [split, List.drop_left] at elsewhere
    exact of_decide_eq_true (List.all_eq_true.mp elsewhere e member) here

end Deployment

end LogReplica
