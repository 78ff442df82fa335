import LogReplica.Proofs.Replica.Tallying

namespace LogReplica

variable {M : Model} {R O : Type}

/-- The replayed records that were counted at a place: those by which its cache has gone on, those which a call had
counted for nothing when it gave up the lock, and those of which neither is certain yet. -/
structure Replays where
  kept : Nat := 0
  dropped : Nat := 0
  pending : Nat := 0

def Replays.note (r : Replays) : Deed M R → Replays
  | .acted (.touch .lockCache) _ => { r with dropped := r.dropped + r.pending, pending := 0 }
  | .acted (.touch (.tally (.replayed records))) _ => { r with pending := r.pending + records }
  | .acted (.touch (.remember _)) _ => { r with kept := r.kept + r.pending, pending := 0 }
  | _ => r

theorem Replays.note_pending (r : Replays) {deed : Deed M R} (new : deed ≠ .called) :
    (r.note deed).pending = deed.pending r.pending := by
  cases deed with
  | called => exact absurd rfl new
  | failed | gaveUp => rfl
  | acted action answer =>
    cases action with
    | ask | generate | summarize => rfl
    | abort => cases answer
    | touch x =>
      cases x with
      | tally tally => cases tally <;> rfl
      | _ => rfl

def Trace.replays (t : Trace M R O) (place : Nat) : Replays := t.gather (fun c => c.place = place) Replays.note {}

namespace Trace

variable {past : Trace M R O} {e : Event M R O} {place : Nat}

theorem replays_concat (here : e.caller.place = place) :
    Trace.replays (past ++ [e]) place = (past.replays place).note e.deed := gather_concat here

theorem replays_elsewhere (elsewhere : e.caller.place ≠ place) :
    Trace.replays (past ++ [e]) place = past.replays place := gather_of_other elsewhere

theorem recordsReplayed_eq (t : Trace M R O) (place : Nat) :
    ((World.after t).memories place).stats.recordsReplayed =
      (t.replays place).kept + (t.replays place).dropped + (t.replays place).pending := by
  induction t using List.reverseRecOn with
  | nil => rfl
  | append_singleton past e ih =>
    obtain ⟨caller, deed⟩ := e
    rw [World.after_concat]
    by_cases here : caller.place = place
    · have noted : Trace.replays (past ++ [⟨caller, deed⟩]) place =
        (Trace.replays past place).note deed := replays_concat here
      rw [noted]
      subst here
      cases deed with
      | called | failed | gaveUp => exact ih
      | acted action answer =>
        cases action with
        | ask | generate | summarize => exact ih
        | abort => cases answer
        | touch x =>
          simp only [World.note, World.touch, Function.update_self]
          cases x with
          | lockCache | remember =>
            simp only [Touch.run, Replays.note]
            omega
          | tally tally =>
            cases tally with
            | replayed records =>
              simp only [Touch.run, Stats.count, Replays.note]
              omega
            | _ => exact ih
          | _ => exact ih
    · rw [replays_elsewhere here]
      cases deed with
      | called | failed | gaveUp => exact ih
      | acted action answer =>
        cases action with
        | ask | generate | summarize => exact ih
        | abort => cases answer
        | touch x => simpa only [World.note, World.touch, Function.update_of_ne (Ne.symm here)] using ih

end Trace

namespace Deployment

variable {d : Deployment M} {s : System M R (Operation M) (Result M R)}

variable (d) in
/-- What the counts of replayed records say in a run. -/
structure ReplaysCounted (t : Trace M R (Operation M)) : Prop where
  counted : ∀ place, ((World.after t).memories place).stats.recordsReplayed =
    (t.replays place).kept + (t.replays place).dropped + (t.replays place).pending
  /-- Whenever something is put into a cache, as many records are pending as it adds to that cache. -/
  kept : ∀ (past : Trace M R (Operation M)) e slot answer, past ++ [e] <+: t →
    e.deed = .acted (.touch (.remember slot)) answer →
    d.Folds (conduct M R) e.caller past slot (past.replays e.caller.place).pending
  /-- Whenever nobody holds the lock of a cache, the records that are still pending were rebuilt, and are not in it. -/
  dropped : ∀ (past : Trace M R (Operation M)) place, past <+: t → (World.after past).holders place .cache = none →
    d.Loose past (past.replays place).pending

section Runs

variable (reachable : d.Reachable R s) {past : Trace M R (Operation M)} {e : Event M R (Operation M)}

include reachable

theorem minded_of_reachable : s.Minded (Lawful (d.law (conduct M R))) (d.booking (conduct M R)) :=
  System.minded_of_reachable
    (fun caller past _ => (program_settles (.inl (Trace.pending_concat caller past .called))).minds) reachable

theorem booked_of_reachable (le : past ++ [e] <+: s.trace) {action : Action M R} {answer : action.Answer}
    (acted : e.deed = .acted action answer) : d.booking (conduct M R) past e.caller action := by
  have lawful := (secure_of_reachable reachable).lawful
  exact (minded_of_reachable reachable).owed le acted (lawful.of_le ((List.prefix_append _ _).trans le))

theorem replays_pending_of_stranger (le : past ++ [e] <+: s.trace) {place : Nat}
    (stranger : (World.after past).holders place .cache ≠ some e.caller.call)
    (waits : e.caller.place = place → ∀ answer, e.deed ≠ .acted (.touch .lockCache) answer) :
    (Trace.replays (past ++ [e]) place).pending = (past.replays place).pending := by
  by_cases here : e.caller.place = place
  · subst here
    rw [Trace.replays_concat rfl]
    have guarded := ((secure_of_reachable reachable).lawful.of_le le).of_concat.2.2.guarded
    have booked : ∀ (action : Action M R) (answer : action.Answer), e.deed = .acted action answer →
        d.booking (conduct M R) past e.caller action := fun _ _ => booked_of_reachable reachable le
    obtain ⟨caller, deed⟩ := e
    cases deed with
    | called | failed | gaveUp => rfl
    | acted action answer =>
      cases action with
      | ask | generate | summarize => rfl
      | abort => cases answer
      | touch x =>
        cases x with
        | lockCache => exact absurd rfl (waits rfl answer)
        | remember slot => exact absurd (guarded _ _ rfl .cache rfl) stranger
        | tally tally =>
          cases tally with
          | replayed records => exact absurd (booked _ _ rfl) stranger
          | _ => rfl
        | _ => rfl
  · rw [Trace.replays_elsewhere here]

theorem pending_eq_of_held {me : Caller (Operation M)} {rest : Procedure M R (Except CoreError (Result M R))}
    (known : s.calls me.call = some ⟨me, rest⟩) (le : past <+: s.trace)
    (held : (World.after past).holders me.place .cache = some me.call) :
    (past.replays me.place).pending = past.pending me := by
  induction past using List.reverseRecOn with
  | nil => cases held
  | append_singleton past e ih =>
    have early : past <+: s.trace := (List.prefix_append _ _).trans le
    rw [World.after_concat] at held
    have member : e ∈ s.trace := le.subset (List.mem_append_right _ (List.mem_singleton_self e))
    rcases World.holds_cases held with before | ⟨x, answer, mine, _, deed, taken⟩
    · have ih := ih early before
      by_cases mine : e.caller.call = me.call
      · have new := System.ne_called_of_holds reachable le (before.trans (congrArg some mine.symm))
        obtain ⟨caller, deed⟩ := e
        obtain rfl : caller = me := System.caller_eq_of_known reachable known member mine
        rw [Trace.replays_concat rfl, Trace.pending_concat, Replays.note_pending _ new, ih]
      · rw [Trace.pending_of_other mine, ← ih]
        refine replays_pending_of_stranger reachable le ?_ fun here answer locks => ?_
        · exact fun here => mine (Option.some.inj (before.symm.trans here)).symm
        · have fits := ((secure_of_reachable reachable).lawful.of_le le).of_concat.2.1
          simp only [Event.Fits, locks] at fits
          have free : ((World.after past).memories me.place).cacheLocked = false := here ▸ fits.1
          rw [(World.locked_after past me.place).1, before] at free
          cases free
    · obtain ⟨caller, _⟩ := e
      obtain rfl : caller = me := System.caller_eq_of_known reachable known member mine
      cases x <;> cases taken
      obtain rfl := deed
      rw [Trace.replays_concat rfl, Trace.pending_concat]
      rfl

theorem loose_of_free {place : Nat} (le : past <+: s.trace) (free : (World.after past).holders place .cache = none) :
    d.Loose past (past.replays place).pending := by
  induction past using List.reverseRecOn with
  | nil => exact .inl rfl
  | append_singleton past e ih =>
    have early : past <+: s.trace := (List.prefix_append _ _).trans le
    have lawful := (secure_of_reachable reachable).lawful.of_le le
    cases held : (World.after past).holders place .cache with
    | none =>
      rw [replays_pending_of_stranger reachable le (by rw [held]; exact nofun) ?_]
      · exact (ih early held).mono (List.prefix_append _ _)
      · obtain ⟨caller, deed⟩ := e
        rintro rfl answer rfl
        rw [World.holders_locked past caller answer] at free
        cases free
    | some holder =>
      obtain ⟨mine, here, gives⟩ :=
        System.gives_of_free reachable le lawful.of_concat.2.2.guarded held free
      obtain ⟨action, of, owed⟩ := (minded_of_reachable reachable).done past e le
        (by rcases gives with gaveUp | ⟨_, _, acted, _⟩ <;> simp [*]) lawful.of_concat.1
      obtain ⟨rest, known⟩ := System.known_of_reachable reachable
        (le.subset (List.mem_append_right _ (List.mem_singleton_self e)))
      obtain ⟨caller, deed⟩ := e
      subst mine here
      -- A call that gives up the lock, or gives it back, has counted nothing then but what it has rebuilt.
      have loose : d.Loose past (Trace.pending caller past) ∧
          (Trace.replays (past ++ [⟨caller, deed⟩]) caller.place).pending =
            (Trace.replays past caller.place).pending := by
        rw [Trace.replays_concat rfl]
        rcases gives with gaveUp | ⟨x, answer, acted, gives⟩
        · obtain rfl : deed = .gaveUp := gaveUp
          cases of with
          | gaveUp ends => cases action <;> first | exact ⟨owed, rfl⟩ | exact ends.elim
        · obtain rfl : deed = .acted (.touch x) answer := acted
          cases of
          cases x <;> cases gives
          exact ⟨owed, rfl⟩
      rw [loose.2, pending_eq_of_held reachable known early held]
      exact loose.1.mono (List.prefix_append _ _)

/-- Every count of replayed records says by how many records the cache has gone on, and how many were rebuilt in
vain. -/
theorem replays_counted : d.ReplaysCounted s.trace := by
  refine ⟨Trace.recordsReplayed_eq s.trace, ?_, fun past place le free => loose_of_free reachable le free⟩
  intro past e slot answer le acted
  have folds : d.Folds (conduct M R) e.caller past slot (Trace.pending e.caller past) :=
    booked_of_reachable reachable le acted
  have guarded := ((secure_of_reachable reachable).lawful.of_le le).of_concat.2.2.guarded _ _ acted
  obtain ⟨rest, known⟩ := System.known_of_reachable reachable
    (le.subset (List.mem_append_right _ (List.mem_singleton_self e)))
  rwa [pending_eq_of_held reachable known ((List.prefix_append _ _).trans le) (guarded .cache rfl)]

end Runs

/-- One instance writes and compacts, and something that is no record lands after its snapshot. Another one, which has
read the first record, is behind all that: its recovery fails once it has counted the snapshot. -/
def spoiled : List (Move (Operation Model.bytes)) := List.flatten [
  Move.run ⟨0, 0, .createSegment⟩ 1,
  Move.run ⟨1, 0, .establish [1]⟩ 12,
  Move.run ⟨2, 1, .getState⟩ 20,
  Move.run ⟨3, 0, .updateState⟩ 30,
  Move.run ⟨4, 0, .compact⟩ 45,
  Move.run ⟨5, 2, .writeBytes none [255]⟩ 5,
  Move.run ⟨6, 1, .fetchUpdates⟩ 30]

def fetchFailed (place : Nat) (cause : CoreError) :
    Call Model.bytes Unit (Operation Model.bytes) (Result Model.bytes Unit) → Bool
  | ⟨⟨_, here, .fetchUpdates⟩, .done (.error cause')⟩ => decide (here = place ∧ cause' = cause)
  | _ => false

theorem spoiled_counted : ofBytes.ReplaysCounted (playBytes 2 spoiled).trace ∧
    (playBytes 2 spoiled).Returned ⟨6, 1, .fetchUpdates⟩ (.error (.encoding (.unknownTag 255))) ∧
    ((playBytes 2 spoiled).trace.cache 1).map (·.revision) = some ⟨ofBytes.segment, 6, 1⟩ ∧
    ((playBytes 2 spoiled).trace.replays 1).kept = 1 ∧ ((playBytes 2 spoiled).trace.replays 1).pending = 1 := by
  have reachable := reachable_playBytes 2 spoiled
  refine ⟨replays_counted reachable, ?_, by decide +kernel, by decide +kernel, by decide +kernel⟩
  refine System.returned_of_any reachable (fetchFailed 1 (.encoding (.unknownTag 255))) (fun call checked => ?_)
    (by decide +kernel)
  unfold fetchFailed at checked
  split at checked
  · obtain ⟨rfl, rfl⟩ := of_decide_eq_true checked
    exact ⟨rfl, rfl, rfl⟩
  · cases checked

/-- What a replica counts is more than what its cache has gone on by, once a recovery has failed. -/
theorem replayed_in_vain : ¬∀ s : System Model.bytes Unit (Operation Model.bytes) (Result Model.bytes Unit),
    ofBytes.Reachable Unit s → s.Idle → ∀ place,
      ((World.after s.trace).memories place).stats.recordsReplayed = (s.trace.replays place).kept := by
  intro all
  have reachable := reachable_playBytes 2 spoiled
  have idle : (playBytes 2 spoiled).Idle := fun id call here =>
    Call.exists_of_isDone (System.forall_calls reachable Call.isDone (by decide +kernel) here)
  have counted := all _ reachable idle 1
  revert counted
  decide +kernel

end Deployment

end LogReplica
