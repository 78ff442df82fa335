import LogReplica.Proofs.Replica.Runs

namespace LogReplica

variable {M : Model} {R O : Type}

/-- An error that blames the log, the positions that the caller had or the mark. -/
def CoreError.Damning : CoreError → Prop
  | orphanUpdates _ | negativeMark _ | attributeRange _ | unexpectedConflict _ => True
  | service (.invalidOffset ..) => True
  | markRegression .. | segmentMismatch .. => True
  | _ => False

namespace Deployment

variable {d : Deployment M} {ρ : Conduct M R O} {t past : Trace M R O}

def Opens (d : Deployment M) (t : Trace M R O) (offset : Nat) : Prop :=
  offset ∈ (Trace.buffer d.segment t).index.toList ∧
    ∃ e snapshot, (Trace.buffer d.segment t).entryAt offset = .ok e ∧ d.codec.decode e.data = .ok (.init snapshot)

/-- How the mark, the oldest position and the entries lie. -/
structure Layout (d : Deployment M) (t : Trace M R O) : Prop where
  unset : d.mark t = none → d.oldest t = 0
  set : ∀ value, d.mark t = some value → ∃ offset : Nat, value = offset ∧ d.oldest t ≤ offset ∧
    offset < (Trace.buffer d.segment t).tail ∧ d.Opens t offset
  /-- Once there is a record, a fresh reader starts at a snapshot. -/
  restart : d.log t ≠ [] → (∀ offset : Nat, d.mark t = some (offset : Int) → d.Opens t offset) ∧
    (d.mark t = none → d.Opens t (d.oldest t))

theorem SnapshotAt.opens (lawful : Lawful (d.law ρ) t) {offset : Nat} (found : d.SnapshotAt (d.log t) offset)
    (high : d.oldest t ≤ offset) : d.Opens t offset := by
  obtain ⟨e, member, rfl, snapshot, decoded⟩ := found
  obtain ⟨entry, indexed⟩ := (lawful.logs d.segment).entryAt_of_start_le member high
  exact ⟨indexed, e, snapshot, entry, decoded⟩

namespace Shape

variable (shape : d.Shape t)

include shape

theorem of_mark {value : Int} (marked : d.mark t = some value) :
    ∃ offset : Nat, value = offset ∧ d.oldest t ≤ offset ∧ d.SnapshotAt (d.log t) offset := by
  rcases shape.mark with ⟨none, _⟩ | ⟨offset, set, low, found⟩
  · rw [none] at marked
    cases marked
  · rw [set] at marked
    cases marked
    exact ⟨offset, rfl, low, found⟩

theorem snapshotAt_zero (lawful : Lawful (d.law ρ) t) (written : d.log t ≠ []) : d.SnapshotAt (d.log t) 0 := by
  have chain := log_chain lawful
  obtain ⟨first, rest, split⟩ := List.exists_cons_of_ne_nil written
  obtain ⟨state, folded⟩ := shape.states [first] (split ▸ List.cons_prefix_cons.mpr ⟨rfl, List.nil_prefix⟩)
    (List.cons_ne_nil _ _)
  rw [split] at chain ⊢
  exact ⟨first, List.mem_cons_self, chain.1, isSnapshot_of_fold folded⟩

theorem snapshotAt_of_restartAt (lawful : Lawful (d.law ρ) t) (written : d.log t ≠ []) {offset : Nat}
    (restart : d.RestartAt t offset) : d.SnapshotAt (d.log t) offset := by
  rcases restart with marked | rfl
  · obtain ⟨_, same, _, found⟩ := shape.of_mark marked
    cases same
    exact found
  · rcases shape.oldest with zero | found
    · rw [zero]
      exact shape.snapshotAt_zero lawful written
    · exact found

theorem snapshotAt_of_earlier {start : Trace M R O} (lawful : Lawful (d.law ρ) t) (written : d.log t ≠ [])
    (le : start <+: t) (before : d.Shape start) {offset : Nat} (restart : d.RestartAt start offset) :
    d.SnapshotAt (d.log t) offset := by
  by_cases empty : d.log start = []
  · have nowhere : ∀ position, ¬d.SnapshotAt (d.log start) position := by
      rintro position ⟨e, member, _⟩
      rw [empty] at member
      cases member
    rcases restart with marked | rfl
    · obtain ⟨_, _, _, found⟩ := before.of_mark marked
      exact absurd found (nowhere _)
    · rw [before.oldest.resolve_right (nowhere _)]
      exact shape.snapshotAt_zero lawful written
  · have found := before.snapshotAt_of_restartAt (lawful.of_le le) empty restart
    exact found.mono (Trace.history_le _ le)

theorem layout (lawful : Lawful (d.law ρ) t) : d.Layout t := by
  refine ⟨?_, ?_, fun written => ⟨?_, ?_⟩⟩
  · intro unset
    rcases shape.mark with ⟨_, zero⟩ | ⟨offset, set, _⟩
    · exact zero
    · rw [unset] at set
      cases set
  · intro value marked
    obtain ⟨offset, rfl, low, found⟩ := shape.of_mark marked
    exact ⟨offset, rfl, low, tail_eq lawful ▸ found.lt_ending (log_chain lawful), found.opens lawful low⟩
  · intro offset marked
    obtain ⟨_, same, low, found⟩ := shape.of_mark marked
    cases same
    exact found.opens lawful low
  · intro _
    exact (shape.snapshotAt_of_restartAt lawful written (.inr rfl)).opens lawful (Nat.le_refl _)

end Shape

theorem moved_of_mark (lawful : Lawful (d.law ρ) t) (clean : Clean ρ t) {offset : Nat}
    (marked : d.mark t = some (offset : Int)) :
    ∃ e ∈ t, e.Moves d.segment offset ∧ ρ.compacts e.caller.operation := by
  induction lawful with
  | nil => cases marked
  | @concat past e lawful fits obeys ih =>
    have earlier : d.mark past = some (offset : Int) →
        ∃ x ∈ past ++ [e], x.Moves d.segment offset ∧ ρ.compacts x.caller.operation := by
      intro marked
      obtain ⟨x, member, moves⟩ := ih (clean.of_le (List.prefix_append _ _)) marked
      exact ⟨x, List.mem_append_left _ member, moves⟩
    cases turn_of_lawful (.concat lawful fits obeys) (clean e (by simp)) with
    | kept mark => exact earlier (mark.symm.trans marked)
    | truncated _ _ _ mark => exact earlier (mark.symm.trans marked)
    | swapped target compacts moves _ _ _ mark =>
      obtain rfl : target = offset := by
        rw [mark] at marked
        cases marked
        rfl
      exact ⟨e, by simp, moves, compacts⟩

theorem Blame.not_damning (trips : d.codec.RoundTrips) {me : Caller O} {t' : Trace M R O} {cause : CoreError}
    (blame : d.Blame ρ me t t' cause) (lawful : Lawful (d.law ρ) t') (clean : Clean ρ t') (polite : ¬ρ.raw me.operation)
    (small : (Trace.buffer d.segment t').tail < 2 ^ 63)
    (honest : ∀ named offset tail, .invalidOffset named offset tail ∉ t'.failures) : ¬cause.Damning := by
  have shapeOf : ∀ {past}, past <+: t' → Lawful (d.law ρ) past ∧ d.Shape past := fun le =>
    ⟨lawful.of_le le, shape trips (lawful.of_le le) (clean.of_le le)⟩
  -- What a damning error would say of the positions contradicts their shape at the instant it blames.
  cases blame with
  | failed request cause happened =>
    intro damning
    cases cause with
    | invalidOffset named offset tail => exact honest named offset tail (List.mem_filterMap.mpr ⟨_, happened, rfl⟩)
    | _ => exact damning
  | misplaced offset tail start past early by_ marked apart =>
    exfalso
    obtain ⟨before, shape⟩ := shapeOf (early.trans by_)
    obtain ⟨_, same, _, found⟩ := shape.of_mark marked
    cases same
    obtain ⟨front, le, ends⟩ := found.boundary (log_chain before)
    exact apart front (le.trans (Trace.history_le _ early)) ends
  | orphan revision e start by_ restart member other =>
    exfalso
    have written : d.log t' ≠ [] := List.ne_nil_of_mem member
    obtain ⟨e', member', begins, snapshot⟩ := (shapeOf (List.prefix_refl _)).2.snapshotAt_of_earlier lawful written by_
      (shapeOf by_).2 restart
    rw [(log_chain lawful).eq_of_offset_eq member member' begins.symm] at other
    exact other snapshot
  | negativeMark value past by_ marked negative =>
    obtain ⟨_, shape⟩ := shapeOf by_
    obtain ⟨offset, rfl, _⟩ := shape.of_mark marked
    exact absurd negative (Int.not_lt.mpr (Int.natCast_nonneg offset))
  | outOfRange offset past by_ large inside =>
    have grows := ending_mono lawful by_
    rw [tail_eq lawful] at small
    omega
  | raw raw cause => exact absurd raw polite
  | _ => exact id

variable {s : System M R (Operation M) (Result M R)}

theorem oldest_of_settled (secure : s.Secure (d.law (conduct M R)) d.Promise) (shape : d.Shape s.trace)
    (clean : Clean (conduct M R) s.trace)
    (done : ∀ id call, s.calls id = some call → call.caller.operation = .compact → ∃ result, call.rest = .done result)
    (undisturbed : ∀ caller : Caller (Operation M), caller.operation = .compact → ¬s.trace.Interrupted caller) :
    d.mark s.trace = some (d.oldest s.trace : Int) ∨ d.mark s.trace = none ∧ d.oldest s.trace = 0 := by
  rcases shape.mark with unset | ⟨offset, marked, low, _⟩
  · exact .inr unset
  -- Whoever has moved the mark there was a compaction, which has ended, and so has cut the log off or was interrupted.
  · obtain ⟨e, member, moves, compacts⟩ := moved_of_mark secure.lawful clean marked
    obtain ⟨rest, here⟩ := secure.known e member
    obtain ⟨result, rfl⟩ := done _ _ here compacts
    obtain ⟨t, waited, raw | ⟨settled, _⟩⟩ := secure.returned here
    · exact absurd raw (clean e member)
    · have inside : e ∈ t := by
        obtain ⟨⟨more, whole, own⟩, _⟩ := waited
        rw [whole] at member
        exact (List.mem_append.mp member).resolve_right fun later => own e later rfl
      rcases settled e inside rfl offset moves with cut | interrupted
      · have high := Nat.le_trans cut (oldest_le waited.lawful waited.le)
        rw [Nat.le_antisymm low high]
        exact .inl marked
      · exact absurd (interrupted.mono waited.le) (undisturbed e.caller compacts)

/-- In every run of replicas alone the mark is unset and nothing is truncated, or it is at a retained
snapshot before the tail. The log begins at the mark if no compaction is in flight, nothing has failed
and no compaction was closed midway. No call fails for the state of the log or of the mark. -/
theorem layout_of_reachable (updates : d.updates.RoundTrips) (snapshots : d.snapshots.RoundTrips)
    (reachable : d.Reachable R s) (polite : Polite s) : d.Layout s.trace ∧
    ((∀ id call, s.calls id = some call → call.caller.operation = .compact → ∃ result, call.rest = .done result) →
      s.trace.failures = [] →
      (∀ caller : Caller (Operation M), caller.operation = .compact → ¬s.trace.ClosedMidway caller) →
      d.mark s.trace = some (d.oldest s.trace : Int) ∨ d.mark s.trace = none ∧ d.oldest s.trace = 0) ∧
    ((Trace.buffer d.segment s.trace).tail < 2 ^ 63 →
      (∀ named offset tail, .invalidOffset named offset tail ∉ s.trace.failures) →
      ∀ caller cause, s.Returned caller (.error cause) → ¬cause.Damning) := by
  have secure := secure_of_reachable reachable
  have clean := polite.clean secure
  have trips : d.codec.RoundTrips := Frame.codec_roundTrips updates snapshots
  have shape := shape trips secure.lawful clean
  refine ⟨shape.layout secure.lawful, ?_, ?_⟩
  · intro done served open'
    refine oldest_of_settled secure shape clean done ?_
    rintro caller compacts (⟨e, member, _, failed⟩ | midway)
    · rw [List.filterMap_eq_nil_iff.mp served e member] at failed
      cases failed
    · exact open' caller compacts midway
  · intro small honest caller cause returned
    obtain ⟨t, waited, raw | ⟨_, past, le, blame⟩⟩ := secure.returned returned
    · exact absurd raw (polite _ _ returned)
    · have blame : d.Blame (conduct M R) caller _ t cause := blame
      exact (blame.later waited.le).not_damning trips secure.lawful clean (polite _ _ returned) small honest

/-- Two compactions. The first one has moved the mark when the second one runs from its beginning to its
end, and truncates after it. -/
def rivals : List (Move (Operation Model.bytes)) := List.flatten [
  Move.run ⟨0, 0, .createSegment⟩ 1,
  Move.run ⟨1, 0, .establish [1]⟩ 12,
  Move.run ⟨2, 0, .compact⟩ 20,
  Move.run ⟨3, 1, .compact⟩ 40,
  Move.steps 2 5]

theorem rivals_layout : ofBytes.Sound ∧ ofBytes.Reachable Unit (playBytes 2 rivals) ∧ Polite (playBytes 2 rivals) ∧
    ofBytes.Layout (playBytes 2 rivals).trace ∧ ofBytes.mark (playBytes 2 rivals).trace = some 12 ∧
    ofBytes.oldest (playBytes 2 rivals).trace = 12 ∧
    ∀ caller cause, (playBytes 2 rivals).Returned caller (.error cause) → ¬cause.Damning := by
  have reachable := reachable_playBytes 2 rivals
  have polite : Polite (playBytes 2 rivals) := polite_of_all reachable (by decide +kernel)
  have done : ∀ id call, (playBytes 2 rivals).calls id = some call → call.caller.operation = .compact →
      ∃ result, call.rest = .done result := fun id call here _ =>
    Call.exists_of_isDone (System.forall_calls reachable Call.isDone (by decide +kernel) here)
  have served : (playBytes 2 rivals).trace.failures = [] := by decide +kernel
  have unclosed : ((playBytes 2 rivals).trace.all fun e => !e.closes) = true := by decide +kernel
  have small : (Trace.buffer ofBytes.segment (playBytes 2 rivals).trace).tail < 2 ^ 63 := by decide +kernel
  have marked : ofBytes.mark (playBytes 2 rivals).trace = some 12 := by decide +kernel
  obtain ⟨layout, settled, innocent⟩ :=
    layout_of_reachable ofBytes_sound.updates ofBytes_sound.snapshots reachable polite
  have open' : ∀ caller : Caller (Operation Model.bytes), caller.operation = .compact →
      ¬(playBytes 2 rivals).trace.ClosedMidway caller := by
    rintro caller _ ⟨before, e, after, split, _, closes, _⟩
    have opened := List.all_eq_true.mp unclosed e (split ▸ by simp)
    rw [closes] at opened
    cases opened
  have oldest : ofBytes.oldest (playBytes 2 rivals).trace = 12 := by
    rcases settled done served open' with same | ⟨unset, _⟩
    · exact Int.ofNat.inj (Option.some.inj (same.symm.trans marked))
    · rw [unset] at marked
      cases marked
  exact ⟨ofBytes_sound, reachable, polite, layout, marked, oldest, innocent small (by rw [served]; simp)⟩

end Deployment

end LogReplica
