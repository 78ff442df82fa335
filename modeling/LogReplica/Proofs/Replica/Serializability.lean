import LogReplica.Proofs.Replica.Runs

namespace LogReplica

variable {M : Model} {R O : Type}

def Event.expected? (segment : SegmentId) (e : Event M R O) : Option Nat :=
  match e.deed with
  | .acted (.ask named (.append expected _)) (.ok (.appended _ _)) => if named = segment then expected else none
  | _ => none

theorem Event.expected?_of_quiet {segment : SegmentId} {e : Event M R O} (quiet : e.deed.Quiet segment) :
    e.expected? segment = none := by
  obtain ⟨caller, deed⟩ := e
  unfold expected?
  split
  · rename_i same
    rw [show deed = _ from same] at quiet
    exact if_neg quiet
  · rfl

namespace Deployment

variable {d : Deployment M}

theorem expected_ascending {ρ : Conduct M R O} {t : Trace M R O} (lawful : Lawful (d.law ρ) t) :
    (t.filterMap (Event.expected? d.segment)).Pairwise (· < ·) ∧
      ∀ position ∈ t.filterMap (Event.expected? d.segment), position < ending 0 (d.log t) := by
  -- What carries the order is that all tails asked for so far are below the end of the log.
  induction lawful with
  | nil =>
    refine ⟨.nil, ?_⟩
    intro position member
    cases member
  | @concat past e before fits obeys ih =>
    obtain ⟨ascending, below⟩ := ih
    have lawful := Lawful.concat before fits obeys
    have grows := ending_mono lawful (List.prefix_append past [e])
    have skip : e.expected? d.segment = none →
        ((past ++ [e]).filterMap (Event.expected? d.segment)).Pairwise (· < ·) ∧
          ∀ position ∈ (past ++ [e]).filterMap (Event.expected? d.segment),
            position < ending 0 (d.log (past ++ [e])) := by
      intro none
      rw [List.filterMap_append, List.filterMap_cons_none none, List.filterMap_nil, List.append_nil]
      exact ⟨ascending, fun position member => Nat.lt_of_lt_of_le (below position member) grows⟩
    cases fits.effect (before.logs d.segment) with
    | landed expected entry deed begins wanted logs start mark =>
      cases expected with
      | none => exact skip (by simp [Event.expected?, deed])
      | some tail =>
        have here : e.expected? d.segment = some tail := by simp [Event.expected?, deed]
        have landed : e.landed? d.segment = some entry := by simp [Event.landed?, deed]
        have reached := wanted tail rfl
        have ends : tail < ending 0 (d.log (past ++ [e])) := by
          have chain := log_chain lawful
          rw [log_of_landed past landed] at chain ⊢
          rw [ending_append, reached]
          exact chain.right.lt_ending (List.cons_ne_nil _ _)
        rw [List.filterMap_append, List.filterMap_cons_some here, List.filterMap_nil]
        refine ⟨List.pairwise_append.mpr ⟨ascending, List.pairwise_singleton _ _, ?_⟩, ?_⟩
        · intro position member other last
          rw [List.mem_singleton.mp last, reached]
          exact below position member
        · intro position member
          rcases List.mem_append.mp member with member | member
          · exact Nat.lt_of_lt_of_le (below position member) grows
          · rw [List.mem_singleton.mp member]
            exact ends
    | swapped key expected new deed => exact skip (by simp [Event.expected?, deed])
    | truncated offset deed => exact skip (by simp [Event.expected?, deed])
    | still quiet => exact skip (Event.expected?_of_quiet quiet)

/-- No write is lost, made twice or made of an old state. -/
structure Serializable (d : Deployment M) (t : Trace M R (Operation M)) : Prop where
  /-- What an update or a compaction lands was made by the caller's function, which the call asked last,
  of the state that the whole log before it stands for. -/
  computed : ∀ past e after entry, t = past ++ e :: after → e.landed? d.segment = some entry →
    e.caller.operation.Updates ∨ e.caller.operation = .compact →
    entry.offset = ending 0 (d.log past) ∧ ∃ state record, d.fold (d.log past) = some state ∧
      d.codec.decode entry.data = .ok record ∧ Answered past e.caller state record
  /-- No two conditional appends that landed wanted the same tail. -/
  unique : (t.filterMap (Event.expected? d.segment)).Nodup
  /-- The first record begins at 0, and each one where the record before it ends. -/
  gapless : Contiguous 0 (d.log t)

theorem writes_serializable (sound : d.Sound) {s : System M R (Operation M) (Result M R)}
    (reachable : d.Reachable R s) :
    d.Serializable s.trace := by
  have lawful := (secure_of_reachable reachable).lawful
  refine ⟨?_, (expected_ascending lawful).1.imp fun lt => Nat.ne_of_lt lt, log_chain lawful⟩
  intro past e after entry split landed writes
  rw [split] at lawful
  have lawful := lawful.of_le (⟨after, by simp⟩ : past ++ [e] <+: past ++ e :: after)
  obtain ⟨begins, record, encoded, founds | ⟨_, state, folded, answered⟩⟩ :=
    landing lawful (Operation.not_raw writes) landed
  · exact absurd founds.1 (Operation.not_founds writes)
  · exact ⟨begins, state, record, folded sound, sound.roundTrips _ _ encoded, answered⟩

/-- Updates at two places race for the position after the first snapshot. The one that appends second is
told of the conflict, and asks its function again. -/
def race : List (Move (Operation Model.bytes)) := List.flatten [
  Move.run ⟨0, 0, .createSegment⟩ 1,
  Move.run ⟨1, 0, .establish [1]⟩ 12,
  Move.run ⟨2, 0, .updateState⟩ 8,
  Move.run ⟨3, 1, .updateState⟩ 40,
  Move.steps 2 40]

theorem race_serializable : ofBytes.Sound ∧ ofBytes.Reachable Unit (playBytes 2 race) ∧
    (ofBytes.log (playBytes 2 race).trace).length = 3 ∧ ofBytes.Serializable (playBytes 2 race).trace :=
  ⟨ofBytes_sound, reachable_playBytes 2 race, by decide +kernel,
    writes_serializable ofBytes_sound (reachable_playBytes 2 race)⟩

end Deployment

end LogReplica
