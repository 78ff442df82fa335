import LogReplica.Proofs.Replica.Runs

namespace LogReplica

variable {M : Model} {R : Type}

namespace Deployment

variable {d : Deployment M}

/-- A copy is the fold of a stretch of the log: of a snapshot and of all records after it, none of which
is a snapshot, up to one that ends at the revision of the copy. -/
structure Replayed (d : Deployment M) (log : List Entry) (copy : Revisioned M.State) : Prop where
  segment : copy.revision.segment = d.segment
  stretch : ∃ before first snapshot written after, log = before ++ (first :: written.map Prod.fst) ++ after ∧
    d.codec.decode first.data = .ok (.init snapshot) ∧ d.HoldBatches written ∧
    ((first :: written.map Prod.fst).getLast (List.cons_ne_nil _ _)).endOffset = copy.revision.offset ∧
    copy.state = d.replay (M.create snapshot d.name (d.after first)) written

theorem ending_eq_of_getLast (start : Nat) {entries : List Entry} (nonempty : entries ≠ []) :
    ending start entries = (entries.getLast nonempty).endOffset :=
  ending_eq_of_getLast? start (List.getLast?_eq_some_getLast nonempty)

theorem Canonical.replayed {log : List Entry} {copy : Revisioned M.State} (canonical : d.Canonical log copy) :
    d.Replayed log copy := by
  obtain ⟨segment, _, through, ⟨after, split⟩, ends, folded⟩ := canonical
  obtain ⟨before, first, snapshot, written, rfl, begins, batches, same⟩ := fold_eq_some_iff.mp folded
  refine ⟨segment, before, first, snapshot, written, after, split.symm, begins, batches, ?_, same⟩
  rw [← ending_eq_of_getLast (ending 0 before), ← ending_append]
  exact ends

/-- In every state of every run each copy is what the log stands for where the copy ends, and copies
that end at the same position are the same. -/
theorem copies_replayed (sound : d.Sound) {s : System M R (Operation M) (Result M R)} (reachable : d.Reachable R s) :
    (∀ place copy, s.trace.cache place = some copy → d.Replayed (d.log s.trace) copy) ∧
    ∀ place place' copy copy', s.trace.cache place = some copy → s.trace.cache place' = some copy' →
      copy.revision.SamePosition copy'.revision → copy.state = copy'.state := by
  have lawful := (secure_of_reachable reachable).lawful
  refine ⟨fun place copy cached => (canonical sound lawful cached).replayed, ?_⟩
  intro place place' copy copy' cached cached' same
  obtain ⟨_, _, through, front, ends, folded⟩ := canonical sound lawful cached
  have folded' := (canonical sound lawful cached').fold_of_ending (log_chain lawful) front (ends.trans same.2)
  exact Option.some.inj (folded.symm.trans folded')

/-- A client appends a snapshot past the copies of two replicas and cuts the log off there. One of them
recovers from it; to the other one no request is served any more. -/
def meddling : List (Move (Operation Model.bytes)) := List.flatten [
  Move.run ⟨0, 0, .createSegment⟩ 1,
  Move.run ⟨1, 0, .establish [1]⟩ 12,
  Move.run ⟨2, 1, .getState⟩ 20,
  Move.run ⟨3, 0, .updateState⟩ 30,
  Move.run ⟨4, 2, .writeRecord none (.init [5])⟩ 3,
  Move.run ⟨5, 2, .truncateTo ⟨ofBytes.segment, 20, 0⟩⟩ 3,
  Move.run ⟨6, 1, .getState⟩ 40,
  Move.run ⟨7, 0, .fetchUpdates⟩ 3,
  [.fail 7 (.entryTooLarge 0), .act 7]]

theorem meddling_replayed : ofBytes.Sound ∧ ofBytes.Reachable Unit (playBytes 2 meddling) ∧
    ((playBytes 2 meddling).trace.cache 1).map (·.state) = some [5] ∧
    ∃ copy, (playBytes 2 meddling).trace.cache 0 = some copy ∧ copy.state = [1, 2] ∧
      ofBytes.Replayed (ofBytes.log (playBytes 2 meddling).trace) copy := by
  have replayed := copies_replayed ofBytes_sound (reachable_playBytes 2 meddling)
  have state : ((playBytes 2 meddling).trace.cache 0).map (·.state) = some [1, 2] := by decide +kernel
  obtain ⟨copy, cached, same⟩ := Option.map_eq_some_iff.mp state
  exact ⟨ofBytes_sound, reachable_playBytes 2 meddling, by decide +kernel, copy, cached, same, replayed.1 0 copy cached⟩

end Deployment

end LogReplica
