import LogReplica.Proofs.Codec.Frame
import LogReplica.Proofs.Concurrency.Safety
import LogReplica.Replica

namespace LogReplica

/-- Updates and snapshots take no notice of how a reader has numbered the records. -/
structure Model.Positional (M : Model) : Prop where
  apply : ∀ update state (a b : Revision), a.SamePosition b → M.apply update state a = M.apply update state b
  create : ∀ snapshot name (a b : Revision), a.SamePosition b → M.create snapshot name a = M.create snapshot name b

namespace Record

variable {M : Model} (positional : M.Positional) {a b : Revision} (same : a.SamePosition b)

include positional same

theorem foldUpdates_eq (batch : List M.Update) (state : M.State) :
    foldUpdates batch state a = foldUpdates batch state b := by
  induction batch generalizing state with
  | nil => rfl
  | cons update batch ih =>
    simp only [foldUpdates, List.foldl_cons] at ih ⊢
    rw [positional.apply update state a b same]
    exact ih _

theorem apply_eq (record : M.Record) (state : Option M.State) (name : String) :
    (record.apply state name a).toOption = (record.apply state name b).toOption := by
  cases record with
  | init snapshot => simp only [apply, positional.create snapshot name a b same]
  | updates batch =>
    cases state with
    | none => rfl
    | some state => simp only [apply, foldUpdates_eq positional same]

end Record

/-- A segment with one form of its records, for the replicas at all places. -/
structure Deployment (M : Model) where
  segment : SegmentId
  updates : Codec M.Update
  snapshots : Codec M.Snapshot
  readBuffer : Nat → Nat
  retry : Nat → RetryPolicy

namespace Deployment

variable {M : Model} (d : Deployment M)

def codec : Codec M.Record := Frame.codec d.updates d.snapshots

def client (place : Nat) : Client M.Record := ⟨d.segment, d.readBuffer place, d.codec⟩

def replica (place : Nat) : Replica M := ⟨d.client place, d.retry place⟩

def name : String := d.segment.scopedStreamName

def after (e : Entry) : Revision := ⟨d.segment, e.endOffset, 0⟩

/-- Payloads read back as they were written, and only the positions of records matter. -/
structure Sound : Prop where
  updates : d.updates.RoundTrips
  snapshots : d.snapshots.RoundTrips
  positional : M.Positional

theorem Sound.roundTrips {d : Deployment M} (sound : d.Sound) : d.codec.RoundTrips :=
  Frame.codec_roundTrips sound.updates sound.snapshots

def advance (state : Option M.State) (e : Entry) : Option M.State :=
  match d.codec.decode e.data with
  | .ok record => (record.apply state d.name (d.after e)).toOption
  | .error _ => none

/-- The state that a log stands for: a snapshot starts it anew. -/
def fold (log : List Entry) : Option M.State := log.foldl d.advance none

def IsSnapshot (e : Entry) : Prop := ∃ snapshot, d.codec.decode e.data = .ok (.init snapshot)

def SnapshotAt (log : List Entry) (offset : Nat) : Prop := ∃ e ∈ log, e.offset = offset ∧ d.IsSnapshot e

def replay (state : M.State) (written : List (Entry × List M.Update)) : M.State :=
  written.foldl (fun state item => Record.foldUpdates item.2 state (d.after item.1)) state

def HoldBatches (written : List (Entry × List M.Update)) : Prop :=
  ∀ item ∈ written, d.codec.decode item.1.data = .ok (.updates item.2)

variable {d}

@[simp] theorem fold_concat (log : List Entry) (e : Entry) : d.fold (log ++ [e]) = d.advance (d.fold log) e := by
  simp only [fold, List.foldl_append, List.foldl_cons, List.foldl_nil]

theorem advance_of_decode {e : Entry} {record : M.Record} (decoded : d.codec.decode e.data = .ok record)
    (state : Option M.State) : d.advance state e = (record.apply state d.name (d.after e)).toOption := by
  simp only [advance, decoded]

theorem advance_snapshot {e : Entry} {snapshot : M.Snapshot}
    (decoded : d.codec.decode e.data = .ok (.init snapshot)) (state : Option M.State) :
    d.advance state e = some (M.create snapshot d.name (d.after e)) :=
  advance_of_decode decoded state

theorem advance_batch {e : Entry} {batch : List M.Update}
    (decoded : d.codec.decode e.data = .ok (.updates batch)) (state : Option M.State) :
    d.advance state e = state.map fun state => Record.foldUpdates batch state (d.after e) := by
  rw [advance_of_decode decoded]
  cases state <;> rfl

theorem foldl_batches {written : List (Entry × List M.Update)} (batches : d.HoldBatches written) (state : M.State) :
    (written.map Prod.fst).foldl d.advance (some state) = some (d.replay state written) := by
  induction written generalizing state with
  | nil => rfl
  | cons item rest ih =>
    rw [List.map_cons, List.foldl_cons, advance_batch (batches item (List.mem_cons_self ..)), Option.map_some]
    exact ih (fun other member => batches other (List.mem_cons_of_mem _ member)) _

/-- A log stands for a state if and only if it has a snapshot with nothing but batches after it. -/
theorem fold_eq_some_iff {log : List Entry} {state : M.State} : d.fold log = some state ↔
    ∃ before e snapshot written, log = before ++ e :: written.map Prod.fst ∧
      d.codec.decode e.data = .ok (.init snapshot) ∧ d.HoldBatches written ∧
      state = d.replay (M.create snapshot d.name (d.after e)) written := by
  constructor
  · intro folded
    induction log using List.reverseRecOn generalizing state with
    | nil => cases folded
    | append_singleton log last ih =>
      rw [fold_concat] at folded
      cases decoded : d.codec.decode last.data with
      | error cause => simp only [advance, decoded] at folded; cases folded
      | ok record =>
        cases record with
        | init snapshot =>
          rw [advance_snapshot decoded] at folded
          cases folded
          refine ⟨log, last, snapshot, [], rfl, decoded, ?_, rfl⟩
          intro item member
          cases member
        | updates batch =>
          rw [advance_batch decoded, Option.map_eq_some_iff] at folded
          obtain ⟨earlier, folded, rfl⟩ := folded
          obtain ⟨before, e, snapshot, written, rfl, begins, batches, rfl⟩ := ih folded
          refine ⟨before, e, snapshot, written ++ [(last, batch)], by simp, begins, ?_, by simp [replay]⟩
          intro item member
          rcases List.mem_append.mp member with member | member
          · exact batches item member
          · rw [List.mem_singleton.mp member]
            exact decoded
  · rintro ⟨before, e, snapshot, written, rfl, begins, batches, rfl⟩
    rw [fold, List.foldl_append, List.foldl_cons, advance_snapshot begins]
    exact foldl_batches batches _

theorem SnapshotAt.mono {log log' : List Entry} {offset : Nat} (found : d.SnapshotAt log offset) (le : log <+: log') :
    d.SnapshotAt log' offset := by
  obtain ⟨e, member, begins, snapshot⟩ := found
  exact ⟨e, le.subset member, begins, snapshot⟩

variable (d) in
/-- A copy that is what the log up to its revision stands for. Its ordinal counts at most as many
records as there are bytes. -/
structure Canonical (log : List Entry) (copy : Revisioned M.State) : Prop where
  segment : copy.revision.segment = d.segment
  numbered : copy.revision.event ≤ copy.revision.offset
  through : ∃ through, through <+: log ∧ ending 0 through = copy.revision.offset ∧ d.fold through = some copy.state

theorem Canonical.fold_of_ending {log : List Entry} {copy : Revisioned M.State} (canonical : d.Canonical log copy)
    (chain : Contiguous 0 log) {front : List Entry}
    (le : front <+: log) (ends : ending 0 front = copy.revision.offset) : d.fold front = some copy.state := by
  obtain ⟨_, _, through, le', ends', folded⟩ := canonical
  rw [chain.prefix_eq le le' (ends.trans ends'.symm), folded]

variable (d) in
/-- A copy that ends where a record of the log ends. Only with sound payloads is its state known too. -/
structure Placed (log : List Entry) (copy : Revisioned M.State) : Prop where
  segment : copy.revision.segment = d.segment
  numbered : copy.revision.event ≤ copy.revision.offset
  through : ∃ through, through ≠ [] ∧ through <+: log ∧ ending 0 through = copy.revision.offset ∧
    (d.Sound → d.fold through = some copy.state)

namespace Placed

variable {log log' : List Entry} {copy : Revisioned M.State}

theorem canonical (placed : d.Placed log copy) (sound : d.Sound) : d.Canonical log copy := by
  obtain ⟨segment, numbered, through, _, front, ends, folded⟩ := placed
  exact ⟨segment, numbered, through, front, ends, folded sound⟩

theorem mono (placed : d.Placed log copy) (le : log <+: log') : d.Placed log' copy := by
  obtain ⟨segment, numbered, through, written, front, ends, folded⟩ := placed
  exact ⟨segment, numbered, through, written, front.trans le, ends, folded⟩

theorem offset_le (placed : d.Placed log copy) (chain : Contiguous 0 log) : copy.revision.offset ≤ ending 0 log := by
  obtain ⟨_, _, through, _, ⟨rest, rfl⟩, ends, _⟩ := placed
  rw [← ends, ending_append]
  exact chain.right.le_ending

end Placed

end Deployment

end LogReplica
