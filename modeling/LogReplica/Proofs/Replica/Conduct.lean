import LogReplica.Proofs.Replica.Deployment

namespace LogReplica

variable {M : Model} {R O : Type}

structure Conduct (M : Model) (R O : Type) where
  /-- Operations on the segment itself, which write and truncate it as they like. -/
  raw : O → Prop
  /-- Operations that may write the first record. -/
  founds : O → Prop
  /-- Operations that may move the mark. -/
  compacts : O → Prop
  /-- What a call proposes for a state, as its own past has it. -/
  proposes : Trace M R O → Caller O → M.State → M.Record → Prop

/-- A change of the mark that neither unsets it nor moves it back; other attributes are left alone. -/
def Request.KeepsMark : Request → Prop
  | .compareAndSetAttribute key expected new => key = .mark ∧ (∀ value, new = some value → 0 ≤ value) ∧
    ∀ old, expected = some old → ∃ value, new = some value ∧ old ≤ value
  | _ => True

def Event.Moves (segment : SegmentId) (target : Nat) (e : Event M R O) : Prop :=
  ∃ expected, e.deed =
    .acted (.ask segment (.compareAndSetAttribute .mark expected (some (target : Int)))) (.ok true)

def NoOlder {S : Type} (old new : Option (Revisioned S)) : Prop :=
  ∀ copy, old = some copy → ∃ next, new = some next ∧ copy.revision.offset ≤ next.revision.offset

namespace NoOlder

variable {S : Type} {old new next : Option (Revisioned S)}

theorem refl (slot : Option (Revisioned S)) : NoOlder slot slot := fun copy here => ⟨copy, here, Nat.le_refl _⟩

theorem trans (first : NoOlder old new) (second : NoOlder new next) : NoOlder old next := by
  intro copy here
  obtain ⟨copy', there, le⟩ := first copy here
  obtain ⟨copy'', last, le'⟩ := second copy' there
  exact ⟨copy'', last, Nat.le_trans le le'⟩

end NoOlder

def SegmentError.Locates : SegmentError → Prop
  | truncated .. | invalidOffset .. => True
  | _ => False

/-- Requests that were not served say nothing about positions. -/
def Trace.Candid (t : Trace M R O) : Prop :=
  ∀ e ∈ t, ∀ segment request cause, e.deed = .failed segment request cause → ¬cause.Locates

theorem Trace.Candid.of_le {t past : Trace M R O} (candid : t.Candid) (le : past <+: t) : past.Candid :=
  fun e member => candid e (le.subset member)

namespace Deployment

variable (d : Deployment M)

abbrev log (t : Trace M R O) : List Entry := Trace.history d.segment t

abbrev oldest (t : Trace M R O) : Nat := Trace.oldest d.segment t

abbrev mark (t : Trace M R O) : Option Int := Trace.mark d.segment t

/-- A first snapshot, written where the caller once saw the log begin. -/
def Founds (ρ : Conduct M R O) (past : Trace M R O) (me : Caller O) (position : Nat) (record : M.Record) : Prop :=
  ρ.founds me.operation ∧ (∃ snapshot, record = .init snapshot) ∧ ∃ earlier, earlier <+: past ∧
    d.oldest earlier = position

def Follows (ρ : Conduct M R O) (past : Trace M R O) (me : Caller O) (position : Nat) (record : M.Record) : Prop :=
  ∃ through state, through ≠ [] ∧ through <+: d.log past ∧ ending 0 through = position ∧
    (d.Sound → d.fold through = some state) ∧ ρ.proposes past me state record

/-- The call has written a snapshot that begins at `target`, as far as snapshots read back as they were written. -/
def Wrote (past : Trace M R O) (me : Caller O) (target : Nat) : Prop :=
  ∃ e ∈ past, e.caller.call = me.call ∧ ∃ entry, e.landed? d.segment = some entry ∧ entry.offset = target ∧
    (d.codec.RoundTrips → d.IsSnapshot entry)

def Moved (past : Trace M R O) (me : Caller O) (target : Nat) : Prop :=
  ∃ e ∈ past, e.caller.call = me.call ∧ e.Moves d.segment target

/-- What a call of a replica may ask for. -/
def Permits (ρ : Conduct M R O) (past : Trace M R O) (me : Caller O) : Request → Prop
  | .append expected data => ∃ position record, expected = some position ∧ d.codec.encode record = .ok data ∧
    (d.Founds ρ past me position record ∨ d.Follows ρ past me position record)
  | .compareAndSetAttribute _ expected new => ρ.compacts me.operation ∧ ∃ target : Nat, new = some (target : Int) ∧
    (∀ old, expected = some old → old < target) ∧ d.Wrote past me target
  | .truncateBefore offset => d.Moved past me offset
  | _ => True

def law (ρ : Conduct M R O) : Law M R O := fun past me action =>
  match action with
  | .ask segment request => segment = d.segment ∧ request.KeepsMark ∧ (ρ.raw me.operation ∨ d.Permits ρ past me request)
  | .touch (.remember slot) => (∀ copy, slot = some copy → d.Placed (d.log past) copy) ∧
    NoOlder (past.cache me.place) slot
  | _ => True

variable {d} {ρ : Conduct M R O} {t t' past : Trace M R O} {e : Event M R O}

theorem log_concat (past : Trace M R O) (e : Event M R O) :
    d.log (past ++ [e]) = d.log past ++ (e.landed? d.segment).toList :=
  Trace.history_concat d.segment past e

theorem log_of_landed (past : Trace M R O) {entry : Entry} (landed : e.landed? d.segment = some entry) :
    d.log (past ++ [e]) = d.log past ++ [entry] := by
  rw [log_concat, landed, Option.toList_some]

theorem log_of_unlanded (past : Trace M R O) (unlanded : e.landed? d.segment = none) :
    d.log (past ++ [e]) = d.log past := by
  rw [log_concat, unlanded, Option.toList_none, List.append_nil]

theorem log_chain (lawful : Lawful (d.law ρ) t) : Contiguous 0 (d.log t) := (lawful.logs d.segment).chain

theorem tail_eq (lawful : Lawful (d.law ρ) t) : (Trace.buffer d.segment t).tail = ending 0 (d.log t) :=
  (lawful.logs d.segment).tail_eq

theorem ending_mono (lawful : Lawful (d.law ρ) t) (le : past <+: t) : ending 0 (d.log past) ≤ ending 0 (d.log t) := by
  have chain := log_chain lawful
  obtain ⟨rest, same⟩ := Trace.history_le d.segment le
  rw [log, log, ← same, ending_append]
  rw [log, ← same] at chain
  exact chain.right.le_ending

theorem oldest_le (lawful : Lawful (d.law ρ) t) (le : past <+: t) : d.oldest past ≤ d.oldest t := by
  induction lawful with
  | nil => exact Nat.le_of_eq (congrArg d.oldest (List.prefix_nil.mp le))
  | @concat before e lawful fits obeys ih =>
    rcases List.prefix_concat_iff.mp le with rfl | short
    · exact Nat.le_refl _
    · refine Nat.le_trans (ih short) ?_
      show (Trace.buffer d.segment before).start ≤ ((World.after (before ++ [e])).store.buffer d.segment).start
      rw [World.after_concat]
      cases fits.effect (lawful.logs d.segment) with
      | landed expected entry deed begins wanted logs start mark => exact Nat.le_of_eq start.symm
      | swapped key expected new deed found logs start mark => exact Nat.le_of_eq start.symm
      | truncated offset deed logs start mark => exact start ▸ Nat.le_max_left _ _
      | still quiet same => exact same ▸ Nat.le_refl _

theorem written_of_apart (lawful : Lawful (d.law ρ) t) (le : past <+: t) (apart : d.oldest past ≠ ending 0 (d.log t)) :
    d.log t ≠ [] := by
  intro empty
  have low := oldest_le lawful le
  have high := (lawful.logs d.segment).start_le
  rw [show Trace.history d.segment t = [] from empty] at high
  rw [empty] at apart
  exact apart (Nat.le_zero.mp (Nat.le_trans low high))

theorem placed (lawful : Lawful (d.law ρ) t) {place : Nat} {copy : Revisioned M.State}
    (cached : t.cache place = some copy) : d.Placed (d.log t) copy := by
  induction lawful with
  | nil => cases cached
  | @concat past e lawful fits obeys ih =>
    have le : d.log past <+: d.log (past ++ [e]) := Trace.history_le _ (List.prefix_append _ _)
    rcases Trace.cache_concat past e place with same | ⟨slot, answer, _, deed, now⟩
    · exact (ih (same ▸ cached)).mono le
    · simp only [Event.Obeys, deed] at obeys
      exact (obeys.2.1 copy (now.symm.trans cached)).mono le

theorem canonical (sound : d.Sound) (lawful : Lawful (d.law ρ) t) {place : Nat} {copy : Revisioned M.State}
    (cached : t.cache place = some copy) : d.Canonical (d.log t) copy := (placed lawful cached).canonical sound

theorem noOlder (lawful : Lawful (d.law ρ) t) (le : past <+: t) (place : Nat) :
    NoOlder (past.cache place) (t.cache place) := by
  induction lawful with
  | nil => exact List.prefix_nil.mp le ▸ .refl _
  | @concat before e lawful fits obeys ih =>
    rcases List.prefix_concat_iff.mp le with rfl | short
    · exact .refl _
    · refine (ih short).trans ?_
      rcases Trace.cache_concat before e place with same | ⟨slot, answer, here, deed, now⟩
      · exact same ▸ .refl _
      · simp only [Event.Obeys, deed] at obeys
        rw [now, ← here]
        exact obeys.2.2

theorem landing (lawful : Lawful (d.law ρ) (past ++ [e])) (polite : ¬ρ.raw e.caller.operation) {entry : Entry}
    (landed : e.landed? d.segment = some entry) : entry.offset = ending 0 (d.log past) ∧
      ∃ record, d.codec.encode record = .ok entry.data ∧ (d.Founds ρ past e.caller entry.offset record ∨
        d.log past ≠ [] ∧ ∃ state, (d.Sound → d.fold (d.log past) = some state) ∧
          ρ.proposes past e.caller state record) := by
  obtain ⟨before, _, obeys⟩ := lawful.of_concat
  obtain ⟨expected, deed, begins, wanted⟩ := lawful.append_of_landed landed
  simp only [Event.Obeys, deed] at obeys
  obtain ⟨position, record, rfl, encoded, basis⟩ := obeys.2.2.2.resolve_left polite
  obtain rfl := wanted position rfl
  refine ⟨begins, record, encoded, ?_⟩
  rcases basis with founds | ⟨through, state, written, front, ends, folded, proposed⟩
  · exact .inl founds
  · rw [(log_chain before).prefix_eq front (List.prefix_refl _) (ends.trans begins)] at written folded
    exact .inr ⟨written, state, folded, proposed⟩

theorem Wrote.entry {me : Caller O} {target : Nat} (wrote : d.Wrote past me target) :
    ∃ entry ∈ d.log past, entry.offset = target ∧ (d.codec.RoundTrips → d.IsSnapshot entry) := by
  obtain ⟨e, member, _, entry, landed, begins, snapshot⟩ := wrote
  exact ⟨entry, List.mem_filterMap.mpr ⟨e, member, landed⟩, begins, snapshot⟩

theorem Wrote.snapshotAt {me : Caller O} {target : Nat} (wrote : d.Wrote past me target) (trips : d.codec.RoundTrips) :
    d.SnapshotAt (d.log past) target := by
  obtain ⟨entry, member, begins, snapshot⟩ := wrote.entry
  exact ⟨entry, member, begins, snapshot trips⟩

theorem Wrote.lt_ending {me : Caller O} {target : Nat} (wrote : d.Wrote past me target)
    (chain : Contiguous 0 (d.log past)) : target < ending 0 (d.log past) := by
  obtain ⟨entry, member, rfl, _⟩ := wrote.entry
  exact (chain.offsets_ascending.2 entry member).2

theorem SnapshotAt.lt_ending {log : List Entry} {offset : Nat} (found : d.SnapshotAt log offset)
    (chain : Contiguous 0 log) : offset < ending 0 log := by
  obtain ⟨e, member, rfl, _⟩ := found
  exact (chain.offsets_ascending.2 e member).2

theorem SnapshotAt.boundary {log : List Entry} {offset : Nat} (found : d.SnapshotAt log offset)
    (chain : Contiguous 0 log) :
    ∃ before, before <+: log ∧ ending 0 before = offset := by
  obtain ⟨e, member, rfl, _⟩ := found
  exact chain.exists_front member

theorem isSnapshot_of_fold {e : Entry} {state : M.State} (folded : d.fold [e] = some state) : d.IsSnapshot e := by
  have folded : d.advance none e = some state := folded
  cases decoded : d.codec.decode e.data with
  | error cause => simp only [advance, decoded] at folded; cases folded
  | ok record =>
    cases record with
    | init snapshot => exact ⟨snapshot, decoded⟩
    | updates batch =>
      rw [advance_batch decoded] at folded
      cases folded

def Clean (ρ : Conduct M R O) (t : Trace M R O) : Prop := ∀ e ∈ t, ¬ρ.raw e.caller.operation

theorem Clean.of_le (clean : Clean ρ t) (le : past <+: t) : Clean ρ past :=
  fun e member => clean e (le.subset member)

theorem Moved.lt_ending {me : Caller O} {target : Nat} (moved : d.Moved past me target) (lawful : Lawful (d.law ρ) past)
    (clean : Clean ρ past) : target < ending 0 (d.log past) := by
  obtain ⟨e, member, _, expected, moves⟩ := moved
  have polite := clean e member
  obtain ⟨before, after, rfl⟩ := List.append_of_mem member
  have le : before ++ [e] <+: before ++ e :: after := by simp
  obtain ⟨lawful', _, obeys⟩ := (lawful.of_le le).of_concat
  simp only [Event.Obeys, moves] at obeys
  obtain ⟨_, target', same, _, wrote⟩ := obeys.2.2.2.resolve_left polite
  cases same
  exact Nat.lt_of_lt_of_le (wrote.lt_ending (log_chain lawful'))
    (ending_mono lawful ((List.prefix_append before [e]).trans le))

variable (d) in
/-- What a step of a replica does to the mark and to the oldest position, and on what grounds. -/
inductive Turn (ρ : Conduct M R O) (past : Trace M R O) (e : Event M R O) : Prop
  | kept (mark : d.mark (past ++ [e]) = d.mark past) (oldest : d.oldest (past ++ [e]) = d.oldest past)
    (unmoved : ∀ target, ¬e.Moves d.segment target)
  | swapped (target : Nat) (compacts : ρ.compacts e.caller.operation) (moves : e.Moves d.segment target)
    (ahead : ∀ old : Int, d.mark past = some old → old < target) (wrote : d.Wrote past e.caller target)
    (log : d.log (past ++ [e]) = d.log past) (mark : d.mark (past ++ [e]) = some (target : Int))
    (oldest : d.oldest (past ++ [e]) = d.oldest past)
  | truncated (offset : Nat) (moved : d.Moved past e.caller offset) (log : d.log (past ++ [e]) = d.log past)
    (mark : d.mark (past ++ [e]) = d.mark past) (oldest : d.oldest (past ++ [e]) = max (d.oldest past) offset)
    (unmoved : ∀ target, ¬e.Moves d.segment target)

theorem turn_of_lawful (lawful : Lawful (d.law ρ) (past ++ [e])) (polite : ¬ρ.raw e.caller.operation) :
    d.Turn ρ past e := by
  obtain ⟨_, _, obeys⟩ := lawful.of_concat
  have world : World.after (past ++ [e]) = (World.after past).note e := World.after_concat past e
  have steady : e.deed.Steady d.segment → d.Turn ρ past e := by
    intro steady
    obtain ⟨mark, oldest⟩ := lawful.unmoved_of_steady d.segment steady
    refine .kept mark oldest ?_
    rintro target ⟨_, moves⟩
    rw [moves] at steady
    exact steady rfl
  cases lawful.effect d.segment with
  | landed expected entry deed => exact steady (by rw [deed]; trivial)
  | still quiet => exact steady quiet.steady
  | swapped key expected new deed found logs start mark =>
    simp only [Event.Obeys, deed] at obeys
    obtain ⟨rfl, _, _⟩ := obeys.2.2.1
    obtain ⟨compacts, target, rfl, ahead, wrote⟩ := obeys.2.2.2.resolve_left polite
    refine .swapped target compacts ⟨expected, deed⟩ (fun old set => ahead old (found.symm.trans set)) wrote ?_ ?_ ?_
    · exact log_of_unlanded past (by simp [Event.landed?, deed])
    · rw [Deployment.mark, Trace.mark, world, mark, if_pos rfl]
    · rw [Deployment.oldest, Trace.oldest, Trace.buffer, world, start]
      rfl
  | truncated offset deed logs start mark =>
    simp only [Event.Obeys, deed] at obeys
    refine .truncated offset (obeys.2.2.2.resolve_left polite) ?_ ?_ ?_ ?_
    · exact log_of_unlanded past (by simp [Event.landed?, deed])
    · rw [Deployment.mark, Trace.mark, world, mark]
      rfl
    · rw [Deployment.oldest, Trace.oldest, Trace.buffer, world, start]
      rfl
    · rintro target ⟨_, other⟩
      cases deed.symm.trans other

variable (d) in
/-- Where fresh readers start, as far as only replicas write: at the very beginning, or where a record begins. -/
structure Begun (t : Trace M R O) : Prop where
  mark : ∀ offset : Nat, d.mark t = some (offset : Int) → offset < ending 0 (d.log t)
  oldest : d.oldest t = 0 ∨ d.oldest t < ending 0 (d.log t)

theorem begun (lawful : Lawful (d.law ρ) t) (clean : Clean ρ t) : d.Begun t := by
  induction lawful with
  | nil => exact ⟨nofun, .inl rfl⟩
  | @concat past e lawful fits obeys ih =>
    have early := clean.of_le (List.prefix_append past [e])
    have before := ih early
    have lawful' := Lawful.concat lawful fits obeys
    have le : ending 0 (d.log past) ≤ ending 0 (d.log (past ++ [e])) :=
      ending_mono lawful' (List.prefix_append _ _)
    have low : d.oldest past = 0 ∨ d.oldest past < ending 0 (d.log (past ++ [e])) :=
      before.oldest.imp_right fun lt => Nat.lt_of_lt_of_le lt le
    cases turn_of_lawful lawful' (clean e (by simp)) with
    | kept mark oldest =>
      exact ⟨fun offset set => Nat.lt_of_lt_of_le (before.mark offset (mark ▸ set)) le, oldest ▸ low⟩
    | swapped target _ _ _ wrote _ mark oldest =>
      refine ⟨fun offset set => ?_, oldest ▸ low⟩
      rw [mark] at set
      cases set
      exact Nat.lt_of_lt_of_le (wrote.lt_ending (log_chain lawful)) le
    | truncated offset moved _ mark oldest =>
      refine ⟨fun offset set => Nat.lt_of_lt_of_le (before.mark offset (mark ▸ set)) le, ?_⟩
      have inside := moved.lt_ending lawful early
      omega

theorem Begun.lt_of_restart {offset : Nat} (begun : d.Begun t)
    (restart : d.mark t = some (offset : Int) ∨ d.oldest t = offset) : offset = 0 ∨ offset < ending 0 (d.log t) := by
  rcases restart with marked | rfl
  · exact .inr (begun.mark offset marked)
  · exact begun.oldest

theorem Founds.unwritten {me : Caller O} {record : M.Record}
    (founds : d.Founds ρ past me (ending 0 (d.log past)) record) (lawful : Lawful (d.law ρ) past)
    (clean : Clean ρ past) : d.log past = [] := by
  by_contra written
  obtain ⟨_, _, earlier, le, begins⟩ := founds
  have inside := (log_chain lawful).lt_ending written
  have before := ending_mono lawful le
  rcases (begun (lawful.of_le le) (clean.of_le le)).oldest with zero | lt <;> omega

variable (d) in
structure Shape (t : Trace M R O) : Prop where
  states : ∀ front, front <+: d.log t → front ≠ [] → ∃ state, d.fold front = some state
  mark : (d.mark t = none ∧ d.oldest t = 0) ∨
    ∃ offset : Nat, d.mark t = some (offset : Int) ∧ d.oldest t ≤ offset ∧ d.SnapshotAt (d.log t) offset
  oldest : d.oldest t = 0 ∨ d.SnapshotAt (d.log t) (d.oldest t)
  moved : ∀ e ∈ t, ∀ target, e.Moves d.segment target →
    d.SnapshotAt (d.log t) target ∧ ∃ offset : Nat, d.mark t = some (offset : Int) ∧ target ≤ offset

namespace Shape

theorem grow (shape : d.Shape past) (le : d.log past <+: d.log t) (mark : d.mark t = d.mark past)
    (oldest : d.oldest t = d.oldest past)
    (states : ∀ front, front <+: d.log t → front ≠ [] → ∃ state, d.fold front = some state)
    (unmoved : ∀ e ∈ t, ∀ target, e.Moves d.segment target → e ∈ past) : d.Shape t := by
  refine ⟨states, ?_, ?_, ?_⟩
  · rw [mark, oldest]
    exact shape.mark.imp_right fun ⟨offset, set, low, found⟩ => ⟨offset, set, low, found.mono le⟩
  · rw [oldest]
    exact shape.oldest.imp_right fun found => found.mono le
  · intro e member target moves
    obtain ⟨found, offset, set, low⟩ := shape.moved e (unmoved e member target moves) target moves
    exact ⟨found.mono le, offset, mark ▸ set, low⟩

theorem swap (shape : d.Shape past) {target : Nat} (log : d.log t = d.log past) (oldest : d.oldest t = d.oldest past)
    (mark : d.mark t = some (target : Int)) (ahead : ∀ old : Int, d.mark past = some old → old < target)
    (found : d.SnapshotAt (d.log past) target)
    (moves : ∀ e ∈ t, ∀ other, e.Moves d.segment other → e ∈ past ∨ other = target) : d.Shape t := by
  refine ⟨?_, .inr ⟨target, mark, ?_, ?_⟩, ?_, ?_⟩
  · rw [log]
    exact shape.states
  · rw [oldest]
    rcases shape.mark with ⟨_, zero⟩ | ⟨offset, set, low, _⟩
    · omega
    · have := ahead offset set
      omega
  · rw [log]
    exact found
  · rw [log, oldest]
    exact shape.oldest
  · intro e member other moved
    rw [log]
    rcases moves e member other moved with member | rfl
    · obtain ⟨found, offset, set, low⟩ := shape.moved e member other moved
      have := ahead offset set
      exact ⟨found, target, mark, by omega⟩
    · exact ⟨found, other, mark, Nat.le_refl _⟩

theorem truncate (shape : d.Shape past) {me : Caller O} {offset : Nat} (log : d.log t = d.log past)
    (mark : d.mark t = d.mark past) (oldest : d.oldest t = max (d.oldest past) offset) (moved : d.Moved past me offset)
    (unmoved : ∀ e ∈ t, ∀ target, e.Moves d.segment target → e ∈ past) : d.Shape t := by
  obtain ⟨e, member, _, moves⟩ := moved
  obtain ⟨found, current, set, below⟩ := shape.moved e member offset moves
  refine ⟨?_, .inr ?_, ?_, ?_⟩
  · rw [log]
    exact shape.states
  · rw [log, mark, oldest]
    rcases shape.mark with ⟨none, _⟩ | ⟨value, set', low, found⟩
    · rw [none] at set
      cases set
    · rw [set'] at set
      cases set
      exact ⟨_, set', Nat.max_le.mpr ⟨low, below⟩, found⟩
  · rw [log, oldest]
    rcases Nat.le_total (d.oldest past) offset with le | le
    · rw [Nat.max_eq_right le]
      exact .inr found
    · rw [Nat.max_eq_left le]
      exact shape.oldest
  · intro x inTrace target moves
    obtain ⟨found, value, set, low⟩ := shape.moved x (unmoved x inTrace target moves) target moves
    exact ⟨log ▸ found, value, mark ▸ set, low⟩

end Shape

theorem exists_fold (trips : d.codec.RoundTrips) (lawful : Lawful (d.law ρ) t) (clean : Clean ρ t) (front : List Entry)
    (le : front <+: d.log t) (written : front ≠ []) : ∃ state, d.fold front = some state := by
  induction lawful generalizing front with
  | nil => exact absurd (List.prefix_nil.mp le) written
  | @concat past e lawful fits obeys ih =>
    have ih := ih (clean.of_le (List.prefix_append _ _))
    cases landed : e.landed? d.segment with
    | none => exact ih front (log_of_unlanded past landed ▸ le) written
    | some entry =>
      rw [log_of_landed past landed] at le
      rcases List.prefix_concat_iff.mp le with rfl | short
      swap
      · exact ih front short written
      -- The record that has landed is a first snapshot, or follows from the state of the log before it.
      obtain ⟨_, record, encoded, basis⟩ := landing (.concat lawful fits obeys) (clean e (by simp)) landed
      rw [fold_concat, advance_of_decode (trips record entry.data encoded)]
      rcases basis with ⟨_, ⟨snapshot, rfl⟩, _⟩ | ⟨written, _⟩
      · exact ⟨_, rfl⟩
      · obtain ⟨state, folded⟩ := ih _ (List.prefix_refl _) written
        rw [folded]
        cases record with
        | init snapshot => exact ⟨_, rfl⟩
        | updates batch => exact ⟨_, rfl⟩

theorem shape (trips : d.codec.RoundTrips) (lawful : Lawful (d.law ρ) t) (clean : Clean ρ t) : d.Shape t := by
  induction lawful with
  | nil => exact ⟨fun front le written => absurd (List.prefix_nil.mp le) written, .inl ⟨rfl, rfl⟩, .inl rfl, nofun⟩
  | @concat past e lawful fits obeys ih =>
    have before := ih (clean.of_le (List.prefix_append _ _))
    have lawful' := Lawful.concat lawful fits obeys
    have earlier : (∀ target, ¬e.Moves d.segment target) →
        ∀ x ∈ past ++ [e], ∀ target, x.Moves d.segment target → x ∈ past := by
      intro unmoved x member target moves
      rcases List.mem_append.mp member with member | member
      · exact member
      · exact absurd (List.mem_singleton.mp member ▸ moves) (unmoved target)
    cases turn_of_lawful lawful' (clean e (by simp)) with
    | kept mark oldest unmoved =>
      exact before.grow (Trace.history_le _ (List.prefix_append _ _)) mark oldest (exists_fold trips lawful' clean)
        (earlier unmoved)
    | swapped target _ moves ahead wrote log mark oldest =>
      refine before.swap log oldest mark ahead (wrote.snapshotAt trips) fun x member other moves' => ?_
      rcases List.mem_append.mp member with member | member
      · exact .inl member
      · obtain ⟨_, here⟩ := List.mem_singleton.mp member ▸ moves'
        obtain ⟨_, there⟩ := moves
        cases there.symm.trans here
        exact .inr rfl
    | truncated offset moved log mark oldest unmoved =>
      exact before.truncate log mark oldest moved (earlier unmoved)

end Deployment

end LogReplica
