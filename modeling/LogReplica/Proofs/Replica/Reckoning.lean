import LogReplica.Proofs.Replica.Remembering

namespace LogReplica

variable {M : Model} {R O : Type}

def Renews {S : Type} (old new : Option (Revisioned S)) : Prop :=
  ∀ copy, old = some copy → new = some copy ∨ ∃ next, new = some next ∧ copy.revision.offset < next.revision.offset

namespace Renews

variable {S : Type} {old new next : Option (Revisioned S)}

theorem refl (slot : Option (Revisioned S)) : Renews slot slot := fun _ => .inl

theorem trans (first : Renews old new) (second : Renews new next) : Renews old next := by
  intro copy here
  rcases first copy here with same | ⟨copy', there, lt⟩
  · exact second copy same
  · rcases second copy' there with same | ⟨copy'', last, lt'⟩
    · exact .inr ⟨copy', same, lt⟩
    · exact .inr ⟨copy'', last, Nat.lt_trans lt lt'⟩

end Renews

namespace Deployment

variable {d : Deployment M} {ρ : Conduct M R O} {me : Caller O} {t past : Trace M R O} {slot : Replica.Cached M}

variable (d ρ) in
/-- A trace whose copies are all counted, where a copy has never been replaced by another one for the same position. -/
structure Reckoned (t : Trace M R O) : Prop where
  lawful : Lawful (d.law ρ) t
  candid : t.Candid
  counted : ∀ (past : Trace M R O) place copy, past <+: t → past.cache place = some copy → d.Counted past copy
  renews : ∀ (past later : Trace M R O) place, past <+: later → later <+: t →
    Renews (past.cache place) (later.cache place)

theorem Reckoned.nil : d.Reckoned ρ ([] : Trace M R O) := by
  refine ⟨.nil, nofun, fun past place copy le cached => ?_, fun past later place le le' => ?_⟩
  · rw [List.prefix_nil.mp le] at cached
    cases cached
  · obtain rfl := List.prefix_nil.mp le'
    rw [List.prefix_nil.mp le]
    exact .refl _

theorem Remembers.reckoned (remembers : d.Remembers ρ me past slot) (reckoned : d.Reckoned ρ past) :
    (∀ copy, slot = some copy → d.Counted past copy) ∧ Renews (past.cache me.place) slot := by
  have chain := log_chain reckoned.lawful
  have whole := List.prefix_refl past
  cases remembers with
  | replayed start begins passes =>
    refine ⟨passes.counted chain begins fun copy => reckoned.counted past me.place copy whole, fun old there => ?_⟩
    rcases passes.eq_or_lt chain with rfl | ⟨copy, rfl, lt⟩
    · exact .inl there
    · exact .inr ⟨copy, rfl, begins.copy old there ▸ lt⟩
  | rebuilt entered held tended copy counted behind =>
    refine ⟨?_, fun old there => .inr ⟨copy, rfl, (behind old there reckoned.candid.since).2⟩⟩
    rintro _ ⟨⟩
    exact counted
  | founded founds record entry before after began landed held looked copy resumed =>
    have le := landed.did.le.trans looked.le
    constructor
    · rintro _ ⟨⟩
      obtain ⟨earlier, early, oldest⟩ := began
      refine ⟨earlier, d.log before, [entry], early.trans le, .inr (oldest.trans landed.begins), ?_, resumed⟩
      exact landed.log ▸ Trace.history_le d.segment looked.le
    · intro old there
      refine .inr ⟨copy, rfl, ?_⟩
      have there : before.cache me.place = some old := by
        rw [← there, looked.cache_eq held, Trace.cache, Trace.cache, landed.memories.1]
      have lawful := reckoned.lawful.of_le le
      rw [revision_of_resume_of_ne_nil (List.cons_ne_nil entry []) resumed 0]
      calc
        old.revision.offset ≤ ending 0 (d.log before) := (placed lawful there).offset_le (log_chain lawful)
        _ = entry.offset := landed.begins.symm
        _ < entry.endOffset := landed.begins_lt_ends
  | applied copy current next cached same record entry seen before after drafts landed by_ begins handed =>
    -- A copy for the position that was seen before is the one that was seen.
    obtain rfl : current = copy := by
      have early := drafts.passed.le.trans (landed.did.le.trans by_)
      rcases reckoned.renews seen past me.place early whole copy drafts.cached with here | ⟨_, here, lt⟩
      · exact Option.some.inj (cached.symm.trans here)
      · obtain rfl := Option.some.inj (cached.symm.trans here)
        exact absurd same.2 (Nat.ne_of_gt lt)
    have passes := landed.passes by_ (placed reckoned.lawful cached).segment begins handed
    have opens : d.Begins past (some current) current.revision :=
      ⟨by rintro _ ⟨⟩; rfl, fun none => absurd none (Option.some_ne_none _)⟩
    rw [cached]
    constructor
    · refine passes.counted chain opens ?_
      rintro _ ⟨⟩
      exact reckoned.counted past me.place current whole cached
    · rintro _ ⟨⟩
      obtain ⟨_, _, _, revision⟩ := hand_eq_ok.mp handed
      refine .inr ⟨next, rfl, ?_⟩
      rw [revision, ← begins]
      exact landed.begins_lt_ends

theorem Reckoned.concat {e : Event M R O} (reckoned : d.Reckoned ρ past)
    (lawful : Lawful (d.law ρ) (past ++ [e])) (candid : Trace.Candid (past ++ [e]))
    (remembers : ∀ slot answer, e.deed = .acted (.touch (.remember slot)) answer → d.Remembers ρ e.caller past slot) :
    d.Reckoned ρ (past ++ [e]) := by
  have step : ∀ place, (∀ copy, Trace.cache (past ++ [e]) place = some copy → d.Counted past copy) ∧
      Renews (past.cache place) (Trace.cache (past ++ [e]) place) := by
    intro place
    rcases Trace.cache_concat past e place with same | ⟨slot, answer, here, deed, same⟩
    · rw [same]
      exact ⟨fun copy cached => reckoned.counted past place copy (List.prefix_refl _) cached, .refl _⟩
    · rw [same, ← here]
      exact (remembers slot answer deed).reckoned reckoned
  refine ⟨lawful, candid, fun past' place copy le cached => ?_, fun past' later place le le' => ?_⟩
  · rcases List.prefix_concat_iff.mp le with rfl | short
    · exact ((step place).1 copy cached).mono (List.prefix_append _ _)
    · exact reckoned.counted past' place copy short cached
  · rcases List.prefix_concat_iff.mp le' with rfl | short
    · rcases List.prefix_concat_iff.mp le with rfl | short'
      · exact .refl _
      · exact (reckoned.renews past' past place short' (List.prefix_refl _)).trans (step place).2
    · exact reckoned.renews past' later place le short

variable {s : System M R (Operation M) (Result M R)}

theorem reckoned_of_reachable (trips : d.codec.RoundTrips) (reachable : d.Reachable R s) (candid : s.trace.Candid) :
    d.Reckoned (conduct M R) s.trace := by
  have lawful := (secure_of_reachable reachable).lawful
  have early : ∀ t, t <+: s.trace → d.Reckoned (conduct M R) t := by
    intro t le
    induction t using List.reverseRecOn with
    | nil => exact .nil
    | append_singleton past e ih =>
      have reckoned := ih ((List.prefix_append _ _).trans le)
      exact reckoned.concat (lawful.of_le le) (candid.of_le le) fun slot answer =>
        remembers_of_reachable trips reachable le
  exact early _ (List.prefix_refl _)

variable (d) in
/-- What revisions say of the copies in a trace. An instance is handed each record with the position where it ends
and with the number that it has since the place where the instance began to count; copies of one revision are one,
and where the numbers do not matter, copies that end at one place are. -/
structure RevisionsCounted (t : Trace M R O) : Prop where
  counted : ∀ (past : Trace M R O) place copy, past <+: t → past.cache place = some copy → d.Counted past copy
  same : ∀ (past past' : Trace M R O) place place' copy copy', past <+: t → past' <+: t →
    past.cache place = some copy → past'.cache place' = some copy' → copy.revision = copy'.revision →
      copy.state = copy'.state
  positional : M.Positional → ∀ (past past' : Trace M R O) place place' copy copy', past <+: t → past' <+: t →
    past.cache place = some copy → past'.cache place' = some copy' → copy.revision.SamePosition copy'.revision →
      copy.state = copy'.state

theorem revisions_counted (updates : d.updates.RoundTrips) (snapshots : d.snapshots.RoundTrips)
    (reachable : d.Reachable R s) (candid : s.trace.Candid) : d.RevisionsCounted s.trace := by
  have reckoned := reckoned_of_reachable (Frame.codec_roundTrips updates snapshots) reachable candid
  have chain := log_chain reckoned.lawful
  refine ⟨reckoned.counted, ?_, ?_⟩
  · intro past past' place place' copy copy' le le' cached cached' same
    have counted := (reckoned.counted past place copy le cached).mono le
    exact counted.state_eq chain ((reckoned.counted past' place' copy' le' cached').mono le') same
  · intro positional past past' place place' copy copy' le le' cached cached' same
    have sound : d.Sound := ⟨updates, snapshots, positional⟩
    have stands := ((placed (reckoned.lawful.of_le le) cached).mono (Trace.history_le d.segment le)).canonical sound
    have stands' := ((placed (reckoned.lawful.of_le le') cached').mono (Trace.history_le d.segment le')).canonical sound
    obtain ⟨_, _, through, front, ends, folded⟩ := stands
    exact Option.some.inj (folded.symm.trans (stands'.fold_of_ending chain front (ends.trans same.2)))

end Deployment

/-- Bytes that keep the number of each record that was folded into them. -/
@[reducible] def Model.numberedBytes : Model where
  State := Bytes
  Update := Bytes
  Snapshot := Bytes
  apply update state revision := state ++ update ++ [UInt8.ofNat revision.event]
  create snapshot _ revision := snapshot ++ [UInt8.ofNat revision.event]

namespace Deployment

def ofNumbered : Deployment Model.numberedBytes where
  segment := ⟨"scope", "stream", 0⟩
  updates := Codec.raw
  snapshots := Codec.raw
  readBuffer _ := 64
  retry _ := .unbounded

/-- One instance writes two records and compacts. Of two others, which read the compacted log, one has to recover. -/
def renumbered : System Model.numberedBytes Unit (Operation Model.numberedBytes) (Result Model.numberedBytes Unit) :=
  (System.Stage.initial.play ofNumbered.program (fun _ => ([[7]], ())) id (List.flatten [
    Move.run ⟨0, 0, .createSegment⟩ 1,
    Move.run ⟨1, 0, .establish [5]⟩ 12,
    Move.run ⟨2, 2, .getState⟩ 20,
    Move.run ⟨3, 0, .updateState⟩ 30,
    Move.run ⟨4, 0, .compact⟩ 45,
    Move.run ⟨5, 1, .getState⟩ 20,
    Move.run ⟨6, 2, .getState⟩ 30])).system

theorem reachable_renumbered : ofNumbered.Reachable Unit renumbered := (System.Stage.fair_initial.play _).steps

theorem renumbered_counted : ∃ copy copy', ofNumbered.RevisionsCounted renumbered.trace ∧
    renumbered.trace.cache 1 = some copy ∧ renumbered.trace.cache 2 = some copy' ∧
    copy.revision = ⟨ofNumbered.segment, 29, 1⟩ ∧ copy'.revision = copy.revision ∧ copy'.state = copy.state := by
  have served : (renumbered.trace.all fun e => e.failure?.isNone) = true := by decide +kernel
  have candid := Trace.candid_of_served (Trace.failure?_eq_none served)
  have counted := revisions_counted Codec.raw_roundTrips Codec.raw_roundTrips reachable_renumbered candid
  have fresh : (renumbered.trace.cache 1).map (·.revision) = some ⟨ofNumbered.segment, 29, 1⟩ := by decide +kernel
  have recovered : (renumbered.trace.cache 2).map (·.revision) = some ⟨ofNumbered.segment, 29, 1⟩ := by decide +kernel
  obtain ⟨copy, cached, revision⟩ := Option.map_eq_some_iff.mp fresh
  obtain ⟨copy', cached', revision'⟩ := Option.map_eq_some_iff.mp recovered
  have same := revision'.trans revision.symm
  have whole := List.prefix_refl renumbered.trace
  exact ⟨copy, copy', counted, cached, cached', revision, same, counted.same _ _ 2 1 copy' copy whole whole cached'
    cached same⟩

/-- The instance that has written the snapshot was handed it under another number than the one that has read it,
and so they hold different states of the same position. -/
theorem numbers_differ : ∃ copy copy', ofNumbered.Reachable Unit renumbered ∧
    renumbered.trace.cache 0 = some copy ∧ renumbered.trace.cache 1 = some copy' ∧
    copy.revision.SamePosition copy'.revision ∧ copy.revision ≠ copy'.revision ∧ copy.state ≠ copy'.state := by
  have written : (renumbered.trace.cache 0).map (fun copy => (copy.state, copy.revision)) =
      some ([5, 1, 7, 2, 3], ⟨ofNumbered.segment, 29, 3⟩) := by decide +kernel
  have read : (renumbered.trace.cache 1).map (fun copy => (copy.state, copy.revision)) =
      some ([5, 1, 7, 2, 1], ⟨ofNumbered.segment, 29, 1⟩) := by decide +kernel
  obtain ⟨⟨_, _⟩, cached, ⟨⟩⟩ := Option.map_eq_some_iff.mp written
  obtain ⟨⟨_, _⟩, cached', ⟨⟩⟩ := Option.map_eq_some_iff.mp read
  exact ⟨_, _, reachable_renumbered, cached, cached', ⟨rfl, rfl⟩, by decide, by decide⟩

end Deployment

end LogReplica
