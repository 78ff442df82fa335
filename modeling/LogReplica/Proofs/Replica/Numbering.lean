import LogReplica.Proofs.Concurrency.Path
import LogReplica.Proofs.Replica.CatchUp

namespace LogReplica

variable {M : Model} {R O : Type}

namespace Deployment

variable (d : Deployment M)

def numbered (records : List Entry) : List (Entry × Revision) :=
  (records.zipIdx 1).map fun item => (item.1, ⟨d.segment, item.1.endOffset, item.2⟩)

def hand (slot : Replica.Cached M) (item : Entry × Revision) : Except CoreError (Replica.Cached M) :=
  match d.codec.decode item.1.data with
  | .error cause => .error (.encoding cause)
  | .ok record => (record.apply (slot.map (·.state)) d.name item.2).map fun state => some ⟨state, item.2⟩

def tell (items : List (Entry × Revision)) : Except CoreError (Replica.Cached M) := items.foldlM d.hand none

/-- The copy of an instance that has been handed the records of the log since a place where fresh readers
once started. -/
def Counted (t : Trace M R O) (copy : Revisioned M.State) : Prop :=
  ∃ start before span, start <+: t ∧ d.RestartAt start (ending 0 before) ∧ before ++ span <+: d.log t ∧
    d.tell (d.numbered span) = .ok (some copy)

variable {d} {ρ : Conduct M R O} {me : Caller O} {t t' : Trace M R O} {slot : Replica.Cached M}

theorem hand_eq_ok {item : Entry × Revision} {copy : Revisioned M.State} :
    d.hand slot item = .ok (some copy) ↔ ∃ record, d.codec.decode item.1.data = .ok record ∧
      record.apply (slot.map (·.state)) d.name item.2 = .ok copy.state ∧ copy.revision = item.2 := by
  obtain ⟨state, revision⟩ := copy
  unfold hand
  cases d.codec.decode item.1.data with
  | error cause => simp
  | ok record =>
    cases applied : record.apply (slot.map (·.state)) d.name item.2 with
    | error cause => simp [applied, Except.map]
    | ok state' => simp [applied, Except.map, eq_comm]

variable (d) in
def numberedFrom (ordinal : Nat) (records : List Entry) : List (Entry × Revision) :=
  (records.zipIdx (ordinal + 1)).map fun item => (item.1, ⟨d.segment, item.1.endOffset, item.2⟩)

variable (d) in
/-- What an instance makes of what it has when it goes on to these records. -/
def resume (slot : Replica.Cached M) (ordinal : Nat) (records : List Entry) : Except CoreError (Replica.Cached M) :=
  (d.numberedFrom ordinal records).foldlM d.hand slot

theorem resume_cons (slot : Replica.Cached M) (ordinal : Nat) (e : Entry) (rest : List Entry) :
    d.resume slot ordinal (e :: rest) =
      d.hand slot (e, ⟨d.segment, e.endOffset, ordinal + 1⟩) >>= fun slot => d.resume slot (ordinal + 1) rest := rfl

theorem resume_append (slot : Replica.Cached M) (ordinal : Nat) (first second : List Entry) :
    d.resume slot ordinal (first ++ second) =
      d.resume slot ordinal first >>= fun slot => d.resume slot (ordinal + first.length) second := by
  simp only [resume, numberedFrom, List.zipIdx_append, List.map_append, List.foldlM_append]
  rw [show ordinal + 1 + first.length = ordinal + first.length + 1 by omega]

theorem exists_copy_of_hand {item : Entry × Revision} {slot' : Replica.Cached M}
    (handed : d.hand slot item = .ok slot') : ∃ copy, slot' = some copy := by
  unfold hand at handed
  split at handed
  · cases handed
  · rename_i record _
    cases applied : record.apply (slot.map (·.state)) d.name item.2 with
    | error cause => simp [applied, Except.map] at handed
    | ok state => exact ⟨_, by simpa [applied, Except.map] using handed.symm⟩

theorem revision_of_resume_of_ne_nil {ordinal : Nat} {records : List Entry} {copy : Revisioned M.State}
    (written : records ≠ []) (resumed : d.resume slot ordinal records = .ok (some copy)) (position : Nat) :
    copy.revision = ⟨d.segment, ending position records, ordinal + records.length⟩ := by
  cases records using List.reverseRecOn with
  | nil => exact absurd rfl written
  | append_singleton front e =>
    rw [resume_append] at resumed
    cases before : d.resume slot ordinal front with
    | error cause =>
      rw [before] at resumed
      cases resumed
    | ok slot' =>
      rw [before] at resumed
      change d.resume slot' _ [e] = _ at resumed
      rw [resume_cons] at resumed
      cases handed : d.hand slot' (e, ⟨d.segment, e.endOffset, ordinal + front.length + 1⟩) with
      | error cause =>
        rw [handed] at resumed
        cases resumed
      | ok next =>
        rw [handed] at resumed
        cases resumed
        obtain ⟨_, _, _, same⟩ := hand_eq_ok.mp handed
        simp [same, Nat.add_assoc]

theorem revision_of_resume {position ordinal : Nat} {records : List Entry} {copy : Revisioned M.State}
    (resumed : d.resume slot ordinal records = .ok (some copy))
    (aligned : ∀ old, slot = some old → old.revision = ⟨d.segment, position, ordinal⟩) :
    copy.revision = ⟨d.segment, ending position records, ordinal + records.length⟩ := by
  by_cases none : records = []
  · subst none
    cases resumed
    exact aligned copy rfl
  · exact revision_of_resume_of_ne_nil none resumed position

theorem revision_of_tell {span : List Entry} {copy : Revisioned M.State}
    (told : d.tell (d.numbered span) = .ok (some copy)) (position : Nat) :
    copy.revision = ⟨d.segment, ending position span, span.length⟩ := by
  have resumed : d.resume none 0 span = .ok (some copy) := told
  rw [revision_of_resume resumed nofun, Nat.zero_add]

namespace Counted

variable {copy : Revisioned M.State}

theorem mono (counted : d.Counted t copy) (le : t <+: t') : d.Counted t' copy := by
  obtain ⟨start, before, span, early, restart, front, told⟩ := counted
  exact ⟨start, before, span, early.trans le, restart, front.trans (Trace.history_le _ le), told⟩

theorem state_eq {copy' : Revisioned M.State} (chain : Contiguous 0 (d.log t)) (counted : d.Counted t copy)
    (counted' : d.Counted t copy') (same : copy.revision = copy'.revision) : copy.state = copy'.state := by
  obtain ⟨_, before, span, _, _, front, told⟩ := counted
  obtain ⟨_, before', span', _, _, front', told'⟩ := counted'
  have ends := revision_of_tell told (ending 0 before)
  have ends' := revision_of_tell told' (ending 0 before')
  rw [← ending_append] at ends ends'
  rw [ends, ends'] at same
  obtain ⟨_, offset, count⟩ := Revision.mk.inj same
  -- Both stretches end at one place of the log, and are as long, so they are one.
  obtain ⟨_, rfl⟩ := List.append_inj' (chain.prefix_eq front front' offset) count
  rw [told] at told'
  cases told'
  rfl

end Counted

variable (d) in
/-- Where an instance starts to read: after its copy, or without one where fresh readers once did, from where it has
counted nothing yet. -/
structure Begins (t : Trace M R O) (slot : Replica.Cached M) (start : Revision) : Prop where
  copy : ∀ copy, slot = some copy → copy.revision = start
  fresh : slot = none → start.event = 0 ∧ ∃ earlier, earlier <+: t ∧ d.RestartAt earlier start.offset

theorem Begins.mono {start : Revision} (begins : d.Begins t slot start) (le : t <+: t') : d.Begins t' slot start := by
  refine ⟨begins.copy, fun none => ?_⟩
  obtain ⟨zero, earlier, early, restart⟩ := begins.fresh none
  exact ⟨zero, earlier, early.trans le, restart⟩

/-- What a replay from `start` makes of a copy: nothing new, or what it comes to with records of the log. -/
inductive Passes (d : Deployment M) (t : Trace M R O) (slot : Replica.Cached M) (start : Revision) :
    Replica.Cached M → Prop
  | stays : Passes d t slot start slot
  | resumed (before : List Entry) (e : Entry) (rest : List Entry) (copy : Revisioned M.State)
    (front : before ++ e :: rest <+: d.log t) (begins : ending 0 before = start.offset)
    (folded : d.resume slot start.event (e :: rest) = .ok (some copy)) : Passes d t slot start (some copy)

namespace Passes

variable {start : Revision} {slot' : Replica.Cached M} {mid : Revisioned M.State}

theorem mono (passes : d.Passes t slot start slot') (le : t <+: t') : d.Passes t' slot start slot' := by
  cases passes with
  | stays => exact .stays
  | resumed before e rest copy front begins folded =>
    exact .resumed before e rest copy (front.trans (Trace.history_le _ le)) begins folded

theorem append {before rest : List Entry} {e : Entry} (chain : Contiguous 0 (d.log t))
    (front : before ++ e :: rest <+: d.log t) (begins : ending 0 before = start.offset)
    (folded : d.resume slot start.event (e :: rest) = .ok (some mid))
    (second : d.Passes t (some mid) mid.revision slot') : d.Passes t slot start slot' := by
  have reached := revision_of_resume_of_ne_nil (List.cons_ne_nil e rest) folded start.offset
  cases second with
  | stays => exact .resumed before e rest mid front begins folded
  | resumed before' e' rest' copy front' begins' folded' =>
    rw [reached] at begins' folded'
    obtain rfl : before' = before ++ e :: rest :=
      chain.prefix_eq ((List.prefix_append _ _).trans front') front (by rw [begins', ending_append, begins])
    refine .resumed before e (rest ++ e' :: rest') copy (by simpa using front') begins ?_
    rw [← List.cons_append, resume_append, folded]
    exact folded'

theorem trans (chain : Contiguous 0 (d.log t)) (known : ∀ old, slot = some old → old.revision = start)
    (first : d.Passes t slot start (some mid)) (second : d.Passes t (some mid) mid.revision slot') :
    d.Passes t slot start slot' := by
  cases first with
  | stays => exact known mid rfl ▸ second
  | resumed before e rest _ front begins folded => exact append chain front begins folded second

theorem of_hand {position ordinal : Nat} {e : Entry}
    (entry : ∃ before, before ++ [e] <+: d.log t ∧ ending 0 before = position)
    (handed : d.hand slot (e, ⟨d.segment, e.endOffset, ordinal + 1⟩) = .ok (some mid)) :
    d.Passes t slot ⟨d.segment, position, ordinal⟩ (some mid) := by
  obtain ⟨before, front, begins⟩ := entry
  refine .resumed before e [] mid front begins ?_
  rw [resume_cons, handed]
  rfl

theorem eq_or_lt (passes : d.Passes t slot start slot') (chain : Contiguous 0 (d.log t)) :
    slot' = slot ∨ ∃ copy, slot' = some copy ∧ start.offset < copy.revision.offset := by
  cases passes with
  | stays => exact .inl rfl
  | resumed before e rest copy front begins folded =>
    refine .inr ⟨copy, rfl, ?_⟩
    rw [revision_of_resume_of_ne_nil (List.cons_ne_nil e rest) folded start.offset, ← begins]
    exact (chain.of_le front).right.lt_ending (List.cons_ne_nil e rest)

theorem unique {copy copy' : Revisioned M.State} (chain : Contiguous 0 (d.log t))
    (known : ∀ old, slot = some old → old.revision = start) (passes : d.Passes t slot start (some copy))
    (passes' : d.Passes t slot start (some copy')) (same : copy.revision.offset = copy'.revision.offset) :
    copy = copy' := by
  have lt := passes.eq_or_lt chain
  have lt' := passes'.eq_or_lt chain
  cases passes with
  | stays =>
    rcases lt' with here | ⟨_, ⟨⟩, further⟩
    · exact Option.some.inj here.symm
    · rw [← known copy rfl, same] at further
      exact absurd further (Nat.lt_irrefl _)
  | resumed before e rest _ front begins folded =>
    cases passes' with
    | stays =>
      rcases lt with here | ⟨_, ⟨⟩, further⟩
      · exact Option.some.inj here
      · rw [← known copy' rfl, same] at further
        exact absurd further (Nat.lt_irrefl _)
    | resumed before' e' rest' _ front' begins' folded' =>
      rw [revision_of_resume_of_ne_nil (List.cons_ne_nil e rest) folded start.offset,
        revision_of_resume_of_ne_nil (List.cons_ne_nil e' rest') folded' start.offset] at same
      obtain rfl : before = before' := chain.prefix_eq ((List.prefix_append _ _).trans front)
        ((List.prefix_append _ _).trans front') (begins.trans begins'.symm)
      have whole := chain.prefix_eq front front' (by rw [ending_append, ending_append, begins]; exact same)
      rw [List.append_cancel_left whole, folded'] at folded
      exact (Option.some.inj (Except.ok.inj folded)).symm

theorem counted (chain : Contiguous 0 (d.log t)) (begins : d.Begins t slot start)
    (before : ∀ copy, slot = some copy → d.Counted t copy) (passes : d.Passes t slot start slot') :
    ∀ copy, slot' = some copy → d.Counted t copy := by
  cases passes with
  | stays => exact before
  | resumed before' e rest copy front ends folded =>
    rintro _ ⟨⟩
    cases slot with
    | none =>
      obtain ⟨zero, earlier, early, restart⟩ := begins.fresh rfl
      rw [zero] at folded
      exact ⟨earlier, before', e :: rest, early, ends ▸ restart, front, folded⟩
    | some old =>
      obtain ⟨earlier, first, span, early, restart, front', told⟩ := before old rfl
      have same := begins.copy old rfl
      rw [revision_of_tell told (ending 0 first), ← ending_append] at same
      obtain rfl : before' = first ++ span := chain.prefix_eq ((List.prefix_append _ _).trans front) front'
        (ends.trans (congrArg Revision.offset same).symm)
      refine ⟨earlier, first, span ++ e :: rest, early, restart, by rwa [← List.append_assoc], ?_⟩
      show d.resume none 0 (span ++ e :: rest) = _
      have count : span.length = start.event := congrArg Revision.event same
      rw [resume_append, show d.resume none 0 span = _ from told, Nat.zero_add, count]
      exact folded

end Passes

theorem hand_of_replayRecord {place count : Nat} {e : Entry} {record : M.Record} {ordinal : Nat}
    {copy : Revisioned M.State} (decoded : d.codec.decode e.data = .ok record)
    (replayed : (d.replica place).replayRecord ⟨slot, count⟩ (⟨d.segment, e.endOffset, ordinal⟩, record) =
      .ok ⟨some copy, count + 1⟩) : d.hand slot (e, ⟨d.segment, e.endOffset, ordinal⟩) = .ok (some copy) := by
  unfold Replica.replayRecord at replayed
  split at replayed
  · simp at replayed
  · have applied : ((record.apply (slot.map (·.state)) d.name ⟨d.segment, e.endOffset, ordinal⟩).map
        fun state => (⟨state, ⟨d.segment, e.endOffset, ordinal⟩⟩ : Revisioned M.State)).map
          (fun next => (⟨some next, count + 1⟩ : Replica.Progress M)) = .ok ⟨some copy, count + 1⟩ := replayed
    cases same : record.apply (slot.map (·.state)) d.name ⟨d.segment, e.endOffset, ordinal⟩ with
    | error cause => simp [same, Except.map] at applied
    | ok state =>
      simp only [same, Except.map, Except.ok.injEq, Replica.Progress.mk.injEq, Option.some.injEq, and_true] at applied
      subst applied
      exact hand_eq_ok.mpr ⟨record, decoded, same, rfl⟩

theorem next_leads {place position : Nat} {r r' : Reader M.Record} {revision : Revision} {record : M.Record}
    (lawful : Lawful (d.law ρ) t') (reads : d.Reads place t r position) (anchored : d.Anchored t position)
    (leads : (r.next : Procedure M R _).Leads me t (.record revision record, r') t') :
    ∃ e ordinal, revision = ⟨d.segment, e.endOffset, ordinal⟩ ∧ d.Pulls place t' r r' position e record ordinal := by
  let post (answer : Reader.Pulled M.Record × Reader M.Record) (t' : Trace M R O) : Prop :=
    ∀ revision record, answer.1 = .record revision record → ∃ e ordinal, revision = ⟨d.segment, e.endOffset, ordinal⟩ ∧
      d.Pulls place t' r answer.2 position e record ordinal
  have safe : (r.next : Procedure M R _).Safe (d.law ρ) me (fun _ => True) post t := by
    refine next_safe (lawful.of_le leads.le) reads anchored ?_ (fun _ _ _ _ _ _ => nofun)
      (fun _ _ _ _ _ _ _ _ => nofun) fun _ _ _ _ _ => nofun
    rintro e record ordinal r' t' _ pulls _ _ ⟨⟩
    exact ⟨e, ordinal, rfl, pulls⟩
  exact leads.promised lawful safe revision record rfl

def Advances (slot : Replica.Cached M) (ordinal : Nat) (slot' : Replica.Cached M) (n : Nat) : Prop :=
  (slot' = slot ∧ n = 0) ∨ ∃ copy, slot' = some copy ∧ copy.revision.event = ordinal + n

theorem Advances.of_succ {slot' : Replica.Cached M} {copy : Revisioned M.State} {ordinal n : Nat}
    (counted : copy.revision.event = ordinal + 1) (advances : Advances (some copy) (ordinal + 1) slot' n) :
    Advances slot ordinal slot' (n + 1) := by
  rcases advances with ⟨rfl, rfl⟩ | ⟨copy', rfl, ends⟩
  · exact .inr ⟨copy, rfl, counted⟩
  · exact .inr ⟨copy', rfl, by omega⟩

theorem fold_passes {place fuel position count : Nat} {reader : Reader M.Record} {given : Reader.Ending}
    {p : Replica.Progress M} (lawful : Lawful (d.law ρ) t') (reads : d.Reads place t reader position)
    (aligned : d.Aligned t slot position)
    (leads :
      (reader.fold (d.replica place).replayRecord fuel ⟨slot, count⟩ : Procedure M R _).Leads me t (given, p) t') :
    d.Passes t' slot ⟨d.segment, position, reader.ordinal⟩ p.slot ∧
      ∃ n, p.replayed = count + n ∧ Advances slot reader.ordinal p.slot n := by
  -- On the fuel; each record that is read is handed on, and makes a copy that ends where the next one begins.
  induction fuel generalizing t reader slot position count with
  | zero =>
    cases leads
    exact ⟨.stays, 0, rfl, .inl ⟨rfl, rfl⟩⟩
  | succ fuel ih =>
    obtain ⟨⟨given', r'⟩, t₁, first, rest⟩ := Procedure.Leads.of_bind leads
    have lawful₁ := lawful.of_le rest.le
    cases given' with
    | finished | failed | uncounted =>
      cases rest
      exact ⟨.stays, 0, rfl, .inl ⟨rfl, rfl⟩⟩
    | record revision record =>
      obtain ⟨e, ordinal, rfl, pulls⟩ :=
        next_leads lawful₁ reads (aligned.anchored (lawful₁.of_le first.le)) first
      have aligned := aligned.mono first.le
      dsimp only at rest
      rcases replayRecord_cases place count ordinal lawful₁ aligned pulls.entry pulls.decoded pulls.numbered with
        ⟨copy, replayed, placed, ends⟩ | ⟨_, _, orphan⟩
      · rw [replayed] at rest
        have handed := hand_of_replayRecord pulls.decoded replayed
        have aligned' : d.Aligned t₁ (some copy) e.endOffset := by
          refine ⟨?_, nofun⟩
          rintro _ ⟨⟩
          exact ⟨placed, by rw [ends]⟩
        obtain ⟨onward, n, counted, advances⟩ := ih pulls.reads aligned' rest
        rw [pulls.ordinal, ← ends] at onward
        rw [Revision.eq_succ_of_nextEvent? pulls.counted] at handed ends
        rw [pulls.ordinal, Revision.eq_succ_of_nextEvent? pulls.counted] at advances
        obtain ⟨before, front, begins⟩ := pulls.entry
        refine ⟨?_, n + 1, by omega, advances.of_succ (congrArg Revision.event ends)⟩
        refine .append (log_chain lawful) (front.trans (Trace.history_le _ rest.le)) begins ?_ onward
        rw [resume_cons, handed]
        rfl
      · rw [orphan] at rest
        cases rest
        exact ⟨.stays, 0, rfl, .inl ⟨rfl, rfl⟩⟩

theorem replayRecords_passes {place position : Nat} {reader : Reader M.Record} {result : Except CoreError Unit}
    {slot' : Replica.Cached M} (lawful : Lawful (d.law ρ) t') (reads : d.Reads place t reader position)
    (aligned : d.Aligned t slot position)
    (leads : ((d.replica place).replayRecords slot reader : Procedure M R _).Leads me t (result, slot') t') :
    d.Passes t' slot ⟨d.segment, position, reader.ordinal⟩ slot' := by
  obtain ⟨⟨given, p⟩, t₁, folds, rest⟩ := Procedure.Leads.of_bind leads
  obtain ⟨result', t₂, _, rest'⟩ := Procedure.Leads.of_bind rest
  have same : slot' = p.slot := by
    dsimp only at rest'
    split at rest'
    · obtain ⟨_, _, _, ended⟩ := Procedure.Leads.of_bind rest'
      cases ended
      rfl
    · cases rest'
      rfl
  rw [same]
  exact (fold_passes (lawful.of_le rest.le) reads aligned folds).1.mono rest.le

end Deployment

end LogReplica
