import LogReplica.Proofs.Concurrency.Course
import LogReplica.Proofs.Replica.Runs
import LogReplica.Proofs.Replica.Served

namespace LogReplica

variable {M : Model} {R O : Type}

def Operation.first? : Operation M → Option M.Snapshot
  | establish snapshot | establishIfAbsent snapshot => some snapshot
  | _ => none

theorem Operation.founds_iff {operation : Operation M} :
    operation.Founds ↔ ∃ snapshot, operation.first? = some snapshot := by
  cases operation <;> simp [Founds, first?]

namespace Deployment

variable {d : Deployment M} {ρ : Conduct M R O} {me : Caller O} {start t t' past : Trace M R O}

def Lands (d : Deployment M) (me : Caller O) (t : Trace M R O) : Prop :=
  ∃ e ∈ t, e.caller.call = me.call ∧ ∃ entry, e.landed? d.segment = some entry

theorem Lands.mono (lands : d.Lands me t) (le : t <+: t') : d.Lands me t' := by
  obtain ⟨e, member, landed⟩ := lands
  exact ⟨e, le.subset member, landed⟩

theorem Lands.of_idled (lands : d.Lands me t') (idled : Idled me t t') : d.Lands me t := by
  obtain ⟨e, member, mine, landed⟩ := lands
  obtain ⟨more, rfl, others⟩ := idled
  rcases List.mem_append.mp member with member | member
  · exact ⟨e, member, mine, landed⟩
  · exact (others e member mine).elim

theorem Landed.lands {record : M.Record} {entry : Entry} (landed : d.Landed ρ me record entry past t) :
    d.Lands me t := by
  refine ⟨⟨me, _⟩, landed.did.last ▸ List.mem_append_right _ (List.mem_singleton_self _), rfl, entry, ?_⟩
  simp [Event.landed?]

theorem not_lands_of_went (fresh : ∀ e ∈ past, e.caller.call ≠ me.call)
    (went : Went (d.law ρ) me (Deed.Quiet d.segment) (past ++ [⟨me, .called⟩]) t) : ¬d.Lands me t := by
  rintro ⟨e, member, mine, entry, landed⟩
  have passed : Passed me (Deed.Quiet d.segment) (past ++ [⟨me, .called⟩]) t := went.grows
  rcases passed.deeds_of_fresh fresh e member mine with called | quiet
  · simp [Event.landed?, called] at landed
  · rw [Event.landed?_of_quiet quiet] at landed
    cases landed

theorem written_of_le (written : d.log t ≠ []) (le : t <+: t') : d.log t' ≠ [] := fun empty =>
  written (List.prefix_nil.mp (empty ▸ Trace.history_le d.segment le))

theorem yields_of_written {α : Type} {p : Procedure M R α} {fine crash : Trace M R O → Prop}
    {post : α → Trace M R O → Prop} (written : d.log t ≠ []) (crashes : ∀ t', d.log t' ≠ [] → crash t')
    (goes : ∀ a t', d.log t' ≠ [] → post a t') : p.Yields fine me crash post t :=
  .of_le (fun t' le => crashes t' (written_of_le written le)) fun a t' le => goes a t' (written_of_le written le)

section Untroubled

variable {crash : Trace M R O → Prop} {err : CoreError → Trace M R O → Prop} (place : Nat) {snapshot : M.Snapshot}
  {bytes : Bytes} (encoded : d.codec.encode (.init snapshot) = .ok bytes) (since : start <+: t)

include encoded since

theorem writeInitial_untroubled {ok : Bool → Trace M R O → Prop} (began : past <+: t)
    (written : ∀ answer t', t <+: t' → d.log t' ≠ [] → ok answer t') :
    Attempt.Yields (d.Untroubled ρ me start) me crash ok err
      ((d.replica place).writeInitial ⟨d.segment, d.oldest past, 0⟩ snapshot) t := by
  unfold Replica.writeInitial
  refine .bind (writeConditionally_untroubled place encoded since ?_ ?_)
  · intro revision t₁ le landed
    refine .bind (.touch fun _ past idled _ => .pure ?_)
    exact written true _ (le.trans (idled.le_concat _)) (written_of_le landed (idled.le_concat _))
  · intro t₁ le lawful apart
    exact .pure (written false t₁ le (written_of_apart lawful (began.trans le) apart))

theorem establish_untroubled {ok : Unit → Trace M R O → Prop} (established : ∀ t', d.log t' ≠ [] → ok () t')
    (refused : ∀ t', d.log t' ≠ [] → err (.alreadyInitialized d.segment) t') :
    Attempt.Yields (d.Untroubled ρ me start) me crash ok err ((d.replica place).establish snapshot) t := by
  unfold Replica.establish
  refine locked_untroubled fun t₀ le₀ => ?_
  have since := since.trans le₀
  refine .bind (fetchOldest_untroubled place since fun t₁ le₁ _ => ?_)
  refine .bind (fetchLatest_untroubled place (since.trans le₁) fun t₂ le₂ lawful => ?_)
  split
  · rename_i other
    have written := written_of_apart lawful le₂ fun same => other ⟨rfl, same.symm⟩
    exact .throw fun left le => refused left (written_of_le written le)
  · rename_i same
    have same : ending 0 (d.log t₂) = d.oldest t₁ := (not_not.mp same).2
    rw [same]
    refine Attempt.Yields.bind (writeInitial_untroubled place encoded (since.trans (le₁.trans le₂)) le₂ ?_)
    intro answer t₃ _ written
    cases answer with
    | true => exact .pure fun left le => established left (written_of_le written le)
    | false => exact .throw fun left le => refused left (written_of_le written le)

theorem establishIfAbsent_untroubled {ok : Bool → Trace M R O → Prop} (crashes : ∀ t', d.log t' ≠ [] → crash t')
    (established : ∀ answer t', d.log t' ≠ [] → ok answer t') (failed : ∀ cause t', d.log t' ≠ [] → err cause t') :
    Attempt.Yields (d.Untroubled ρ me start) me crash ok err ((d.replica place).establishIfAbsent snapshot) t := by
  unfold Replica.establishIfAbsent
  refine locked_untroubled fun t₀ le₀ => ?_
  have since := since.trans le₀
  refine .bind (fetchOldest_untroubled place since fun t₁ le₁ _ => ?_)
  refine .bind (fetchLatest_untroubled place (since.trans le₁) fun t₂ le₂ lawful => ?_)
  have rest : ∀ {x : Attempt M R Bool} {t'}, d.log t' ≠ [] → Attempt.Yields (d.Untroubled ρ me start) me crash
      (fun answer t' => ∀ left, t' <+: left → ok answer left) (fun cause t' => ∀ left, t' <+: left → err cause left)
      x t' := by
    refine fun written => yields_of_written written crashes fun result t'' written => ?_
    cases result with
    | ok answer => exact fun left le => established answer left (written_of_le written le)
    | error cause => exact fun left le => failed cause left (written_of_le written le)
  split
  · refine Attempt.Yields.bind (writeInitial_untroubled place encoded (since.trans (le₁.trans le₂)) le₂ ?_)
    exact fun answer t₃ _ written => rest written
  · rename_i other
    exact rest (written_of_apart lawful le₂ fun same => other ⟨rfl, same.symm⟩)

end Untroubled

section Runs

variable {s : System M R (Operation M) (Result M R)} {e : Event M R (Operation M)} {entry : Entry}

theorem encode_of_landed (reachable : d.Reachable R s) (member : e ∈ s.trace) {snapshot : M.Snapshot}
    (wants : e.caller.operation.first? = some snapshot) (landed : e.landed? d.segment = some entry) :
    d.codec.encode (.init snapshot) = .ok entry.data := by
  let allowed (operation : Operation M) (action : Action M R) : Prop :=
    ∀ snapshot, operation.first? = some snapshot → Action.OfWriting d.segment d.codec (Eq (.init snapshot)) action
  have confined : ∀ place operation, (d.program place operation).run.Confined (allowed operation) fun _ => True := by
    intro place operation
    cases operation with
    | establish snapshot =>
      refine Procedure.Confined.bind (Procedure.Confined.mono ((d.replica place).establish_writing rfl) ?_ ?_)
      · rintro action only _ ⟨⟩
        exact only
      · intro result _
        cases result <;> trivial
    | establishIfAbsent snapshot =>
      refine Procedure.Confined.bind (Procedure.Confined.mono ((d.replica place).establishIfAbsent_writing rfl) ?_ ?_)
      · rintro action only _ ⟨⟩
        exact only
      · intro result _
        cases result <;> trivial
    | _ => exact .of_forall (fun _ => nofun) fun _ => trivial
  obtain ⟨_, rfl, encoded⟩ := Event.exists_of_landed (fun action answer deed =>
    (System.confined_of_reachable confined reachable).1 e member action answer deed snapshot wants) landed
  exact encoded

theorem unwritten_of_landed {past : Trace M R (Operation M)} (lawful : Lawful (d.law (conduct M R)) (past ++ [e]))
    (clean : Clean (conduct M R) (past ++ [e])) (founds : e.caller.operation.Founds)
    (landed : e.landed? d.segment = some entry) : d.log past = [] ∧ entry.offset = 0 := by
  obtain ⟨begins, record, _, basis⟩ := landing lawful (clean e (by simp)) landed
  rcases basis with first | ⟨_, _, _, proposed⟩
  · have unwritten := (begins ▸ first).unwritten lawful.of_concat.1 (clean.of_le (List.prefix_append _ _))
    exact ⟨unwritten, begins.trans (congrArg (ending 0) unwritten)⟩
  · exact absurd proposed (not_answered_of_founds founds)

theorem exists_founding {t : Trace M R (Operation M)} (lawful : Lawful (d.law (conduct M R)) t)
    (clean : Clean (conduct M R) t) (written : d.log t ≠ []) : ∃ past e entry, past ++ [e] <+: t ∧
      e.caller.operation.Founds ∧ e.landed? d.segment = some entry := by
  induction lawful with
  | nil => exact absurd rfl written
  | @concat past e lawful fits obeys ih =>
    by_cases before : d.log past = []
    · rw [log_concat, before, List.nil_append] at written
      obtain ⟨entry, landed⟩ : ∃ entry, e.landed? d.segment = some entry :=
        Option.ne_none_iff_exists'.mp fun none => written (by rw [none]; rfl)
      obtain ⟨_, _, _, basis⟩ := landing (.concat lawful fits obeys) (clean e (by simp)) landed
      rcases basis with first | ⟨other, _⟩
      · exact ⟨past, e, entry, List.prefix_refl _, first.1, landed⟩
      · exact absurd before other
    · obtain ⟨earlier, e', entry, le, found⟩ := ih (clean.of_le (List.prefix_append _ _)) before
      exact ⟨earlier, e', entry, le.trans (List.prefix_append _ _), found⟩

variable (d) in
/-- Nothing has kept the call from writing its first record, if it was to write one. -/
def Unimpeded (me : Caller (Operation M)) (t : Trace M R (Operation M)) : Prop :=
  Trace.Unhindered me [] t ∧
    ∀ snapshot, me.operation.first? = some snapshot → ∃ bytes, d.codec.encode (.init snapshot) = .ok bytes

variable (d) in
/-- Of the calls that are to begin the log, at most one does, and each one knows. -/
structure FoundingDecided (s : System M R (Operation M) (Result M R)) : Prop where
  first : ∀ past e entry snapshot, past ++ [e] <+: s.trace → e.caller.operation.first? = some snapshot →
    e.landed? d.segment = some entry →
      d.log past = [] ∧ entry.offset = 0 ∧ d.codec.encode (.init snapshot) = .ok entry.data
  single : ∀ past e entry past' e' entry', past ++ [e] <+: s.trace → past' ++ [e'] <+: s.trace →
    e.caller.operation.Founds → e'.caller.operation.Founds →
    e.landed? d.segment = some entry → e'.landed? d.segment = some entry' → past = past' ∧ e = e'
  established : ∀ caller snapshot result, caller.operation = .establish snapshot → s.Returned caller result →
    (result = .ok .nothing ↔ d.Lands caller s.trace)
  establishedIfAbsent : ∀ caller snapshot result, caller.operation = .establishIfAbsent snapshot →
    s.Returned caller result → (result = .ok (.flag true) ↔ d.Lands caller s.trace)
  /-- One has begun the log, as soon as one has ended that nothing has kept from it. -/
  decided : ∀ caller result, caller.operation.Founds → s.Returned caller result → d.Unimpeded caller s.trace →
    ∃ e ∈ s.trace, e.caller.operation.Founds ∧ ∃ entry, e.landed? d.segment = some entry
  refused : ∀ caller snapshot result, caller.operation = .establish snapshot → s.Returned caller result →
    ¬d.Lands caller s.trace →
      (∀ e ∈ s.trace, e.caller.call = caller.call → ∀ slot answer, e.deed ≠ .acted (.touch (.remember slot)) answer) ∧
      (d.Unimpeded caller s.trace → result = .error (.alreadyInitialized d.segment))
  covered : ∀ caller snapshot, caller.operation = .establishIfAbsent snapshot →
    s.Returned caller (.ok (.flag false)) → ¬d.Lands caller s.trace ∧
      ∃ past copy, past ++ [⟨caller, .called⟩] <+: s.trace ∧ s.trace.cache caller.place = some copy ∧
        d.Placed (d.log s.trace) copy ∧ (Trace.buffer d.segment past).tail ≤ copy.revision.offset

section Ended

variable {caller : Caller (Operation M)} {snapshot : M.Snapshot} {result : Except CoreError (Result M R)}
  (reachable : d.Reachable R s) (returned : s.Returned caller result)

include reachable returned

theorem establish_ended (wants : caller.operation = .establish snapshot) :
    (result = .ok .nothing ∧ d.Lands caller s.trace) ∨ (∃ cause, result = .error cause) ∧ ¬d.Lands caller s.trace ∧
      ∀ e ∈ s.trace, e.caller.call = caller.call → ∀ slot answer, e.deed ≠ .acted (.touch (.remember slot)) answer := by
  let post (result : Except CoreError (Result M R)) (t : Trace M R (Operation M)) : Prop :=
    (result = .ok .nothing ∧ d.Lands caller t) ∨ (∃ cause, result = .error cause) ∧ ¬d.Lands caller t ∧
      ∀ e ∈ t, e.caller.call = caller.call → ∀ slot answer, e.deed ≠ .acted (.touch (.remember slot)) answer
  have lawful := (secure_of_reachable reachable).lawful
  obtain ⟨t, idled, ended⟩ := System.yielded_of_reachable (Lawful (d.law (conduct M R))) post reachable returned
    (fun le lawful => lawful.of_le le) lawful fun past fresh _ => by
      have founds : (conduct M R).founds caller.operation := wants ▸ trivial
      rw [wants]
      refine Attempt.Yields.run (.of_safe (.bind (establish_safe caller.place founds ?_ ?_)))
      · intro past' entry t₁ t' before landed after
        exact .pure (.inl ⟨rfl, landed.lands.mono after.le⟩)
      · intro cause t' went _
        refine .inr ⟨⟨cause, rfl⟩, not_lands_of_went fresh went.spared, fun e member mine => ?_⟩
        have passed : Passed caller (Deed.Spares d.segment) (past ++ [⟨caller, .called⟩]) t' := went.grows
        rcases passed.deeds_of_fresh fresh e member mine with called | spares
        · rw [called]
          exact nofun
        · exact spares.2
  rcases ended with ⟨same, lands⟩ | ⟨failed, unlanded, untouched⟩
  · exact .inl ⟨same, lands.mono idled.le⟩
  · refine .inr ⟨failed, fun lands => unlanded (lands.of_idled idled), fun e member mine => ?_⟩
    obtain ⟨more, whole, others⟩ := idled
    rw [whole] at member
    rcases List.mem_append.mp member with member | member
    · exact untouched e member mine
    · exact (others e member mine).elim

theorem establishIfAbsent_ended (polite : Polite s) (wants : caller.operation = .establishIfAbsent snapshot) :
    (result = .ok (.flag true) ∧ d.Lands caller s.trace) ∨ result ≠ .ok (.flag true) ∧ ¬d.Lands caller s.trace ∧
      (result = .ok (.flag false) → ∃ past copy, past ++ [⟨caller, .called⟩] <+: s.trace ∧
        s.trace.cache caller.place = some copy ∧ d.Placed (d.log s.trace) copy ∧
        (Trace.buffer d.segment past).tail ≤ copy.revision.offset) := by
  let post (result : Except CoreError (Result M R)) (t : Trace M R (Operation M)) : Prop :=
    (result = .ok (.flag true) ∧ d.Lands caller t) ∨ result ≠ .ok (.flag true) ∧ ¬d.Lands caller t ∧
      (result = .ok (.flag false) → ∃ past t₁ t₂, past ++ [⟨caller, .called⟩] <+: t₁ ∧ d.log t₁ ≠ [] ∧ t₁ <+: t₂ ∧
        d.Abreast caller t₁ t₂ ∧ t₂ <+: t)
  have lawful := (secure_of_reachable reachable).lawful
  have clean := polite.clean (secure_of_reachable reachable)
  obtain ⟨t, idled, ended⟩ := System.yielded_of_reachable (Lawful (d.law (conduct M R))) post reachable returned
    (fun le lawful => lawful.of_le le) lawful fun past fresh _ => by
      have founds : (conduct M R).founds caller.operation := wants ▸ trivial
      rw [wants]
      refine Attempt.Yields.run (.of_safe (.bind (establishIfAbsent_safe caller.place founds ?_ ?_ ?_ ?_)))
      · intro t' went
        have gone : Lawful (d.law (conduct M R)) (t' ++ [⟨caller, .gaveUp⟩]) := .concat went.lawful trivial trivial
        have quiet : (Deed.gaveUp : Deed M R).Quiet d.segment := trivial
        have went := went.concat quiet gone
        exact .inr ⟨nofun, not_lands_of_went fresh went, nofun⟩
      · intro past' entry t₁ t' before landed after
        exact .pure (.inl ⟨rfl, landed.lands.mono after.le⟩)
      · intro t₁ t₂ t' before written caught abreast after
        have went := (before.trans (caught.quiet d.segment)).trans after
        refine .pure (.inr ⟨nofun, not_lands_of_went fresh went, fun _ => ?_⟩)
        exact ⟨past, t₁, t₂, before.le, written, caught.le, abreast, after.le⟩
      · intro cause t' went _
        exact .inr ⟨nofun, not_lands_of_went fresh went, nofun⟩
  rcases ended with ⟨same, lands⟩ | ⟨other, unlanded, found⟩
  · exact .inl ⟨same, lands.mono idled.le⟩
  · refine .inr ⟨other, fun lands => unlanded (lands.of_idled idled), fun same => ?_⟩
    obtain ⟨past, t₁, t₂, since, written, le, abreast, le'⟩ := found same
    have le' := le'.trans idled.le
    have lawful₂ := lawful.of_le le'
    obtain ⟨copy, cached, reached⟩ := abreast.exists_copy lawful₂ (clean.of_le le') written
    obtain ⟨copy', cached', newer⟩ := noOlder lawful le' caller.place copy cached
    have since' := since.trans (le.trans le')
    refine ⟨past, copy', since', cached', placed lawful cached', ?_⟩
    have early : past <+: t₁ := (List.prefix_append _ _).trans since
    have lawful₁ := lawful₂.of_le le
    calc
      (Trace.buffer d.segment past).tail = ending 0 (d.log past) := tail_eq (lawful₁.of_le early)
      _ ≤ ending 0 (d.log t₁) := ending_mono lawful₁ early
      _ ≤ copy.revision.offset := reached
      _ ≤ copy'.revision.offset := newer

theorem written_of_unimpeded (founds : caller.operation.Founds) (free : d.Unimpeded caller s.trace) :
    d.log s.trace ≠ [] ∧ ∀ snapshot cause, caller.operation = .establish snapshot → result = .error cause →
      cause = .alreadyInitialized d.segment := by
  let post (result : Except CoreError (Result M R)) (t : Trace M R (Operation M)) : Prop :=
    d.log t ≠ [] ∧ ∀ snapshot cause, caller.operation = .establish snapshot → result = .error cause →
      cause = .alreadyInitialized d.segment
  have untroubled : d.Untroubled (conduct M R) caller [] s.trace := ⟨(secure_of_reachable reachable).lawful, free.1⟩
  obtain ⟨snapshot, wants⟩ := Operation.founds_iff.mp founds
  obtain ⟨bytes, encoded⟩ := free.2 snapshot wants
  obtain ⟨t, idled, ended⟩ := System.yielded_of_reachable (d.Untroubled (conduct M R) caller []) post reachable returned
    (fun le fine => ⟨fine.1.of_le le, fine.2.of_le le⟩) untroubled fun past _ _ => by
      refine Attempt.Yields.run ?_
      cases operation : caller.operation with
      | establish first =>
        rw [operation] at wants
        cases wants
        refine .bind (establish_untroubled caller.place encoded List.nil_prefix ?_ ?_)
        · exact fun t' written => .pure ⟨written, fun _ _ _ => nofun⟩
        · rintro t' written
          refine ⟨written, ?_⟩
          rintro _ _ _ ⟨⟩
          rfl
      | establishIfAbsent first =>
        rw [operation] at wants
        cases wants
        have plain : ∀ result t', d.log t' ≠ [] → post result t' := fun _ _ written =>
          ⟨written, fun _ _ other => by rw [operation] at other; cases other⟩
        exact .bind (establishIfAbsent_untroubled caller.place encoded List.nil_prefix (plain _)
          (fun answer t' written => .pure (plain _ t' written)) fun cause => plain _)
      | _ =>
        rw [operation] at wants
        cases wants
  exact ⟨written_of_le ended.1 idled.le, ended.2⟩

end Ended

/-- However many calls are to begin a new log at once, and whatever other calls of replicas run among them, at most
one of them writes its first record, and is told that it did. The others have written nothing. -/
theorem founding_decided (reachable : d.Reachable R s) (polite : Polite s) : d.FoundingDecided s := by
  have secure := secure_of_reachable reachable
  have lawful := secure.lawful
  have clean := polite.clean secure
  have empty : ∀ {past e entry}, past ++ [e] <+: s.trace → e.caller.operation.Founds →
      e.landed? d.segment = some entry → d.log past = [] ∧ entry.offset = 0 := fun le founds landed =>
    unwritten_of_landed (lawful.of_le le) (clean.of_le le) founds landed
  refine ⟨?_, ?_, ?_, ?_, ?_, ?_, ?_⟩
  · intro past e entry snapshot le wants landed
    obtain ⟨unwritten, begins⟩ := empty le (Operation.founds_iff.mpr ⟨snapshot, wants⟩) landed
    exact ⟨unwritten, begins, encode_of_landed reachable (le.subset (by simp)) wants landed⟩
  · intro past e entry past' e' entry' le le' founds founds' landed landed'
    have after : ∀ {past past' : Trace M R (Operation M)} {e e' : Event M R (Operation M)} {entry : Entry},
        past ++ [e] <+: past' ++ [e'] → e.landed? d.segment = some entry → d.log past' = [] →
        past = past' ∧ e = e' := by
      intro past past' e e' entry le landed unwritten
      rcases List.prefix_concat_iff.mp le with same | short
      · obtain ⟨rfl, last⟩ := List.append_inj' same rfl
        exact ⟨rfl, List.singleton_inj.mp last⟩
      · have found : entry ∈ d.log past' := List.mem_filterMap.mpr ⟨e, short.subset (by simp), landed⟩
        rw [unwritten] at found
        cases found
    have unwritten := (empty le founds landed).1
    have unwritten' := (empty le' founds' landed').1
    rcases List.prefix_or_prefix_of_prefix le le' with short | short
    · exact after short landed unwritten'
    · obtain ⟨rfl, rfl⟩ := after short landed' unwritten
      exact ⟨rfl, rfl⟩
  · intro caller snapshot result wants returned
    rcases establish_ended reachable returned wants with ⟨rfl, lands⟩ | ⟨⟨cause, rfl⟩, unlanded, _⟩
    · exact ⟨fun _ => lands, fun _ => rfl⟩
    · exact ⟨nofun, fun lands => absurd lands unlanded⟩
  · intro caller snapshot result wants returned
    rcases establishIfAbsent_ended reachable returned polite wants with ⟨rfl, lands⟩ | ⟨other, unlanded, _⟩
    · exact ⟨fun _ => lands, fun _ => rfl⟩
    · exact ⟨fun same => absurd same other, fun lands => absurd lands unlanded⟩
  · intro caller result founds returned free
    obtain ⟨written, _⟩ := written_of_unimpeded reachable returned founds free
    obtain ⟨past, e, entry, le, founds', landed⟩ := exists_founding lawful clean written
    exact ⟨e, le.subset (by simp), founds', entry, landed⟩
  · intro caller snapshot result wants returned unlanded
    rcases establish_ended reachable returned wants with ⟨_, lands⟩ | ⟨⟨cause, failed⟩, _, untouched⟩
    · exact absurd lands unlanded
    · refine ⟨untouched, fun free => ?_⟩
      have founds : caller.operation.Founds := wants ▸ trivial
      rw [failed, (written_of_unimpeded reachable returned founds free).2 snapshot cause wants failed]
  · intro caller snapshot wants returned
    rcases establishIfAbsent_ended reachable returned polite wants with ⟨other, _⟩ | ⟨_, unlanded, found⟩
    · cases other
    · exact ⟨unlanded, found rfl⟩

end Runs

/-- Three replicas find the segment empty. The second one writes the first record, and its place writes on and
compacts the log before the others try. -/
def contest : List (Move (Operation Model.bytes)) := List.flatten [
  Move.run ⟨0, 0, .createSegment⟩ 1,
  Move.run ⟨1, 0, .establish [1]⟩ 5,
  Move.run ⟨2, 1, .establish [2]⟩ 5,
  Move.run ⟨3, 2, .establishIfAbsent [3]⟩ 5,
  Move.steps 2 10,
  Move.run ⟨4, 1, .updateState⟩ 30,
  Move.run ⟨5, 1, .compact⟩ 45,
  Move.steps 1 10,
  Move.steps 3 40]

def toldBegun (place : Nat) (first : Bytes) (won : Bool) :
    Call Model.bytes Unit (Operation Model.bytes) (Result Model.bytes Unit) → Bool
  | ⟨⟨_, here, .establish snapshot⟩, .done (.ok .nothing)⟩ => decide (here = place ∧ snapshot = first ∧ won = true)
  | ⟨⟨_, here, .establish snapshot⟩, .done (.error (.alreadyInitialized segment))⟩ =>
    decide (here = place ∧ snapshot = first ∧ won = false ∧ segment = ofBytes.segment)
  | _ => false

def toldFound (place : Nat) (first : Bytes) :
    Call Model.bytes Unit (Operation Model.bytes) (Result Model.bytes Unit) → Bool
  | ⟨⟨_, here, .establishIfAbsent snapshot⟩, .done (.ok (.flag false))⟩ => decide (here = place ∧ snapshot = first)
  | _ => false

theorem returned_of_toldBegun (schedule : List (Move (Operation Model.bytes))) (id place : Nat) (first : Bytes)
    (won : Bool) (checked : ((playBytes 2 schedule).calls id).any (toldBegun place first won) = true) :
    (playBytes 2 schedule).Returned ⟨id, place, .establish first⟩
      (if won then .ok .nothing else .error (.alreadyInitialized ofBytes.segment)) := by
  have reachable := reachable_playBytes 2 schedule
  refine System.returned_of_any reachable (toldBegun place first won) (fun call checked => ?_) checked
  unfold toldBegun at checked
  split at checked
  · obtain ⟨here, rfl, rfl⟩ := of_decide_eq_true checked
    exact ⟨here, rfl, rfl⟩
  · obtain ⟨here, rfl, rfl, rfl⟩ := of_decide_eq_true checked
    exact ⟨here, rfl, rfl⟩
  · cases checked

theorem contest_decided : ofBytes.Reachable Unit (playBytes 2 contest) ∧ Polite (playBytes 2 contest) ∧
    ofBytes.FoundingDecided (playBytes 2 contest) ∧
    ((playBytes 2 contest).Returned ⟨2, 1, .establish [2]⟩ (.ok .nothing) ∧
      ofBytes.Lands ⟨2, 1, .establish [2]⟩ (playBytes 2 contest).trace) ∧
    ((playBytes 2 contest).Returned ⟨1, 0, .establish [1]⟩ (.error (.alreadyInitialized ofBytes.segment)) ∧
      ¬ofBytes.Lands ⟨1, 0, .establish [1]⟩ (playBytes 2 contest).trace) ∧
    (playBytes 2 contest).Returned ⟨3, 2, .establishIfAbsent [3]⟩ (.ok (.flag false)) ∧
    ((playBytes 2 contest).trace.cache 2).map (·.state) = some [2, 2] := by
  have reachable := reachable_playBytes 2 contest
  have polite : Polite (playBytes 2 contest) := polite_of_all reachable (by decide +kernel)
  have decided := founding_decided reachable polite
  have won : (playBytes 2 contest).Returned ⟨2, 1, .establish [2]⟩ (.ok .nothing) :=
    returned_of_toldBegun contest 2 1 [2] true (by decide +kernel)
  have lost : (playBytes 2 contest).Returned ⟨1, 0, .establish [1]⟩ (.error (.alreadyInitialized ofBytes.segment)) :=
    returned_of_toldBegun contest 1 0 [1] false (by decide +kernel)
  have found : (playBytes 2 contest).Returned ⟨3, 2, .establishIfAbsent [3]⟩ (.ok (.flag false)) := by
    refine System.returned_of_any reachable (toldFound 2 [3]) (fun call checked => ?_) (by decide +kernel)
    unfold toldFound at checked
    split at checked
    · obtain ⟨here, rfl⟩ := of_decide_eq_true checked
      exact ⟨here, rfl, rfl⟩
    · cases checked
  have copied : ((playBytes 2 contest).trace.cache 2).map (·.state) = some [2, 2] := by decide +kernel
  exact ⟨reachable, polite, decided, ⟨won, (decided.established _ _ _ rfl won).mp rfl⟩,
    ⟨lost, fun lands => nomatch (decided.established _ _ _ rfl lost).mpr lands⟩, found, copied⟩

end Deployment

end LogReplica
