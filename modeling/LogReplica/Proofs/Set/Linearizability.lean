import LogReplica.Proofs.Set.Runs

namespace LogReplica

namespace SetOperation

variable {α : Type} [Ord α]

/-- Calls that show what the set is, or change it. -/
def Observes : SetOperation α → Prop
  | openOrCreate | update | close => False
  | _ => True

/-- What such a call may answer where the set is `s`, and what the set is then. -/
def Answers (s : Set α) : SetOperation α → SetResult α → Prop
  | add value, .nothing => value ∈ s
  | remove value, .nothing => value ∉ s
  | clear, .nothing => s = ∅
  | contains value, .flag found => found = true ↔ value ∈ s
  | currentValues, .members values => values.elements = s
  | currentSize, .size n => s.encard = n
  | _, _ => False

variable {operation : SetOperation α}

theorem Observes.cases (observes : operation.Observes) :
    (∃ wanted, operation.update? = some wanted) ∨ ∃ shown, operation.reading? = some shown := by
  cases operation <;> first | exact observes.elim | exact .inl ⟨_, rfl⟩ | exact .inr ⟨_, rfl⟩

theorem update?_of_reading? {shown : MemberSet α → SetResult α} (reads : operation.reading? = some shown) :
    operation.update? = none := by
  cases operation <;> cases reads <;> rfl

theorem answers_of_update? {s : Set α} {wanted : SetUpdate α} (wants : operation.update? = some wanted)
    (done : wanted.Done s) : operation.Answers s .nothing := by
  cases operation <;> cases wants <;> exact done

theorem answers_of_reading? [Std.TransOrd α] [Std.LawfulEqOrd α] {shown : MemberSet α → SetResult α}
    (reads : operation.reading? = some shown) (s : MemberSet α) :
    operation.Answers s.members.elements (shown s) := by
  cases operation <;> cases reads
  · exact SortedSet.contains_iff
  · rfl
  · exact s.members.encard_elements

end SetOperation

namespace ReplicatedSet

variable {α : Type} [Ord α] [Std.TransOrd α] [Std.LawfulEqOrd α] {R : Type}

/-- A step of a run: only an update makes another set of it, and none lands where the set is that way already. -/
inductive Transition (d : Deployment (Model.memberSet α)) (past : Trace (Model.memberSet α) R (SetOperation α))
    (e : Event (Model.memberSet α) R (SetOperation α)) : Prop
  | still (unlanded : e.landed? d.segment = none) (same : d.elements (d.log (past ++ [e])) = d.elements (d.log past))
  | snapshot (entry : Entry) (members : SortedSet α) (landed : e.landed? d.segment = some entry)
    (decoded : d.codec.decode entry.data = .ok (.init members))
    (same : d.elements (d.log (past ++ [e])) = d.elements (d.log past))
  | changed (wanted : SetUpdate α) (asked : e.caller.operation.update? = some wanted)
    (lands : d.lands? e.deed = some [wanted]) (pending : ¬wanted.Done (d.elements (d.log past)))
    (changes : d.elements (d.log (past ++ [e])) = wanted.change (d.elements (d.log past)))

/-- What holds of a run of calls on a shared set. -/
structure Linearized (d : Deployment (Model.memberSet α))
    (s : System (Model.memberSet α) R (SetOperation α) (SetResult α)) : Prop where
  /-- As soon as there is a log it stands for a set, always under the name of its stream. -/
  named : ∀ past, past <+: s.trace → d.log past ≠ [] → ∃ set, d.fold (d.log past) = some set ∧ set.name = d.name
  steps : ∀ past e, past ++ [e] <+: s.trace → Transition d past e
  /-- No call lands more than one update, whether it has ended or not. -/
  single : ∀ e ∈ s.trace, s.trace.own e.caller d.lands? = [] ∨
    ∃ wanted, e.caller.operation.update? = some wanted ∧ s.trace.own e.caller d.lands? = [[wanted]]
  /-- A call that has succeeded has taken effect at an instant of its own. If it has landed an update, it was then. -/
  effect : ∀ caller result, caller.operation.Observes → s.Returned caller (.ok result) →
    ∃ now, s.trace.Amid caller now ∧ caller.operation.Answers (d.elements (d.log now)) result ∧
      (s.trace.own caller d.lands? = [] ∨ ∃ past deed wanted, now = past ++ [⟨caller, deed⟩] ∧
        d.lands? deed = some [wanted] ∧ ¬wanted.Done (d.elements (d.log past)))

variable {d : Deployment (Model.memberSet α)} {me : Caller (SetOperation α)} {wanted : SetUpdate α}
  {t t' past : Trace (Model.memberSet α) R (SetOperation α)} {e : Event (Model.memberSet α) R (SetOperation α)}
  {s : System (Model.memberSet α) R (SetOperation α) (SetResult α)} {entry : Entry}

theorem proposed_of_lands? (sound : d.Sound) (lawful : Lawful (d.law (conduct R d)) (past ++ [e]))
    {batch : List (SetUpdate α)} (lands : d.lands? e.deed = some batch) :
    ∃ state wanted, d.fold (d.log past) = some state ∧ e.caller.operation.update? = some wanted ∧ batch = [wanted] ∧
      ¬wanted.Done (d.elements (d.log past)) ∧ past.own e.caller d.lands? = [] := by
  obtain ⟨entry, landed, decoded⟩ := Deployment.exists_of_lands? lands
  obtain ⟨_, record, encoded, basis⟩ := Deployment.landing lawful id landed
  obtain rfl : Record.updates batch = record := Except.ok.inj (decoded.symm.trans (sound.roundTrips _ _ encoded))
  rcases basis with ⟨_, ⟨_, first⟩, _⟩ | ⟨_, state, folded, wanted, asked, same, pending, unwritten⟩
  · cases first
  · have folded := folded sound
    exact ⟨state, wanted, folded, asked, same, Deployment.elements_of_fold folded ▸ pending, unwritten⟩

section Reached

variable (sound : d.Sound) (reachable : s.Reachable (program d))

include reachable

theorem encode_of_opened (member : e ∈ s.trace) (opens : e.caller.operation = .openOrCreate)
    (landed : e.landed? d.segment = some entry) : d.codec.encode (.init .empty) = .ok entry.data := by
  let allowed (operation : SetOperation α) (action : Action (Model.memberSet α) R) : Prop :=
    operation = .openOrCreate → Action.OfWriting d.segment d.codec (Eq (.init .empty)) action
  have confined : ∀ place operation, (program d place operation).run.Confined (allowed operation) fun _ => True := by
    intro place operation
    cases operation with
    | openOrCreate =>
      have creates : (openOrCreate (d.replica place) : Attempt (Model.memberSet α) R Bool).Writing (d.client place)
          (Eq (.init .empty)) :=
        .bind (.bind (.ask (.reads (.inl trivial)) fun _ => trivial) fun _ => .pure ()) fun _ =>
          (d.replica place).establishIfAbsent_writing rfl
      exact Procedure.Confined.mono (Attempt.Confined.bind creates fun _ => .pure _) (fun _ only _ => only) fun _ _ =>
        trivial
    | _ => exact .of_forall (fun _ => nofun) fun _ => trivial
  obtain ⟨_, rfl, encoded⟩ := Event.exists_of_landed (fun action answer deed =>
    (System.confined_of_reachable confined reachable).1 e member action answer deed opens) landed
  exact encoded

include sound

theorem transition (le : past ++ [e] <+: s.trace) : Transition d past e := by
  have lawful := (secure_of_reachable reachable).lawful.of_le le
  cases landed : e.landed? d.segment with
  | none => exact .still landed (congrArg d.elements (Deployment.log_of_unlanded past landed))
  | some entry =>
    have log := Deployment.log_of_landed past landed
    obtain ⟨begins, record, encoded, basis⟩ := Deployment.landing lawful id landed
    have decoded := sound.roundTrips _ _ encoded
    cases record with
    | init members =>
      refine .snapshot entry members landed decoded ?_
      rw [log, Deployment.elements_snapshot decoded]
      rcases basis with founds | ⟨_, state, folded, _, rfl⟩
      · -- The log has not begun, so it stands for no members, and those of the snapshot are none.
        have opened := encode_of_opened reachable (le.subset (by simp)) founds.1 landed
        have unwritten := (begins ▸ founds).unwritten lawful.of_concat.1 fun _ _ => id
        cases (sound.roundTrips _ _ opened).symm.trans decoded
        rw [unwritten]
        exact SortedSet.elements_empty
      · exact (Deployment.elements_of_fold (folded sound)).symm
    | updates batch =>
      have lands : d.lands? e.deed = some batch := Deployment.lands?_of_landed landed decoded
      obtain ⟨state, wanted, folded, asked, rfl, pending, _⟩ := proposed_of_lands? sound lawful lands
      refine .changed wanted asked lands pending ?_
      rw [log]
      exact Deployment.elements_update folded decoded

end Reached

theorem own_of_lawful (sound : d.Sound) (lawful : Lawful (d.law (conduct R d)) t)
    (known : ∀ e ∈ t, e.caller.call = me.call → e.caller = me) : t.own me d.lands? = [] ∨
      ∃ wanted, me.operation.update? = some wanted ∧ t.own me d.lands? = [[wanted]] := by
  induction lawful with
  | nil => exact .inl rfl
  | @concat past e lawful fits obeys ih =>
    have before := ih fun e' member => known e' (List.mem_append_left _ member)
    by_cases mine : e.caller.call = me.call
    · obtain ⟨caller, deed⟩ := e
      obtain rfl : caller = me := known _ (by simp) mine
      rw [Trace.own_concat]
      cases lands : d.lands? deed with
      | none => simpa using before
      | some batch =>
        -- A second update would be against the law, which lets a call land its first one only.
        obtain ⟨_, wanted, _, asked, rfl, _, unwritten⟩ := proposed_of_lands? sound (.concat lawful fits obeys) lands
        exact .inr ⟨wanted, asked, by rw [unwritten]; rfl⟩
    · have idled : Idled me past (past ++ [e]) := by
        refine ⟨[e], rfl, fun e' member mine' => ?_⟩
        rw [List.mem_singleton.mp member] at mine'
        exact mine mine'
      rwa [idled.own_eq fun _ => False.elim]

variable (d me wanted) in
/-- The call has made the set the way it is to, or found it that way, at an instant of its own. -/
def Effected (t : Trace (Model.memberSet α) R (SetOperation α)) : Prop :=
  ∃ now, t.Amid me now ∧ wanted.Done (d.elements (d.log now)) ∧
    (t.own me d.lands? = [] ∨ ∃ past deed, now = past ++ [⟨me, deed⟩] ∧ d.lands? deed = some [wanted] ∧
      ¬wanted.Done (d.elements (d.log past)))

theorem Effected.passed (effected : Effected d me wanted t) {allowed : Deed (Model.memberSet α) R → Prop}
    (passed : Passed me allowed t t') (silent : ∀ deed, allowed deed → d.lands? deed = none) :
    Effected d me wanted t' := by
  obtain ⟨now, amid, done, landed⟩ := effected
  exact ⟨now, amid.mono passed.le, done, landed.imp_left (passed.own_eq silent).trans⟩

theorem change_amid (sound : d.Sound) (place : Nat) (lawful : Lawful (d.law (conduct R d)) t)
    (called : ⟨me, .called⟩ ∈ t) (wants : me.operation.update? = some wanted) (unwritten : t.own me d.lands? = [])
    {crash : Trace (Model.memberSet α) R (SetOperation α) → Prop}
    {ok : Unit → Trace (Model.memberSet α) R (SetOperation α) → Prop}
    {err : CoreError → Trace (Model.memberSet α) R (SetOperation α) → Prop} (crashes : ∀ t', crash t')
    (failed : ∀ cause t', err cause t') (effected : ∀ t', Effected d me wanted t' → ok () t') :
    Attempt.Yields (Lawful (d.law (conduct R d))) me crash ok err (change (d.replica place) wanted) t := by
  refine Deployment.updateBy_amid sound place crashes failed lawful called ?_ ?_ ?_
  · exact fun s past some went => proposed_of_went wants unwritten went s some
  · intro s _ t' now went amid folded none
    refine effected t' ⟨now, amid, ?_, .inl ?_⟩
    · rw [Deployment.elements_of_fold folded]
      rcases proposal_cases wanted s with ⟨done, _⟩ | ⟨_, some⟩
      · exact done
      · cases (congrArg Prod.fst none).symm.trans some
    · have passed : Passed me (Deed.Quiet d.segment) t t' := went.grows
      exact (passed.own_eq fun _ => Deployment.lands?_of_quiet).trans unwritten
  · intro _ s entry past t₁ t' _ landed _ amid
    obtain ⟨last, lawful⟩ := landed.did
    -- Where the write landed, the copy it was chosen for was the whole log, so the update was pending there too.
    have decoded := sound.roundTrips _ _ landed.encoded
    have lands : d.lands? (.acted (.ask d.segment (.append (some entry.offset) entry.data))
        (.ok (.appended entry.offset entry.endOffset)) : Deed (Model.memberSet α) R) = some (proposal wanted s) := by
      simp [Deployment.lands?, decoded]
    obtain ⟨state, wanted', folded, asked, same, pending, _⟩ := proposed_of_lands? sound (last ▸ lawful) lands
    obtain rfl : wanted' = wanted := Option.some.inj (asked.symm.trans wants)
    rw [same] at decoded lands
    refine effected t' ⟨t₁, amid, ?_, .inr ⟨past, _, last, lands, pending⟩⟩
    rw [landed.log, Deployment.elements_update folded decoded]
    exact wanted'.done_change _

variable (d) in
def Silent (action : Action (Model.memberSet α) R) : Prop :=
  ∀ answer, d.lands? (.acted action answer) = none

theorem lands?_of_silent {deed : Deed (Model.memberSet α) R} (within : deed.Within (Silent d)) :
    d.lands? deed = none := by
  cases deed with
  | called | failed | gaveUp => rfl
  | acted action answer => exact within answer

theorem compact_silent (sound : d.Sound) (place : Nat) :
    (compact (d.replica place) : Attempt (Model.memberSet α) R Unit).Confined (Silent d) fun _ => True := by
  refine (compact_confined (d.replica place)).mono (fun action writing answer => ?_) fun _ => id
  have within : (Deed.acted action answer : Deed (Model.memberSet α) R).Within _ := writing
  exact Deployment.lands?_of_within sound.roundTrips within

theorem finish_silent (sound : d.Sound) (place : Nat) (wanted : SetUpdate α) :
    (finish (d.replica place) wanted : Attempt (Model.memberSet α) R Unit).Confined (Silent d) fun _ => True := by
  have touches : ∀ t : Touch (MemberSet α), Silent d (.touch t : Action (Model.memberSet α) R) := fun _ _ => rfl
  cases wanted with
  | add value => exact .pure ()
  | clear => exact compact_silent sound place
  | remove value =>
    have counts : (countRemoval (d.replica place) : Attempt (Model.memberSet α) R Unit).Confined (Silent d)
        fun _ => True := by
      refine .bind (.touch (touches _)) fun left => .bind (.touch (touches _)) fun _ => ?_
      split
      · exact .bind (compact_silent sound place) fun _ => .touch (touches _)
      · exact .pure ()
    refine .bind (.touch (touches _)) fun _ => .bind_lift ?_
    refine Procedure.Confined.mono counts (fun _ => id) fun counted _ => .bind (.touch (touches _)) fun _ => ?_
    cases counted with
    | ok => exact .pure ()
    | error cause => exact .throw trivial

section Reached

variable (sound : d.Sound) (reachable : s.Reachable (program d)) {result : SetResult α}
  (returned : s.Returned me (.ok result))

include sound reachable returned

theorem effected_of_returned (wants : me.operation.update? = some wanted) :
    result = .nothing ∧ Effected d me wanted s.trace := by
  let post (answer : Except CoreError (SetResult α)) (t : Trace (Model.memberSet α) R (SetOperation α)) : Prop :=
    ∀ result, answer = .ok result → result = .nothing ∧ Effected d me wanted t
  have lawful := (secure_of_reachable reachable).lawful
  obtain ⟨t, idled, effected⟩ := System.yielded_of_reachable (Lawful (d.law (conduct R d))) post reachable returned
    (fun le lawful => lawful.of_le le) lawful fun past fresh le => by
      have unwritten : Trace.own me d.lands? (past ++ [⟨me, .called⟩]) = [] := own_of_called fresh
      rw [program_of_update? d me.place wants]
      refine Attempt.Yields.run (.bind ?_)
      refine change_amid sound me.place (lawful.of_le le) (by simp) wants unwritten ?_ ?_ ?_
      · exact fun _ _ => nofun
      · exact fun _ _ _ => nofun
      · intro t' effected
        refine .bind ((finish_silent sound me.place wanted).yields (fun _ _ _ => nofun) ?_ fun _ _ _ _ _ => nofun)
        refine fun _ t'' passed => .pure ?_
        rintro _ ⟨⟩
        exact ⟨rfl, effected.passed passed fun _ => lands?_of_silent⟩
  obtain ⟨same, effected⟩ := effected result rfl
  exact ⟨same, effected.passed idled fun _ => False.elim⟩

theorem shown_of_returned {shown : MemberSet α → SetResult α} (reads : me.operation.reading? = some shown) :
    ∃ now, s.trace.Amid me now ∧ me.operation.Answers (d.elements (d.log now)) result := by
  let post (answer : Except CoreError (SetResult α)) (t : Trace (Model.memberSet α) R (SetOperation α)) : Prop :=
    ∀ result, answer = .ok result → ∃ now, t.Amid me now ∧ me.operation.Answers (d.elements (d.log now)) result
  have lawful := (secure_of_reachable reachable).lawful
  obtain ⟨t, idled, given⟩ := System.yielded_of_reachable (Lawful (d.law (conduct R d))) post reachable returned
    (fun le lawful => lawful.of_le le) lawful fun past _ _ => by
      rw [program_of_reading? d me.place reads]
      refine Attempt.Yields.run (.bind (.bind (Deployment.getRevisionedState_amid sound me.place (by simp) ?_ ?_ ?_)))
      · exact fun _ _ => nofun
      · rintro copy t' now amid ⟨_, _, folded⟩
        refine .pure (.pure ?_)
        rintro _ ⟨⟩
        refine ⟨now, amid, ?_⟩
        rw [Deployment.elements_of_fold folded]
        exact SetOperation.answers_of_reading? reads copy.state
      · exact fun _ _ _ => nofun
  obtain ⟨now, amid, answers⟩ := given result rfl
  exact ⟨now, amid.mono idled.le, answers⟩

end Reached

/-- Any number of sets that share a segment are one set, as long as payloads read back as they were written. -/
theorem sets_linearizable (updates : d.updates.RoundTrips) (snapshots : d.snapshots.RoundTrips)
    (reachable : s.Reachable (program d)) : Linearized d s := by
  have sound : d.Sound := ⟨updates, snapshots, Model.memberSet_positional⟩
  have lawful := (secure_of_reachable reachable).lawful
  have single : ∀ e ∈ s.trace, s.trace.own e.caller d.lands? = [] ∨
      ∃ wanted, e.caller.operation.update? = some wanted ∧ s.trace.own e.caller d.lands? = [[wanted]] := by
    intro e member
    obtain ⟨rest, here⟩ := System.known_of_reachable reachable member
    exact own_of_lawful sound lawful fun e' member' mine => System.caller_eq_of_known reachable here member' mine
  refine ⟨?_, fun past e le => transition sound reachable le, single, ?_⟩
  · intro past le written
    have shape := Deployment.shape sound.roundTrips (lawful.of_le le) fun _ _ => id
    obtain ⟨set, folded⟩ := shape.states _ (List.prefix_refl _) written
    exact ⟨set, folded, Deployment.name_of_fold folded⟩
  · intro caller result observes returned
    rcases observes.cases with ⟨wanted, wants⟩ | ⟨shown, reads⟩
    · obtain ⟨rfl, now, amid, done, landed⟩ := effected_of_returned sound reachable returned wants
      refine ⟨now, amid, SetOperation.answers_of_update? wants done, landed.imp_right ?_⟩
      rintro ⟨past, deed, same, lands, pending⟩
      exact ⟨past, deed, wanted, same, lands, pending⟩
    · obtain ⟨now, amid, answers⟩ := shown_of_returned sound reachable returned reads
      refine ⟨now, amid, answers, .inl ?_⟩
      rcases single _ (amid.le.subset amid.called) with none | ⟨wanted, wants, _⟩
      · exact none
      · rw [SetOperation.update?_of_reading? reads] at wants
        cases wants

def updateOctets : Codec (SetUpdate UInt8) where
  encode
    | .add value => .ok [0, value]
    | .remove value => .ok [1, value]
    | .clear => .ok [2]
  decode
    | [0, value] => .ok (.add value)
    | [1, value] => .ok (.remove value)
    | [2] => .ok .clear
    | _ => .error .decodingFailed

def memberOctets : Codec (SortedSet UInt8) where
  encode s := .ok s.toList
  decode bytes := .ok (.ofList bytes)

theorem updateOctets_roundTrips : updateOctets.RoundTrips := by
  intro update _ encoded
  cases update <;> cases encoded <;> rfl

theorem memberOctets_roundTrips : memberOctets.RoundTrips := by
  rintro s _ ⟨⟩
  exact congrArg Except.ok s.ofList_toList

def ofOctets : Deployment (Model.memberSet UInt8) where
  segment := ⟨"scope", "stream", 0⟩
  updates := updateOctets
  snapshots := memberOctets
  readBuffer _ := 64
  retry _ := .unbounded

def playOctets (schedule : List (Move (SetOperation UInt8))) :
    System (Model.memberSet UInt8) Unit (SetOperation UInt8) (SetResult UInt8) :=
  (System.Stage.initial.play (program ofOctets) (fun _ => ([], ())) (·.members) schedule).system

theorem reachable_playOctets (schedule : List (Move (SetOperation UInt8))) :
    (playOctets schedule).Reachable (program ofOctets) := (System.Stage.fair_initial.play schedule).steps

/-- An addition lands after the set was emptied and before that call writes its snapshot. Then the history is
compacted once more, by the last one of five removals of what is no member. -/
def crossing : List (Move (SetOperation UInt8)) := List.flatten [
  Move.run ⟨0, 0, .openOrCreate⟩ 10,
  Move.run ⟨1, 1, .openOrCreate⟩ 18,
  Move.run ⟨2, 0, .add 1⟩ 15,
  Move.run ⟨3, 1, .add 2⟩ 17,
  Move.run ⟨4, 0, .clear⟩ 26,
  Move.run ⟨5, 1, .add 3⟩ 17,
  Move.steps 4 40,
  Move.run ⟨6, 0, .contains 3⟩ 10,
  Move.run ⟨7, 1, .remove 9⟩ 14,
  Move.run ⟨8, 1, .remove 9⟩ 14,
  Move.run ⟨9, 1, .remove 9⟩ 14,
  Move.run ⟨10, 1, .remove 9⟩ 14,
  Move.run ⟨11, 1, .remove 9⟩ 40,
  Move.run ⟨12, 0, .currentValues⟩ 12]

def answered (place : Nat) (operation : SetOperation UInt8) (result : SetResult UInt8) :
    Call (Model.memberSet UInt8) Unit (SetOperation UInt8) (SetResult UInt8) → Bool
  | ⟨⟨_, here, operation'⟩, .done (.ok result')⟩ =>
    decide (here = place ∧ operation' = operation ∧ result' = result)
  | _ => false

theorem returned_of_answered (schedule : List (Move (SetOperation UInt8))) {id place : Nat}
    {operation : SetOperation UInt8} {result : SetResult UInt8}
    (checked : ((playOctets schedule).calls id).any (answered place operation result) = true) :
    (playOctets schedule).Returned ⟨id, place, operation⟩ (.ok result) := by
  refine System.returned_of_any (reachable_playOctets schedule) _ (fun call checked => ?_) checked
  unfold answered at checked
  split at checked
  · obtain ⟨here, rfl, rfl⟩ := of_decide_eq_true checked
    exact ⟨here, rfl, rfl⟩
  · cases checked

theorem crossing_linearized : ofOctets.updates.RoundTrips ∧ ofOctets.snapshots.RoundTrips ∧
    (playOctets crossing).Reachable (program ofOctets) ∧ Linearized ofOctets (playOctets crossing) ∧
    (playOctets crossing).Returned ⟨4, 0, .clear⟩ (.ok .nothing) ∧
    (playOctets crossing).Returned ⟨5, 1, .add 3⟩ (.ok .nothing) ∧
    (playOctets crossing).Returned ⟨12, 0, .currentValues⟩ (.ok (.members (.ofList [3]))) ∧
    ∃ now, (playOctets crossing).trace.Amid ⟨12, 0, .currentValues⟩ now ∧
      (SortedSet.ofList [3]).elements = ofOctets.elements (ofOctets.log now) := by
  have reachable := reachable_playOctets crossing
  have linearized := sets_linearizable updateOctets_roundTrips memberOctets_roundTrips reachable
  have cleared : (playOctets crossing).Returned ⟨4, 0, .clear⟩ (.ok .nothing) :=
    returned_of_answered crossing (by decide +kernel)
  have added : (playOctets crossing).Returned ⟨5, 1, .add 3⟩ (.ok .nothing) :=
    returned_of_answered crossing (by decide +kernel)
  have told : (playOctets crossing).Returned ⟨12, 0, .currentValues⟩ (.ok (.members (.ofList [3]))) :=
    returned_of_answered crossing (by decide +kernel)
  have observes : (⟨12, 0, .currentValues⟩ : Caller (SetOperation UInt8)).operation.Observes := trivial
  obtain ⟨now, amid, answers, _⟩ := linearized.effect _ _ observes told
  exact ⟨updateOctets_roundTrips, memberOctets_roundTrips, reachable, linearized, cleared, added, told, now, amid,
    answers⟩

end ReplicatedSet

end LogReplica
