import LogReplica.Proofs.Replica.Linearizability
import LogReplica.Proofs.Set.Membership

namespace LogReplica

inductive SetOperation (α : Type) where
  | openOrCreate
  | update
  | add (value : α)
  | remove (value : α)
  | clear
  | contains (value : α)
  | currentValues
  | currentSize
  | close
deriving DecidableEq

namespace SetOperation

variable {α : Type}

def update? : SetOperation α → Option (SetUpdate α)
  | add value => some (.add value)
  | remove value => some (.remove value)
  | clear => some .clear
  | _ => none

def Compacts : SetOperation α → Prop
  | remove _ | clear => True
  | _ => False

end SetOperation

inductive SetResult (α : Type) [Ord α] where
  | nothing
  | flag (b : Bool)
  | members (values : SortedSet α)
  | size (n : Nat)
deriving DecidableEq

def SetOperation.reading? {α : Type} [Ord α] : SetOperation α → Option (MemberSet α → SetResult α)
  | contains value => some fun s => .flag (s.members.contains value)
  | currentValues => some fun s => .members s.members
  | currentSize => some fun s => .size s.members.size
  | _ => none

namespace Deployment

variable {M : Model} {R O : Type} {d : Deployment M} {e : Event M R O} {entry : Entry} {deed : Deed M R}

def lands? (d : Deployment M) (deed : Deed M R) : Option (List M.Update) :=
  match deed with
  | .acted (.ask named (.append _ data)) (.ok (.appended _ _)) =>
    if named = d.segment then
      match d.codec.decode data with
      | .ok (.updates batch) => some batch
      | _ => none
    else none
  | _ => none

theorem exists_of_lands? {batch : List M.Update} (lands : d.lands? e.deed = some batch) :
    ∃ entry, e.landed? d.segment = some entry ∧ d.codec.decode entry.data = .ok (.updates batch) := by
  unfold lands? at lands
  split at lands
  · rename_i named expected data offset endOffset deed
    split at lands
    · rename_i here
      split at lands
      · rename_i decoded
        cases lands
        exact ⟨⟨offset, endOffset, data⟩, by simp [Event.landed?, deed, here], decoded⟩
      · cases lands
    · cases lands
  · cases lands

theorem lands?_of_landed (landed : e.landed? d.segment = some entry) {record : M.Record}
    (decoded : d.codec.decode entry.data = .ok record) :
    d.lands? e.deed = match record with
      | .updates batch => some batch
      | .init _ => none := by
  unfold Event.landed? at landed
  split at landed
  · rename_i named expected data offset endOffset deed
    split at landed
    · rename_i here
      cases landed
      cases record <;> simp [lands?, deed, here, decoded]
    · cases landed
  · cases landed

theorem lands?_of_quiet (quiet : deed.Quiet d.segment) : d.lands? deed = none := by
  unfold lands?
  split
  · exact if_neg quiet
  · rfl

theorem lands?_of_within (trips : d.codec.RoundTrips)
    (within : deed.Within (Action.OfWriting d.segment d.codec fun record => ∃ snapshot, record = .init snapshot)) :
    d.lands? deed = none := by
  unfold lands?
  split
  · rename_i named expected data offset endOffset
    cases within with
    | reads reading => exact (reading.elim id id).elim
    | appends _ fits encoded =>
      obtain ⟨snapshot, rfl⟩ := fits
      simp only [if_true, trips _ _ encoded]
  · rfl

end Deployment

theorem Deed.leaves_of_writing {M : Model} {R T : Type} {segment : SegmentId} {codec : Codec T} {kind : T → Prop}
    {deed : Deed M R} (within : deed.Within (Action.OfWriting segment codec kind)) : deed.Leaves .removals := by
  cases deed with
  | called | gaveUp => exact within
  | failed => trivial
  | acted action answer =>
    cases within with
    | appends | swaps | truncates => trivial
    | tallies | sleeps => exact ⟨nofun, nofun⟩
    | reads reading =>
      cases action with
      | touch t => cases t <;> first | exact (reading.elim id id).elim | exact ⟨by rintro ⟨⟩, by rintro ⟨⟩⟩
      | _ => trivial

namespace ReplicatedSet

variable {α : Type} [Ord α] [Std.TransOrd α] [Std.LawfulEqOrd α] {R : Type}

def program (d : Deployment (Model.memberSet α)) (place : Nat) :
    SetOperation α → Attempt (Model.memberSet α) R (SetResult α)
  | .openOrCreate => do
    let created ← openOrCreate (d.replica place)
    pure (.flag created)
  | .update => do
    update (d.replica place)
    pure .nothing
  | .add value => do
    add (d.replica place) value
    pure .nothing
  | .remove value => do
    remove (d.replica place) value
    pure .nothing
  | .clear => do
    clear (d.replica place)
    pure .nothing
  | .contains value => do
    let found ← contains (d.replica place) value
    pure (.flag found)
  | .currentValues => do
    let values ← currentValues (d.replica place)
    pure (.members values)
  | .currentSize => do
    let size ← currentSize (d.replica place)
    pure (.size size)
  | .close => do
    ExceptT.lift Replica.close
    pure .nothing

/-- The call lands a snapshot of the members, or its own update, which is the first one it lands, and only where the
set is not that way yet. -/
def Proposed (d : Deployment (Model.memberSet α)) (past : Trace (Model.memberSet α) R (SetOperation α))
    (me : Caller (SetOperation α)) (s : MemberSet α) : (Model.memberSet α).Record → Prop
  | .init members => me.operation.Compacts ∧ members = s.members
  | .updates batch => ∃ update, me.operation.update? = some update ∧ batch = [update] ∧
    ¬update.Done s.members.elements ∧ past.own me d.lands? = []

variable (R) in
def conduct (d : Deployment (Model.memberSet α)) : Conduct (Model.memberSet α) R (SetOperation α) where
  raw _ := False
  founds operation := operation = .openOrCreate
  compacts := SetOperation.Compacts
  proposes := Proposed d

def change (r : Copy α) (wanted : SetUpdate α) : Attempt (Model.memberSet α) R Unit :=
  r.updateBy fun s => pure (proposal wanted s, ())

def settle (r : Copy α) : Attempt (Model.memberSet α) R Unit := do
  Attempt.touch .lockRemovals
  let counted ← ExceptT.lift (countRemoval r).run
  Attempt.touch .unlockRemovals
  match counted with
  | .ok () => pure ()
  | .error cause => throw cause

def finish (r : Copy α) : SetUpdate α → Attempt (Model.memberSet α) R Unit
  | .add _ => pure ()
  | .remove _ => settle r
  | .clear => compact r

variable {operation : SetOperation α}

theorem program_of_update? (d : Deployment (Model.memberSet α)) (place : Nat) {wanted : SetUpdate α}
    (wants : operation.update? = some wanted) : (program d place operation : Attempt (Model.memberSet α) R _) = (do
      change (d.replica place) wanted
      finish (d.replica place) wanted
      pure .nothing) := by
  cases operation <;> cases wants
  · rfl
  · exact bind_assoc _ _ _
  · exact bind_assoc _ _ _

theorem program_of_reading? (d : Deployment (Model.memberSet α)) (place : Nat) {shown : MemberSet α → SetResult α}
    (reads : operation.reading? = some shown) : (program d place operation : Attempt (Model.memberSet α) R _) = (do
      let s ← (d.replica place).getState
      pure (shown s)) := by
  cases operation <;> cases reads <;> exact bind_assoc _ _ _

variable {d : Deployment (Model.memberSet α)} {me : Caller (SetOperation α)} {wanted : SetUpdate α}
  {t past : Trace (Model.memberSet α) R (SetOperation α)}

variable (d me) in
abbrev Keeps {β : Type} (ok : β → Trace (Model.memberSet α) R (SetOperation α) → Prop)
    (err : CoreError → Trace (Model.memberSet α) R (SetOperation α) → Prop) (x : Attempt (Model.memberSet α) R β)
    (t : Trace (Model.memberSet α) R (SetOperation α)) : Prop :=
  Attempt.Safe (d.law (conduct R d)) me (fun _ => True) ok err x t

theorem own_of_called (fresh : ∀ e ∈ past, e.caller.call ≠ me.call) :
    Trace.own me d.lands? (past ++ [⟨me, .called⟩]) = [] := by
  rw [Trace.own_concat, Trace.own_of_fresh fresh]
  rfl

theorem proposed_of_went (wants : me.operation.update? = some wanted) (unwritten : t.own me d.lands? = [])
    (went : Went (d.law (conduct R d)) me (Deed.Quiet d.segment) t past) (s : MemberSet α)
    (some : proposal wanted s ≠ []) : Proposed d past me s (.updates (proposal wanted s)) := by
  have passed : Passed me (Deed.Quiet d.segment) t past := went.grows
  rcases proposal_cases wanted s with ⟨_, none⟩ | ⟨pending, same⟩
  · exact absurd none some
  · exact ⟨wanted, wants, same, pending, (passed.own_eq fun _ => Deployment.lands?_of_quiet).trans unwritten⟩

theorem change_keeps (place : Nat) (lawful : Lawful (d.law (conduct R d)) t)
    (wants : me.operation.update? = some wanted) (unwritten : t.own me d.lands? = []) :
    Keeps d me (fun _ t' => Lawful (d.law (conduct R d)) t') (fun _ _ => True) (change (d.replica place) wanted) t := by
  have own : ∀ s past, proposal wanted s ≠ [] → Went (d.law (conduct R d)) me (Deed.Quiet d.segment) t past →
      (conduct R d).proposes past me s (.updates (proposal wanted s)) :=
    fun s past some went => proposed_of_went wants unwritten went s some
  refine Deployment.updateBy_safe place lawful (fun _ _ => trivial) (fun _ _ _ _ => trivial)
    (Deployment.proposes_batches own) ?_ ?_
  · exact fun _ t' went => went.lawful
  · exact fun _ _ _ _ _ _ t' _ _ _ counted => counted.lawful

theorem compact_proposes (compacts : me.operation.Compacts) : d.Proposes (conduct R d) me t (fun _ => True)
    (fun proposal => ∃ snapshot, proposal = some (.init snapshot)) fun s => pure (some (.init s.members), ()) := by
  refine Deployment.proposes_pure (fun s => ⟨s.members, rfl⟩) fun s record past same _ => ?_
  cases same
  exact ⟨compacts, rfl⟩

theorem compact_keeps (place : Nat) (lawful : Lawful (d.law (conduct R d)) t) (compacts : me.operation.Compacts) :
    Keeps d me (fun _ _ => True) (fun _ _ => True) (compact (d.replica place)) t :=
  Deployment.compactBy_safe place lawful (fun _ _ => trivial) (fun _ _ _ _ => trivial) compacts
    (compact_proposes compacts) (fun _ _ => trivial) fun _ _ _ _ _ _ _ _ _ _ _ => trivial

theorem compact_confined (r : Copy α) : (compact r : Attempt (Model.memberSet α) R Unit).Writing r.client
    fun record => ∃ snapshot, record = .init snapshot :=
  r.compactBy_confined (fun _ => id) fun s => ⟨s.members, rfl⟩

variable (d me) in
structure Counting (t : Trace (Model.memberSet α) R (SetOperation α)) : Prop where
  lawful : Lawful (d.law (conduct R d)) t
  held : (World.after t).holders me.place .removals = some me.call

theorem Counting.went (counting : Counting d me t)
    (went : Went (d.law (conduct R d)) me (Deed.Leaves .removals) t past) : Counting d me past :=
  ⟨went.lawful, went.leaves counting.held⟩

theorem removalsLeft_keeps (counting : Counting d me t) {ok : Nat → Trace (Model.memberSet α) R (SetOperation α) → Prop}
    {err : CoreError → Trace (Model.memberSet α) R (SetOperation α) → Prop}
    (goes : ∀ left t', Counting d me t' → ok left t') : Keeps d me ok err (Attempt.touch .removalsLeft) t := by
  refine .touch (x := .removalsLeft) (fun _ _ _ need => by cases need) (fun _ _ => trivial) ?_
  intro answer past waited _ _ lawful
  have leaves : (Deed.acted (.touch .removalsLeft) answer : Deed (Model.memberSet α) R).Leaves .removals :=
    ⟨nofun, nofun⟩
  exact goes answer _ (counting.went (waited.step leaves lawful))

theorem setRemovalsLeft_keeps {left : Nat} (counting : Counting d me t)
    {ok : Unit → Trace (Model.memberSet α) R (SetOperation α) → Prop}
    {err : CoreError → Trace (Model.memberSet α) R (SetOperation α) → Prop}
    (goes : ∀ t', Counting d me t' → ok () t') : Keeps d me ok err (Attempt.touch (.setRemovalsLeft left)) t := by
  refine .touch (x := .setRemovalsLeft left) ?_ (fun _ _ => trivial) ?_
  · rintro past waited _ ⟨⟩
    exact (counting.went waited.of_waited).held
  · intro answer past waited _ _ lawful
    have leaves : (Deed.acted (.touch (.setRemovalsLeft left)) answer : Deed (Model.memberSet α) R).Leaves .removals :=
      ⟨nofun, nofun⟩
    exact goes _ (counting.went (waited.step leaves lawful))

theorem countRemoval_keeps (place : Nat) (counting : Counting d me t) (compacts : me.operation.Compacts) :
    Keeps d me (fun _ => Counting d me) (fun _ => Counting d me) (countRemoval (d.replica place)) t := by
  have compacted : ∀ t : Trace (Model.memberSet α) R (SetOperation α), Counting d me t →
      Keeps d me (fun _ => Counting d me) (fun _ => Counting d me) (compact (d.replica place)) t := by
    intro t counting
    refine Procedure.Safe.mono (Procedure.Safe.within (compact_keeps place counting.lawful compacts)
      (compact_confined (d.replica place)) counting.lawful) fun result t' promised => ?_
    -- Nothing that a writing does is at the lock, so the compaction cannot have freed it.
    have counting' := counting.went (promised.2.mono fun _ => Deed.leaves_of_writing)
    cases result <;> exact counting'
  unfold countRemoval
  refine .bind (removalsLeft_keeps counting fun left t₁ counting => ?_)
  refine .bind (setRemovalsLeft_keeps counting fun t₂ counting => ?_)
  split
  · refine .bind (Procedure.Safe.mono (compacted t₂ counting) fun result t₃ counting => ?_)
    cases result with
    | ok => exact setRemovalsLeft_keeps counting fun _ counting => counting
    | error => exact counting
  · exact .pure counting

theorem settle_keeps (place : Nat) (compacts : me.operation.Compacts) :
    Keeps d me (fun _ _ => True) (fun _ _ => True) (settle (d.replica place)) t := by
  refine .bind (.touch (x := .lockRemovals) (fun _ _ _ need => by cases need) (fun _ _ => trivial) ?_)
  intro answer past waited _ _ lawful
  have counting : Counting d me (past ++ [⟨me, .acted (.touch .lockRemovals) answer⟩]) :=
    ⟨lawful, World.holders_taken past me (x := .lockRemovals) answer rfl⟩
  refine .bind (.lift (Procedure.Safe.mono (countRemoval_keeps place counting compacts) ?_))
  intro counted t₂ counting
  have counting : Counting d me t₂ := by cases counted <;> exact counting
  refine .bind (.touch (x := .unlockRemovals) ?_ (fun _ _ => trivial) ?_)
  · rintro past waited _ ⟨⟩
    exact (counting.went waited.of_waited).held
  · intro _ past _ _ _ _
    cases counted with
    | ok => exact .pure trivial
    | error cause => exact .throw trivial

theorem finish_keeps (place : Nat) (lawful : Lawful (d.law (conduct R d)) t)
    (wants : me.operation.update? = some wanted) :
    Keeps d me (fun _ _ => True) (fun _ _ => True) (finish (d.replica place) wanted) t := by
  cases operation : me.operation with
  | add value =>
    cases operation ▸ wants
    exact .pure trivial
  | remove value =>
    cases operation ▸ wants
    exact settle_keeps place (operation ▸ trivial)
  | clear =>
    cases operation ▸ wants
    exact compact_keeps place lawful (operation ▸ trivial)
  | _ =>
    rw [operation] at wants
    cases wants

theorem program_keeps (lawful : Lawful (d.law (conduct R d)) (past ++ [⟨me, .called⟩]))
    (fresh : ∀ e ∈ past, e.caller.call ≠ me.call) :
    Keeps d me (fun _ _ => True) (fun _ _ => True) (program d me.place me.operation) (past ++ [⟨me, .called⟩]) := by
  have changes : ∀ wanted, me.operation.update? = some wanted → Keeps d me (fun _ _ => True) (fun _ _ => True)
      (program d me.place me.operation) (past ++ [⟨me, .called⟩]) := by
    intro wanted wants
    rw [program_of_update? d me.place wants]
    have changed := change_keeps me.place lawful wants (own_of_called fresh)
    refine .bind (Procedure.Safe.mono changed fun result t' lawful => ?_)
    cases result with
    | error cause => trivial
    | ok =>
      refine .bind (Procedure.Safe.mono (finish_keeps me.place lawful wants) fun result t'' _ => ?_)
      cases result <;> trivial
  have reads : ∀ shown, me.operation.reading? = some shown → Keeps d me (fun _ _ => True) (fun _ _ => True)
      (program d me.place me.operation) (past ++ [⟨me, .called⟩]) := by
    intro shown reads
    rw [program_of_reading? d me.place reads]
    exact .bind (.bind (Deployment.getRevisionedState_safe me.place (fun _ _ => trivial) (fun _ _ _ _ => trivial)
      fun _ _ _ _ _ => .pure (.pure trivial)))
  cases operation : me.operation with
  | add | remove | clear => exact operation ▸ changes _ (congrArg SetOperation.update? operation)
  | contains | currentValues | currentSize => exact operation ▸ reads _ (congrArg SetOperation.reading? operation)
  | openOrCreate =>
    have fails : d.Fails (conduct R d) me (fun _ _ => True) (past ++ [⟨me, .called⟩]) := fun _ _ _ _ _ => trivial
    refine .bind (.bind (.bind (Deployment.ask_safe fails trivial (fun _ _ other => by cases other) ?_)))
    intro _ t₁ _ _
    refine .pure (Deployment.establishIfAbsent_safe me.place operation (fun _ _ => trivial) ?_ ?_ fun _ _ _ _ =>
      trivial)
    · exact fun _ _ _ _ _ _ _ => .pure trivial
    · exact fun _ _ _ _ _ _ _ _ => .pure trivial
  | update =>
    exact .bind (Deployment.fetchUpdates_safe me.place (fun _ _ => trivial) (fun _ _ _ _ => trivial) fun _ _ =>
      .pure trivial)
  | close =>
    refine .bind (.touch (x := .close) (fun _ _ _ need => by cases need) (fun _ _ => trivial) ?_)
    exact fun _ _ _ _ _ _ => .pure trivial

theorem secure_of_reachable {s : System (Model.memberSet α) R (SetOperation α) (SetResult α)}
    (reachable : s.Reachable (program d)) : s.Secure (d.law (conduct R d)) fun _ _ _ => True := by
  refine System.Secure.steps (fun caller past lawful fresh => ?_) .initial reachable
  exact Procedure.Safe.mono (program_keeps lawful fresh) fun _ _ _ => trivial

end ReplicatedSet

end LogReplica
