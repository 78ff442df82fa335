import LogReplica.Proofs.Replica.Stretch
import LogReplica.Proofs.Set.Linearizability

namespace LogReplica

namespace Deployment

variable {M : Model} {R O : Type} {d : Deployment M} {ρ : Conduct M R O} {t more : Trace M R O}

theorem lands?_of_unlanded {e : Event M R O} (unlanded : e.landed? d.segment = none) : d.lands? e.deed = none := by
  cases lands : d.lands? e.deed with
  | none => rfl
  | some batch =>
    obtain ⟨_, landed, _⟩ := exists_of_lands? lands
    cases unlanded.symm.trans landed

theorem ending_of_batches (sound : d.Sound) (lawful : Lawful (d.law ρ) (t ++ more)) (clean : Clean ρ (t ++ more))
    (batches : ∀ e ∈ more, ∀ entry, e.landed? d.segment = some entry → ¬d.IsSnapshot entry) :
    ending 0 (d.log (t ++ more)) = ending 0 (d.log t) +
      ((more.filterMap fun e => d.lands? e.deed).map fun batch => d.framed (.updates batch)).sum := by
  induction more using List.reverseRecOn with
  | nil => simp
  | append_singleton more e ih =>
    have polite : ¬ρ.raw e.caller.operation := clean e (by simp)
    have last : e ∈ more ++ [e] := by simp
    rw [← List.append_assoc] at lawful clean ⊢
    have before := ih lawful.of_concat.1 (clean.of_le (List.prefix_append _ _)) fun e' member =>
      batches e' (List.mem_append_left _ member)
    have chain := log_chain lawful
    rw [List.filterMap_append, List.map_append, List.sum_append, ← Nat.add_assoc, ← before]
    rw [log_concat] at chain ⊢
    cases landed : e.landed? d.segment with
    | none => simp [lands?_of_unlanded landed]
    | some entry =>
      obtain ⟨_, record, encoded, _⟩ := landing lawful polite landed
      have decoded := sound.roundTrips _ _ encoded
      cases record with
      | init snapshot => exact absurd ⟨snapshot, decoded⟩ (batches e last entry landed)
      | updates batch =>
        have lands : d.lands? e.deed = some batch := lands?_of_landed landed decoded
        rw [landed, Option.toList_some] at chain
        rw [Option.toList_some, ending_concat chain encoded]
        simp [lands]

end Deployment

def SetOperation.Incremental {α : Type} : SetOperation α → Prop
  | openOrCreate | remove _ | clear => False
  | _ => True

theorem SetOperation.Incremental.not_compacts {α : Type} {operation : SetOperation α}
    (incremental : operation.Incremental) : ¬operation.Compacts := by
  cases operation <;> first | exact id | exact fun _ => incremental

namespace SetUpdate

variable {α : Type}

def changes (updates : List (SetUpdate α)) (s : Set α) : Set α := updates.foldl (fun s update => update.change s) s

theorem changes_append (updates more : List (SetUpdate α)) (s : Set α) :
    changes (updates ++ more) s = changes more (changes updates s) := List.foldl_append

theorem changes_additions {updates : List (SetUpdate α)} (additions : ∀ update ∈ updates, ∃ value, update = .add value)
    (s : Set α) : changes updates s = s ∪ {value | .add value ∈ updates} := by
  induction updates generalizing s with
  | nil => simp [changes]
  | cons update updates ih =>
    obtain ⟨value, rfl⟩ := additions update (List.mem_cons_self)
    have rest := ih (fun update member => additions update (List.mem_cons_of_mem _ member)) (insert value s)
    refine Eq.trans rest ?_
    ext other
    simp only [Set.mem_union, Set.mem_insert_iff, Set.mem_ofPred_eq, List.mem_cons, SetUpdate.add.injEq]
    tauto

end SetUpdate

namespace ReplicatedSet

variable {α : Type} [Ord α] [Std.TransOrd α] [Std.LawfulEqOrd α] {R : Type} {d : Deployment (Model.memberSet α)}
  {t more past : Trace (Model.memberSet α) R (SetOperation α)} {e : Event (Model.memberSet α) R (SetOperation α)}
  {s s' : System (Model.memberSet α) R (SetOperation α) (SetResult α)} {entry : Entry}

def landedUpdates (d : Deployment (Model.memberSet α)) (t : Trace (Model.memberSet α) R (SetOperation α)) :
    List (SetUpdate α) := (t.filterMap fun e => d.lands? e.deed).flatten

theorem not_snapshot_of_incremental (sound : d.Sound) (lawful : Lawful (d.law (conduct R d)) (past ++ [e]))
    (incremental : e.caller.operation.Incremental) (landed : e.landed? d.segment = some entry) :
    ¬d.IsSnapshot entry := by
  rintro ⟨members, decoded⟩
  obtain ⟨_, record, encoded, basis⟩ := Deployment.landing lawful id landed
  obtain rfl : record = .init members := Except.ok.inj ((sound.roundTrips _ _ encoded).symm.trans decoded)
  rcases basis with ⟨opens, _⟩ | ⟨_, _, _, compacts, _⟩
  · rw [show e.caller.operation = .openOrCreate from opens] at incremental
    exact incremental
  · exact incremental.not_compacts compacts

theorem elements_append (sound : d.Sound) (reachable : s.Reachable (program d)) (le : t ++ more <+: s.trace) :
    d.elements (d.log (t ++ more)) = SetUpdate.changes (landedUpdates d more) (d.elements (d.log t)) := by
  induction more using List.reverseRecOn with
  | nil => simp [landedUpdates, SetUpdate.changes]
  | append_singleton more e ih =>
    rw [← List.append_assoc] at le ⊢
    have before := ih ((List.prefix_append _ _).trans le)
    have last : landedUpdates d (more ++ [e]) = landedUpdates d more ++ ((d.lands? e.deed).toList).flatten := by
      cases lands : d.lands? e.deed <;> simp [landedUpdates, lands]
    rw [last, SetUpdate.changes_append, ← before]
    cases transition sound reachable le with
    | still unlanded same =>
      rw [same, Deployment.lands?_of_unlanded unlanded]
      rfl
    | snapshot entry members landed decoded same =>
      rw [same, Deployment.lands?_of_landed landed decoded]
      rfl
    | changed wanted asked lands pending changes =>
      rw [changes, lands]
      rfl

theorem exists_caller_of_landed (sound : d.Sound) (lawful : Lawful (d.law (conduct R d)) (t ++ more))
    {update : SetUpdate α} (landed : update ∈ landedUpdates d more) :
    ∃ e ∈ more, e.caller.operation.update? = some update ∧ d.lands? e.deed = some [update] := by
  obtain ⟨batch, found, member⟩ := List.mem_flatten.mp landed
  obtain ⟨e, here, lands⟩ := List.mem_filterMap.mp found
  obtain ⟨front, back, rfl⟩ := List.append_of_mem here
  have le : (t ++ front) ++ [e] <+: t ++ (front ++ e :: back) := ⟨back, by simp⟩
  obtain ⟨_, wanted, _, asked, rfl, _⟩ := proposed_of_lands? sound (lawful.of_le le) lands
  obtain rfl := List.mem_singleton.mp member
  exact ⟨e, here, asked, lands⟩

section Changing

variable {me : Caller (SetOperation α)} {wanted : SetUpdate α} {t' : Trace (Model.memberSet α) R (SetOperation α)}
  {place : Nat}

theorem change_leads (sound : d.Sound) (lawful : Lawful (d.law (conduct R d)) t')
    (wants : me.operation.update? = some wanted) (unwritten : t.own me d.lands? = [])
    (leads : (change (d.replica place) wanted).run.Leads me t (.ok ()) t') :
    (Went (d.law (conduct R d)) me (Deed.Quiet d.segment) t t' ∧ t'.own me d.lands? = [] ∧
      t'.completed me = t.completed me) ∨
    ∃ batch entry past t₁, Went (d.law (conduct R d)) me (Deed.Quiet d.segment) t past ∧
      d.Landed (conduct R d) me (.updates batch) entry past t₁ ∧
      Went (d.law (conduct R d)) me (Deed.Quiet d.segment) t₁ t' ∧ t'.own me d.lands? = [batch] ∧
      t'.completed me = { t.completed me with written := (t.completed me).written + 1 } := by
  let choose (state : MemberSet α) : List (SetUpdate α) × Unit := (proposal wanted state, ())
  have own : ∀ state past, (choose state).1 ≠ [] → Went (d.law (conduct R d)) me (Deed.Quiet d.segment) t past →
      (conduct R d).proposes past me state (.updates (choose state).1) :=
    fun state past some went => proposed_of_went wants unwritten went state some
  have silent : ∀ state, (pure (choose state) : Procedure (Model.memberSet α) R _).Confined Action.Incomplete
      fun _ => True := fun _ => trivial
  have same : ∀ {first last : Trace (Model.memberSet α) R (SetOperation α)},
      Went (d.law (conduct R d)) me (Deed.Quiet d.segment) first last → last.own me d.lands? = first.own me d.lands? :=
    fun went => Passed.own_eq went.grows fun _ => Deployment.lands?_of_quiet
  have updated := Deployment.updateBy_leads (Deployment.proposes_batches own) silent lawful leads
  cases updated with
  | unwritten quiet _ uncounted => exact .inl ⟨quiet, (same quiet).trans unwritten, uncounted⟩
  | wrote record entry past t₁ before landed fits after counted =>
    obtain ⟨state, rfl⟩ := fits record rfl
    have decoded : d.codec.decode entry.data = .ok (.updates (choose state).1) := sound.roundTrips _ _ landed.encoded
    have lands : d.lands? (.acted (.ask d.segment (.append (some entry.offset) entry.data))
        (.ok (.appended entry.offset entry.endOffset)) : Deed (Model.memberSet α) R) = some (choose state).1 := by
      simp [Deployment.lands?, decoded]
    refine .inr ⟨_, entry, past, t₁, before, landed, after, ?_, counted⟩
    rw [same after, landed.did.last, Trace.own_concat, same before, unwritten, lands]
    rfl

theorem completed_of_change (sound : d.Sound) (lawful : Lawful (d.law (conduct R d)) t')
    (wants : me.operation.update? = some wanted) (unwritten : t.own me d.lands? = [])
    (leads : (change (d.replica place) wanted).run.Leads me t (.ok ()) t') :
    t'.completed me = ⟨(t.completed me).written + (t'.own me d.lands?).length, (t.completed me).compactions⟩ := by
  rcases change_leads sound lawful wants unwritten leads with
    ⟨_, own, counted⟩ | ⟨batch, _, _, _, _, _, _, own, counted⟩ <;> rw [own, counted] <;> rfl

theorem alone_of_change (sound : d.Sound) (lawful : Lawful (d.law (conduct R d)) t')
    (wants : me.operation.update? = some wanted) (unwritten : t.own me d.lands? = []) (only : Trace.Only me t t')
    (leads : (change (d.replica place) wanted).run.Leads me t (.ok ()) t') : d.oldest t' = d.oldest t ∧
      ending 0 (d.log t') = ending 0 (d.log t) +
        ((t'.own me d.lands?).map fun batch => d.framed (.updates batch)).sum := by
  rcases change_leads sound lawful wants unwritten leads with
    ⟨quiet, own, _⟩ | ⟨batch, entry, past, t₁, before, landed, after, own, _⟩
  · obtain ⟨log, buffer⟩ := Deployment.still_of_only quiet only
    rw [own, log]
    exact ⟨congrArg Framed.start buffer, rfl⟩
  · obtain ⟨log, oldest⟩ := landed.alone before after only
    have chain := Deployment.log_chain lawful
    rw [log] at chain
    rw [own, log, Deployment.ending_concat chain landed.encoded]
    exact ⟨oldest, rfl⟩

theorem change_caught (calm : d.Calm (conduct R d) me t t')
    (leads : (change (d.replica place) wanted).run.Leads me t (.ok ()) t') :
    d.arrears me t' = d.arrears me t ∧ d.Lagging t' me.place = false := by
  have plain : ∀ state, (pure (proposal wanted state, ()) : Procedure (Model.memberSet α) R _).Confined Action.Plain
      fun _ => True := fun _ => trivial
  obtain ⟨same, settled⟩ := calm.updateBy_caught plain leads
  exact ⟨same, settled () rfl⟩

theorem alone_of_compact (sound : d.Sound) (lawful : Lawful (d.law (conduct R d)) t') (candid : t'.Candid)
    (compacts : me.operation.Compacts) (only : Trace.Only me t t') (whole : d.oldest t = 0)
    (leads : (compact (d.replica place)).run.Leads me t (.ok ()) t') :
    (∃ members entry, d.codec.encode (.init members) = .ok entry.data ∧ d.log t' = d.log t ++ [entry] ∧
      d.mark t' = some (entry.offset : Int) ∧ d.oldest t' = entry.offset) ∧
    t'.completed me = { t.completed me with compactions := (t.completed me).compactions + 1 } ∧
    (t'.recorded me).truncationRecoveries = d.arrears me t ∧ d.Lagging t' me.place = false := by
  have plain : ∀ s : MemberSet α, (pure (some (.init s.members), ()) : Procedure (Model.memberSet α) R
      (Option (Model.memberSet α).Record × Unit)).Confined Action.Plain fun _ => True := fun _ => trivial
  have silent : ∀ s : MemberSet α, (pure s.members : Procedure (Model.memberSet α) R (SortedSet α)).Confined
      Action.Incomplete fun _ => True := fun _ => trivial
  obtain ⟨target, t₁, concluded⟩ := Deployment.compactBy_leads compacts (compact_proposes compacts) silent lawful leads
  have shape := Deployment.shape sound.roundTrips (lawful.of_le leads.le) fun _ _ => id
  exact ⟨concluded.compacted.cut only shape, concluded.counted, concluded.caught plain only lawful candid id whole⟩

end Changing

section Stretch

variable {callers earlier : List (Caller (SetOperation α))} {caller : Caller (SetOperation α)}

variable (d) in
structure Stretch (callers : List (Caller (SetOperation α)))
    (s s' : System (Model.memberSet α) R (SetOperation α) (SetResult α)) : Prop where
  before : ∃ earlier, System.Together (program d) earlier .initial s
  together : System.Together (program d) callers s s'

namespace Stretch

variable (stretch : Stretch d callers s s')

include stretch

theorem reachable : s'.Reachable (program d) := by
  obtain ⟨_, before⟩ := stretch.before
  exact before.steps.trans stretch.together.steps

theorem lawful : Lawful (d.law (conduct R d)) s'.trace := (secure_of_reachable stretch.reachable).lawful

theorem exists_more : ∃ more, s'.trace = s.trace ++ more ∧ Lawful (d.law (conduct R d)) (s.trace ++ more) ∧
    (∀ e ∈ more, e.caller ∈ callers) ∧ ∀ e ∈ more, ∀ e' ∈ s.trace, e'.caller.call ≠ e.caller.call := by
  obtain ⟨_, before⟩ := stretch.before
  obtain ⟨more, split, own⟩ := stretch.together.only
  refine ⟨more, split, split ▸ stretch.lawful, fun e member => (own e member).1, fun e member => ?_⟩
  exact stretch.together.fresh before.steps (own e member).1

theorem batches (sound : d.Sound) (incremental : ∀ c ∈ callers, c.operation.Incremental)
    (split : s'.trace = s.trace ++ more) :
    ∀ e ∈ more, ∀ entry, e.landed? d.segment = some entry → ¬d.IsSnapshot entry := by
  obtain ⟨_, split', lawful, own, _⟩ := stretch.exists_more
  obtain rfl := List.append_cancel_left (split.symm.trans split')
  intro e member entry landed
  obtain ⟨front, back, rfl⟩ := List.append_of_mem member
  have le : (s.trace ++ front) ++ [e] <+: s.trace ++ (front ++ e :: back) := ⟨back, by simp⟩
  exact not_snapshot_of_incremental sound (lawful.of_le le) (incremental _ (own e member)) landed

theorem unmoved (sound : d.Sound) (incremental : ∀ c ∈ callers, c.operation.Incremental) :
    d.mark s'.trace = d.mark s.trace ∧ d.oldest s'.trace = d.oldest s.trace := by
  obtain ⟨more, split, lawful, _, new⟩ := stretch.exists_more
  have batches := stretch.batches sound incremental split
  rw [split]
  exact Deployment.unmoved_of_steady lawful
    (Deployment.steady_of_batches sound.roundTrips lawful (fun _ _ => id) new batches)

end Stretch

variable (d) in
structure Adding (callers : List (Caller (SetOperation α)))
    (s s' : System (Model.memberSet α) R (SetOperation α) (SetResult α)) : Prop extends Stretch d callers s s' where
  adds : ∀ c ∈ callers, ∃ value, c.operation = .add value
  distinct : ∀ c ∈ callers, ∀ c' ∈ callers, c.operation = c'.operation → c = c'
  absent : ∀ c ∈ callers, ∀ value, c.operation = .add value → value ∉ d.elements (d.log s.trace)

namespace Adding

variable (adding : Adding d callers s s')

include adding

theorem incremental : ∀ c ∈ callers, c.operation.Incremental := by
  intro c member
  obtain ⟨value, adds⟩ := adding.adds c member
  rw [adds]
  trivial

theorem exists_adder (sound : d.Sound) (lawful : Lawful (d.law (conduct R d)) (t ++ more))
    (own : ∀ e ∈ more, e.caller ∈ callers) : ∀ update ∈ landedUpdates d more, ∃ value, update = .add value ∧
      ∃ e ∈ more, e.caller.operation = .add value ∧ d.lands? e.deed = some [update] := by
  intro update landed
  obtain ⟨e, member, asked, lands⟩ := exists_caller_of_landed sound lawful landed
  obtain ⟨value, adds⟩ := adding.adds _ (own e member)
  rw [adds] at asked
  cases asked
  exact ⟨value, rfl, e, member, adds, lands⟩

theorem own_eq (sound : d.Sound) (member : caller ∈ callers) :
    s'.trace.own caller d.lands? = [caller.operation.update?.toList] := by
  obtain ⟨value, adds⟩ := adding.adds caller member
  obtain ⟨more, split, lawful, own, _⟩ := adding.exists_more
  obtain ⟨result, returned⟩ := adding.together.returned caller member
  have wants : caller.operation.update? = some (.add value) := by rw [adds]; rfl
  have known := fun e here mine => System.caller_eq_of_known adding.reachable returned (e := e) here mine
  rcases own_of_lawful sound adding.lawful known with none | ⟨wanted, asked, single⟩
  · -- It has landed nothing, so somebody else has added the value here.
    exfalso
    obtain ⟨_, now, amid, done, _⟩ := effected_of_returned sound adding.reachable returned wants
    obtain ⟨_, before⟩ := adding.before
    have fresh := adding.together.fresh before.steps member
    have since := amid.le_of_uncalled adding.together.le fun called => fresh _ called rfl
    obtain ⟨during, rfl⟩ := since
    have le : during <+: more := (List.prefix_append_right_inj _).mp (split ▸ amid.le)
    have within : ∀ e ∈ during, e.caller ∈ callers := fun e here => own e (le.subset here)
    have lawful := lawful.of_le ((List.prefix_append_right_inj s.trace).mpr le)
    have additions := adding.exists_adder sound lawful within
    rw [elements_append sound adding.reachable amid.le,
      SetUpdate.changes_additions fun update landed => (additions update landed).imp fun _ => And.left] at done
    rcases done with here | landed
    · exact adding.absent caller member value adds here
    · obtain ⟨_, ⟨⟩, e, here, adds', lands⟩ := additions _ landed
      obtain rfl := adding.distinct _ (within e here) _ member (adds'.trans adds.symm)
      have found : [.add value] ∈ s'.trace.own e.caller d.lands? := by
        refine List.mem_filterMap.mpr ⟨e, amid.le.subset (List.mem_append_right _ here), ?_⟩
        rw [if_pos rfl, lands]
      rw [none] at found
      cases found
  · rw [single, asked]
    rfl

theorem own_more (sound : d.Sound) (member : caller ∈ callers) (split : s'.trace = s.trace ++ more) :
    Trace.own caller d.lands? more = [caller.operation.update?.toList] := by
  obtain ⟨_, before⟩ := adding.before
  have fresh := adding.together.fresh before.steps member
  have whole := adding.own_eq sound member
  rwa [split, Trace.own_append_of_fresh _ fresh] at whole

theorem elements_eq (sound : d.Sound) : d.elements (d.log s'.trace) =
    d.elements (d.log s.trace) ∪ {value | ∃ c ∈ callers, c.operation = .add value} := by
  obtain ⟨more, split, lawful, own, _⟩ := adding.exists_more
  have additions := adding.exists_adder sound lawful own
  rw [split, elements_append sound adding.reachable (split ▸ List.prefix_refl _),
    SetUpdate.changes_additions fun update landed => (additions update landed).imp fun _ => And.left]
  congr 1
  ext value
  constructor
  · intro landed
    obtain ⟨_, ⟨⟩, e, here, adds, _⟩ := additions _ landed
    exact ⟨e.caller, own e here, adds⟩
  · rintro ⟨c, member, adds⟩
    have single := adding.own_more sound member split
    rw [adds] at single
    have found : [.add value] ∈ Trace.own c d.lands? more := single ▸ List.mem_singleton_self _
    obtain ⟨e, here, lands⟩ := List.mem_filterMap.mp found
    split at lands
    · exact List.mem_flatten.mpr ⟨_, List.mem_filterMap.mpr ⟨e, here, lands⟩, List.mem_singleton_self _⟩
    · cases lands

theorem ending_eq (sound : d.Sound) : ending 0 (d.log s'.trace) = ending 0 (d.log s.trace) +
    (callers.map fun c => d.framed (.updates c.operation.update?.toList)).sum := by
  obtain ⟨more, split, lawful, own, _⟩ := adding.exists_more
  have each : ∀ c ∈ callers, ((Trace.own c d.lands? more).map fun batch => d.framed (.updates batch)).sum =
      d.framed (.updates c.operation.update?.toList) := by
    intro c member
    rw [adding.own_more sound member split, List.map_singleton, List.sum_singleton]
  rw [split, Deployment.ending_of_batches sound lawful (fun _ _ => id)
    (adding.batches sound adding.incremental split), Trace.sum_own d.lands? _ adding.together.distinct own,
    List.map_congr_left each]

theorem counted (sound : d.Sound) (member : caller ∈ callers) (guarded : d.oldest s'.trace = 0 ∨
      s.trace.cache caller.place ≠ none ∧ ∀ other ∈ callers, other.place = caller.place → other = caller) :
    (s'.trace.recorded caller).outcome = (1, 0, if d.Lagging s.trace caller.place then 1 else 0) ∧
      d.Lagging s'.trace caller.place = false := by
  obtain ⟨value, adds⟩ := adding.adds caller member
  have wants : caller.operation.update? = some (.add value) := by rw [adds]; rfl
  obtain ⟨_, before⟩ := adding.before
  obtain ⟨answer, past, t, _, trip⟩ := adding.together.exists_trip before.steps member
  have calm := Deployment.calm_of_together before adding.together adding.lawful id
    (adding.unmoved sound adding.incremental).2 guarded
  have lawful := adding.lawful.of_le trip.idled.le
  have leads := trip.leads
  rw [program_of_update? d caller.place wants] at leads
  rcases Attempt.leads_bind leads with ⟨_, t₁, changed, rest⟩ | ⟨_, _, ⟨⟩⟩
  obtain ⟨rfl⟩ : t₁ = t := by cases rest; rfl
  obtain ⟨recovered, caughtUp⟩ := trip.settled calm fun calm => change_caught calm changed
  refine ⟨Trace.outcome_eq ?_ recovered, caughtUp⟩
  have completed := completed_of_change sound lawful wants (own_of_called trip.fresh) changed
  have own := adding.own_eq sound member
  rw [trip.idled.own_eq fun _ => False.elim, wants] at own
  rw [(trip.idled.mono fun _ => False.elim).completed_eq, completed, own, Trace.completed, trip.recorded_eq]
  rfl

end Adding

variable (d) in
structure Reading (callers : List (Caller (SetOperation α)))
    (s s' : System (Model.memberSet α) R (SetOperation α) (SetResult α)) : Prop extends Stretch d callers s s' where
  reads : ∀ c ∈ callers, ∃ shown, c.operation.reading? = some shown

namespace Reading

variable (reading : Reading d callers s s')

include reading

theorem incremental : ∀ c ∈ callers, c.operation.Incremental := by
  intro c member
  obtain ⟨shown, reads⟩ := reading.reads c member
  cases operation : c.operation with
  | openOrCreate | remove | clear =>
    rw [operation] at reads
    cases reads
  | _ => trivial

theorem log_eq (sound : d.Sound) : d.log s'.trace = d.log s.trace := by
  obtain ⟨more, split, lawful, own, _⟩ := reading.exists_more
  have batches := reading.batches sound reading.incremental split
  have unlanded : ∀ e ∈ more, e.landed? d.segment = none := by
    intro e member
    cases landed : e.landed? d.segment with
    | none => rfl
    | some entry =>
      exfalso
      obtain ⟨front, back, rfl⟩ := List.append_of_mem member
      have le : (s.trace ++ front) ++ [e] <+: s.trace ++ (front ++ e :: back) := ⟨back, by simp⟩
      obtain ⟨_, record, encoded, _⟩ := Deployment.landing (lawful.of_le le) id landed
      have decoded := sound.roundTrips _ _ encoded
      cases record with
      | init members => exact batches e member entry landed ⟨members, decoded⟩
      | updates batch =>
        have lands : d.lands? e.deed = some batch := Deployment.lands?_of_landed landed decoded
        obtain ⟨_, _, _, asked, _⟩ := proposed_of_lands? sound (lawful.of_le le) lands
        obtain ⟨_, reads⟩ := reading.reads _ (own e member)
        rw [SetOperation.update?_of_reading? reads] at asked
        cases asked
  have none : Trace.history d.segment more = [] := List.filterMap_eq_nil_iff.mpr unlanded
  rw [split, Deployment.log, Trace.history_append, none, List.append_nil]

theorem answers (sound : d.Sound) (member : caller ∈ callers) {result : SetResult α}
    (returned : s'.Returned caller (.ok result)) : caller.operation.Answers (d.elements (d.log s.trace)) result := by
  obtain ⟨shown, reads⟩ := reading.reads caller member
  obtain ⟨_, before⟩ := reading.before
  obtain ⟨now, amid, answers⟩ := shown_of_returned sound reading.reachable returned reads
  have fresh := reading.together.fresh before.steps member
  have since := amid.le_of_uncalled reading.together.le fun called => fresh _ called rfl
  have early : d.log s.trace <+: d.log now := Trace.history_le d.segment since
  have late : d.log now <+: d.log s'.trace := Trace.history_le d.segment amid.le
  rw [reading.log_eq sound] at late
  rwa [early.eq_of_length_le late.length_le]

theorem counted (sound : d.Sound) (member : caller ∈ callers) (guarded : d.oldest s'.trace = 0 ∨
      s.trace.cache caller.place ≠ none ∧ ∀ other ∈ callers, other.place = caller.place → other = caller) :
    (s'.trace.recorded caller).outcome = (0, 0, if d.Lagging s.trace caller.place then 1 else 0) ∧
      d.Lagging s'.trace caller.place = false := by
  obtain ⟨shown, reads⟩ := reading.reads caller member
  obtain ⟨_, before⟩ := reading.before
  obtain ⟨answer, past, t, _, trip⟩ := reading.together.exists_trip before.steps member
  have calm := Deployment.calm_of_together before reading.together reading.lawful id
    (reading.unmoved sound reading.incremental).2 guarded
  have leads := trip.leads
  rw [program_of_reading? d caller.place reads] at leads
  rcases Attempt.leads_bind leads with ⟨_, t₁, given, rest⟩ | ⟨_, _, ⟨⟩⟩
  cases rest
  rcases Attempt.leads_bind given with ⟨copy, t₂, given, rest⟩ | ⟨_, _, ⟨⟩⟩
  cases rest
  obtain ⟨recovered, caughtUp⟩ := trip.settled calm fun calm => by
    obtain ⟨same, settled⟩ := calm.getRevisionedState_caught given
    exact ⟨same, settled copy rfl⟩
  refine ⟨Trace.outcome_eq ?_ recovered, caughtUp⟩
  have incomplete : ((d.replica caller.place).getRevisionedState : Attempt (Model.memberSet α) R _).Confined
      Action.Incomplete fun _ => True :=
    (d.replica caller.place).getRevisionedState_confined.mono (fun _ => Action.OfReading.incomplete) fun _ _ => trivial
  rw [(trip.idled.mono fun _ => False.elim).completed_eq, (given.passed incomplete).completed_eq, Trace.completed,
    trip.recorded_eq]

end Reading

variable (d) in
structure Opening (callers : List (Caller (SetOperation α)))
    (s : System (Model.memberSet α) R (SetOperation α) (SetResult α)) : Prop extends Stretch d callers .initial s where
  opens : ∀ c ∈ callers, c.operation = .openOrCreate

namespace Opening

variable (opening : Opening d callers s)

include opening

theorem opens_of_mem (member : e ∈ s.trace) : e.caller.operation = .openOrCreate := by
  obtain ⟨more, split, own⟩ := opening.together.only
  rw [split] at member
  exact opening.opens _ (own e member).1

theorem whole (sound : d.Sound) : d.mark s.trace = none ∧ d.oldest s.trace = 0 := by
  refine Deployment.whole_of_uncompacting sound.roundTrips opening.lawful (fun _ _ => id) fun e member compacts => ?_
  have compacts : e.caller.operation.Compacts := compacts
  rw [opening.opens_of_mem member] at compacts
  exact compacts

theorem counted (sound : d.Sound) (member : caller ∈ callers) :
    (s.trace.recorded caller).outcome = (0, 0, 0) ∧ s.trace.cache caller.place ≠ none := by
  have opens := opening.opens caller member
  obtain ⟨_, before⟩ := opening.before
  obtain ⟨answer, past, t, _, trip⟩ := opening.together.exists_trip .refl member
  have whole := (opening.whole sound).2
  have calm : d.Calm (conduct R d) caller System.initial.trace s.trace :=
    Deployment.calm_of_together before opening.together opening.lawful id (whole.trans rfl) (.inl whole)
  have asks : ∀ {allowed : Action (Model.memberSet α) R → Prop}, allowed (.ask d.segment .createSegment) →
      ((d.client caller.place).establish : Attempt (Model.memberSet α) R Unit).Confined allowed fun _ => True :=
    fun may => .bind (.ask may fun _ => trivial) fun _ => .pure ()
  have calm₁ := calm.between (trip.since.trans (List.prefix_append _ _)) trip.leads.le trip.idled.le
  have leads := trip.leads
  rw [opens] at leads
  rcases Attempt.leads_bind leads with ⟨created, t₁, leads, rest⟩ | ⟨_, _, ⟨⟩⟩
  cases rest
  rcases calm₁.leads_plain (asks ⟨nofun, nofun⟩) leads with ⟨_, t₂, asked, calm₂, same, _, leads⟩ | ⟨_, ⟨⟩, _⟩
  have unlagging : ∀ {now}, now <+: s.trace → d.Lagging now caller.place = false := fun le =>
    Deployment.not_lagging_of_oldest (Nat.le_zero.mp (whole ▸ Deployment.oldest_le opening.lawful le))
  obtain ⟨same', cached⟩ := Deployment.establishIfAbsent_leads calm₂ (fun _ _ => id) opens
    (unlagging (leads.le.trans trip.idled.le)) leads
  obtain ⟨recovered, _⟩ := trip.settled calm fun _ => ⟨same'.trans same, unlagging trip.idled.le⟩
  rw [unlagging (trip.since.trans ((List.prefix_append _ _).trans trip.le))] at recovered
  refine ⟨Trace.outcome_eq ?_ recovered, ?_⟩
  · have incomplete : ((d.replica caller.place).establishIfAbsent .empty : Attempt (Model.memberSet α) R _).Confined
        Action.Incomplete fun _ => True :=
      (d.replica caller.place).establishIfAbsent_within (fun _ => Action.OfReading.incomplete)
        fun _ _ _ => ⟨nofun, nofun⟩
    rw [(trip.idled.mono fun _ => False.elim).completed_eq, (leads.passed incomplete).completed_eq,
      (asked.passed (asks ⟨nofun, nofun⟩)).completed_eq, Trace.completed, trip.recorded_eq]
  · obtain ⟨copy, cached⟩ := Option.ne_none_iff_exists'.mp cached
    obtain ⟨_, here, _⟩ := Deployment.noOlder opening.lawful trip.idled.le caller.place copy cached
    rw [here]
    exact Option.some_ne_none _

theorem log_cases {now : Trace (Model.memberSet α) R (SetOperation α)} (le : now <+: s.trace) : d.log now = [] ∨
    ∃ entry, d.log now = [entry] ∧ d.codec.encode (.init .empty) = .ok entry.data := by
  induction now using List.reverseRecOn with
  | nil => exact .inl rfl
  | append_singleton past e ih =>
    have member : e ∈ s.trace := le.subset (by simp)
    have lawful := opening.lawful.of_le le
    have opens := opening.opens_of_mem member
    rw [Deployment.log_concat]
    cases landed : e.landed? d.segment with
    | none => simpa using ih ((List.prefix_append _ _).trans le)
    | some entry =>
      obtain ⟨begins, record, _, basis⟩ := Deployment.landing lawful id landed
      rcases basis with founds | ⟨_, _, _, proposed⟩
      · have unwritten := (begins ▸ founds).unwritten lawful.of_concat.1 fun _ _ => id
        rw [unwritten]
        exact .inr ⟨entry, rfl, encode_of_opened opening.reachable member opens landed⟩
      · have proposed : Proposed d past e.caller _ record := proposed
        unfold Proposed at proposed
        rw [opens] at proposed
        split at proposed
        · exact proposed.1.elim
        · obtain ⟨_, ⟨⟩, _⟩ := proposed

theorem exists_first (sound : d.Sound) (opened : callers ≠ []) : ∃ entry, d.log s.trace = [entry] ∧
    d.codec.encode (.init .empty) = .ok entry.data := by
  obtain ⟨caller, member⟩ := List.exists_mem_of_ne_nil callers opened
  obtain ⟨_, held⟩ := opening.counted sound member
  obtain ⟨copy, cached⟩ := Option.ne_none_iff_exists'.mp held
  obtain ⟨through, begun, le, _⟩ := (Deployment.placed opening.lawful cached).through
  rcases opening.log_cases (List.prefix_refl _) with none | first
  · rw [none] at le
    exact absurd (List.prefix_nil.mp le) begun
  · exact first

theorem elements_eq (sound : d.Sound) (opened : callers ≠ []) : d.elements (d.log s.trace) = ∅ := by
  obtain ⟨entry, log, encoded⟩ := opening.exists_first sound opened
  rw [log, ← List.nil_append [entry], Deployment.elements_snapshot (sound.roundTrips _ _ encoded)]
  exact SortedSet.elements_empty

theorem ending_eq (sound : d.Sound) (opened : callers ≠ []) :
    ending 0 (d.log s.trace) = d.framed (.init .empty) := by
  obtain ⟨entry, log, encoded⟩ := opening.exists_first sound opened
  have chain := Deployment.log_chain opening.lawful
  rw [log, ← List.nil_append [entry]] at chain
  rw [log, ← List.nil_append [entry], Deployment.ending_concat chain encoded, ending_nil, Nat.zero_add]

theorem le_offset (sound : d.Sound) (opened : callers ≠ []) (lawful : Lawful (d.law (conduct R d)) t)
    (le : s.trace <+: t) {place : Nat} {copy : Revisioned (MemberSet α)} (cached : t.cache place = some copy) :
    d.framed (.init .empty) ≤ copy.revision.offset := by
  obtain ⟨entry, log, _⟩ := opening.exists_first sound opened
  obtain ⟨through, begun, front, ends, _⟩ := (Deployment.placed lawful cached).through
  have first : d.log s.trace <+: d.log t := Trace.history_le d.segment le
  have within : d.log s.trace <+: through := by
    rcases List.prefix_or_prefix_of_prefix first front with within | beyond
    · exact within
    · rw [log] at beyond ⊢
      rcases List.prefix_cons_iff.mp beyond with none | ⟨rest, rfl, _⟩
      · exact absurd none begun
      · exact List.prefix_append [entry] rest
  have chain := (Deployment.log_chain lawful).of_le front
  obtain ⟨rest, rfl⟩ := within
  rw [← opening.ending_eq sound opened, ← ends, ending_append]
  exact chain.right.le_ending

end Opening

variable (d) in
structure Clearing (clearer : Caller (SetOperation α))
    (s s' : System (Model.memberSet α) R (SetOperation α) (SetResult α)) : Prop extends Stretch d [clearer] s s' where
  clears : clearer.operation = .clear
  whole : d.oldest s.trace = 0

namespace Clearing

variable (clearing : Clearing d caller s s')

include clearing

theorem wants : caller.operation.update? = some .clear := by rw [clearing.clears]; rfl

theorem only : Trace.Only caller s.trace s'.trace := by
  obtain ⟨more, split, own⟩ := clearing.together.only
  exact ⟨more, split, fun e member => congrArg Caller.call (List.mem_singleton.mp (own e member).1)⟩

theorem elements_of_le (sound : d.Sound) {now : Trace (Model.memberSet α) R (SetOperation α)} (since : s.trace <+: now)
    (le : now <+: s'.trace) : d.elements (d.log now) =
      SetUpdate.changes (now.own caller d.lands?).flatten (d.elements (d.log s.trace)) := by
  obtain ⟨_, before⟩ := clearing.before
  have fresh := clearing.together.fresh before.steps (List.mem_singleton_self _)
  obtain ⟨during, same, mine⟩ := clearing.only.between (List.prefix_refl _) since le
  have own : Trace.own caller d.lands? during = during.filterMap fun e => d.lands? e.deed :=
    List.filterMap_congr fun e member => if_pos (mine e member)
  rw [same, elements_append sound clearing.reachable (same ▸ le), landedUpdates, Trace.own_append_of_fresh _ fresh, own]

theorem own_eq (sound : d.Sound) [Decidable (d.elements (d.log s.trace) = ∅)] :
    s'.trace.own caller d.lands? = if d.elements (d.log s.trace) = ∅ then [] else [[.clear]] := by
  obtain ⟨answer, returned⟩ := clearing.together.returned caller (List.mem_singleton_self _)
  obtain ⟨_, before⟩ := clearing.before
  have fresh := clearing.together.fresh before.steps (List.mem_singleton_self _)
  obtain ⟨_, now, amid, done, effect⟩ := effected_of_returned sound clearing.reachable returned clearing.wants
  have since := amid.le_of_uncalled clearing.together.le fun called => fresh _ called rfl
  rcases effect with none | ⟨past, deed, rfl, lands, pending⟩
  · have earlier : now.own caller d.lands? = [] := by
      obtain ⟨after, whole⟩ := amid.le
      rw [← whole, Trace.own, List.filterMap_append, List.append_eq_nil_iff] at none
      exact none.1
    rw [clearing.elements_of_le sound since amid.le, earlier] at done
    have done : d.elements (d.log s.trace) = ∅ := done
    rw [none, if_pos done]
  · have here : (⟨caller, deed⟩ : Event (Model.memberSet α) R (SetOperation α)) ∈ s'.trace := amid.le.subset (by simp)
    obtain ⟨_, _, _, _, _, _, unwritten⟩ := proposed_of_lands? sound (clearing.lawful.of_le amid.le) lands
    have since : s.trace <+: past := by
      rcases List.prefix_concat_iff.mp since with whole | early
      · exact absurd rfl (fresh ⟨caller, deed⟩ (whole ▸ by simp))
      · exact early
    rw [clearing.elements_of_le sound since ((List.prefix_append _ _).trans amid.le), unwritten] at pending
    have pending : ¬d.elements (d.log s.trace) = ∅ := pending
    have known := fun e here mine => System.caller_eq_of_known clearing.reachable returned (e := e) here mine
    rw [if_neg pending]
    rcases own_of_lawful sound clearing.lawful known with none | ⟨_, asked, single⟩
    · have found : [.clear] ∈ s'.trace.own caller d.lands? :=
        List.mem_filterMap.mpr ⟨_, here, by rw [if_pos rfl, lands]⟩
      rw [none] at found
      cases found
    · cases asked.symm.trans clearing.wants
      exact single

theorem elements_eq (sound : d.Sound) : d.elements (d.log s'.trace) = ∅ := by
  classical
  rw [clearing.elements_of_le sound clearing.together.le (List.prefix_refl _), clearing.own_eq sound]
  split
  · assumption
  · rfl

theorem cut (sound : d.Sound) [Decidable (d.elements (d.log s.trace) = ∅)] :
    d.oldest s'.trace = ending 0 (d.log s.trace) +
      (if d.elements (d.log s.trace) = ∅ then 0 else d.framed (.updates [.clear])) ∧
    d.mark s'.trace = some (d.oldest s'.trace : Int) ∧
    ending 0 (d.log s'.trace) = d.oldest s'.trace + d.framed (.init .empty) ∧
    (s'.trace.recorded caller).outcome = (if d.elements (d.log s.trace) = ∅ then 0 else 1, 1, 0) ∧
    d.Lagging s'.trace caller.place = false := by
  obtain ⟨_, before⟩ := clearing.before
  obtain ⟨answer, _, trip⟩ := clearing.together.trip_of_singleton before.steps
  have leads := trip.leads
  rw [program_of_update? d caller.place clearing.wants] at leads
  rcases Attempt.leads_bind leads with ⟨_, t₁, changed, rest⟩ | ⟨_, _, ⟨⟩⟩
  rcases Attempt.leads_bind rest with ⟨_, t₂, compacted, rest⟩ | ⟨_, _, ⟨⟩⟩
  cases rest
  have compacted : (compact (d.replica caller.place)).run.Leads caller t₁ (.ok ()) s'.trace := compacted
  have lawful₁ := clearing.lawful.of_le compacted.le
  have own : t₁.own caller d.lands? = s'.trace.own caller d.lands? :=
    ((compacted.passed (compact_silent sound caller.place)).own_eq fun _ => lands?_of_silent).symm
  have only₁ := clearing.only.between (List.prefix_append _ _) changed.le compacted.le
  have only₂ := clearing.only.between ((List.prefix_append _ _).trans changed.le) compacted.le (List.prefix_refl _)
  have completed := completed_of_change sound lawful₁ clearing.wants (own_of_called trip.fresh) changed
  obtain ⟨still, grown⟩ :=
    alone_of_change sound lawful₁ clearing.wants (own_of_called trip.fresh) only₁ changed
  have log₀ : d.log (s.trace ++ [⟨caller, .called⟩]) = d.log s.trace := by
    rw [Deployment.log_concat]
    exact List.append_nil _
  have whole₀ : d.oldest (s.trace ++ [⟨caller, .called⟩]) = 0 := by
    rw [Deployment.oldest, Trace.oldest, Trace.buffer, World.after_concat]
    exact clearing.whole
  have whole₁ := still.trans whole₀
  have candid := before.candid clearing.together
  have calm : d.Calm (conduct R d) caller (s.trace ++ [⟨caller, .called⟩]) t₁ :=
    ⟨lawful₁, candid.of_le compacted.le, id, changed.le, still, .inl whole₁⟩
  obtain ⟨same, _⟩ := change_caught calm changed
  have compacts : caller.operation.Compacts := by rw [clearing.clears]; trivial
  obtain ⟨⟨members, entry, encoded, log, mark, oldest⟩, counted, recovered, caughtUp⟩ :=
    alone_of_compact sound clearing.lawful candid compacts only₂ whole₁ compacted
  -- The snapshot is of what is left, which is nothing.
  have none := clearing.elements_eq sound
  rw [log, Deployment.elements_snapshot (sound.roundTrips _ _ encoded)] at none
  obtain rfl : members = .empty := SortedSet.eq_of_elements_eq (none.trans SortedSet.elements_empty.symm)
  have chain := Deployment.log_chain clearing.lawful
  rw [log] at chain
  have begins : d.oldest s'.trace = ending 0 (d.log t₁) := oldest.trans (Contiguous.offset_eq chain)
  have fresh : d.arrears caller (s.trace ++ [⟨caller, .called⟩]) = 0 := by
    rw [Deployment.arrears, trip.recorded_eq, Deployment.not_lagging_of_oldest whole₀]
    rfl
  rw [own, clearing.own_eq sound] at completed grown
  rw [log₀] at grown
  refine ⟨?_, oldest ▸ mark, ?_, Trace.outcome_eq ?_ (recovered.trans (same.trans fresh)), caughtUp⟩
  · rw [begins, grown]
    split <;> simp
  · rw [log, Deployment.ending_concat chain encoded, begins]
  · rw [counted, completed, Trace.completed, trip.recorded_eq]
    split <;> rfl

end Clearing

end Stretch

end ReplicatedSet

end LogReplica
