import LogReplica.Proofs.Replica.Remembering

namespace LogReplica

variable {M : Model} {R O : Type}

def Trace.landings (segment : SegmentId) (me : Caller O) (t : Trace M R O) : List Entry :=
  t.own me fun deed => (⟨me, deed⟩ : Event M R O).landed? segment

def Action.Unwriting : Action M R → Prop
  | .ask _ (.append ..) => False
  | _ => True

theorem Action.OfReading.unwriting {action : Action M R} (reading : action.OfReading) : action.Unwriting := by
  cases action with
  | ask segment request =>
    have passive : request.Passive := reading.resolve_right id
    cases request <;> first | exact passive.elim | trivial
  | touch | generate | summarize | abort => trivial

theorem Action.Abstains.unwriting {action : Action M R} (abstains : action.Abstains) : action.Unwriting := by
  cases action with
  | ask segment request => cases request <;> first | exact abstains.elim | trivial
  | touch | generate | summarize | abort => trivial

section Landings

variable {segment : SegmentId} {me : Caller O} {t t' : Trace M R O}

theorem Passed.landings_eq (passed : Passed me (Deed.Within Action.Unwriting) t t') :
    t'.landings segment me = t.landings segment me := by
  refine passed.own_eq fun deed within => ?_
  cases deed with
  | called | gaveUp => exact within.elim
  | failed => rfl
  | acted action answer =>
    cases action with
    | ask named request => cases request <;> first | exact within.elim | rfl
    | touch | generate | summarize => rfl
    | abort => exact nomatch answer

theorem Passed.landings_eq_of_quiet (passed : Passed me (Deed.Quiet segment) t t') :
    t'.landings segment me = t.landings segment me :=
  passed.own_eq fun deed quiet => Event.landed?_of_quiet (show (⟨me, deed⟩ : Event M R O).deed.Quiet segment from quiet)

theorem Procedure.Leads.landings_eq {α : Type} {p : Procedure M R α} {a : α} {allowed : Action M R → Prop}
    {holds : α → Prop} (leads : p.Leads me t a t') (confined : p.Confined allowed holds)
    (unwriting : ∀ action, allowed action → action.Unwriting) :
    t'.landings segment me = t.landings segment me :=
  ((leads.passed confined).mono fun _ within => within.mono unwriting).landings_eq

end Landings

namespace Deployment

variable {d : Deployment M} {ρ : Conduct M R O} {me : Caller O} {t t' t'' past : Trace M R O} {place : Nat}

theorem Landed.landings_eq {record : M.Record} {entry : Entry} (landed : d.Landed ρ me record entry past t) :
    t.landings d.segment me = past.landings d.segment me ++ [entry] := by
  rw [landed.did.last, Trace.landings, Trace.own_concat]
  simp [Event.landed?, Trace.landings]

theorem Placed.endOffset_le {log before : List Entry} {entry : Entry} {copy : Revisioned M.State}
    (placed : d.Placed log copy) (chain : Contiguous 0 log) (front : before ++ [entry] <+: log)
    (further : ending 0 before < copy.revision.offset) : entry.endOffset ≤ copy.revision.offset := by
  obtain ⟨_, _, through, _, front', ends, _⟩ := placed
  rw [← ends] at further ⊢
  have reached : ending 0 (before ++ [entry]) = entry.endOffset := by rw [ending_append, ending_cons, ending_nil]
  rcases List.prefix_or_prefix_of_prefix front' front with short | ⟨rest, rfl⟩
  · rcases List.prefix_concat_iff.mp short with rfl | ⟨rest, rfl⟩
    · exact Nat.le_of_eq reached.symm
    · rw [ending_append] at further
      have chain := (chain.of_le front).left
      exact absurd (chain.right.le_ending) (Nat.not_le.mpr further)
  · rw [ending_append, ← reached]
    exact (chain.of_le front').right.le_ending

def Brings (d : Deployment M) (me : Caller O) (settled : Entry → Trace M R O → Prop) (t t' : Trace M R O) : Prop :=
  t'.landings d.segment me = t.landings d.segment me ∨
    ∃ entry, t'.landings d.segment me = t.landings d.segment me ++ [entry] ∧ settled entry t'

namespace Brings

variable {settled : Entry → Trace M R O → Prop}

theorem since (brings : d.Brings me settled t' t'') (same : t'.landings d.segment me = t.landings d.segment me) :
    d.Brings me settled t t'' := by
  unfold Brings
  rwa [← same]

theorem later (brings : d.Brings me settled t t') (same : t''.landings d.segment me = t'.landings d.segment me)
    (kept : ∀ entry, settled entry t' → settled entry t'') : d.Brings me settled t t'' := by
  unfold Brings
  rw [same]
  exact brings.imp_right fun ⟨entry, landed, here⟩ => ⟨entry, landed, kept entry here⟩

end Brings

theorem writeConditionally_landings {latest : Revision} {record : M.Record}
    {result : Except CoreError (Option Revision)}
    (leads : ((d.client place).writeConditionally latest record).run.Leads me t result t')
    (lost : ∀ revision, result ≠ .ok (some revision)) : t'.landings d.segment me = t.landings d.segment me := by
  have inquires : ∀ {α : Type} {x : Attempt M R α} {result} {t t' : Trace M R O}, x.Inquiring →
      x.run.Leads me t result t' → t'.landings d.segment me = t.landings d.segment me := fun inquiring leads =>
    leads.landings_eq inquiring fun _ inquires => Action.OfReading.unwriting (.inl inquires.reads)
  unfold Client.writeConditionally Client.encode at leads
  rcases Attempt.leads_bind leads with ⟨_, t₁, checked, leads⟩ | ⟨_, checked, rfl⟩
  swap
  · exact inquires Client.ensureOpen_confined checked
  rw [← inquires Client.ensureOpen_confined checked]
  rcases Attempt.leads_bind leads with ⟨_, t₂, checked, leads⟩ | ⟨_, checked, rfl⟩
  swap
  · exact inquires ((d.client place).checkSegment_confined latest) checked
  rw [← inquires ((d.client place).checkSegment_confined latest) checked]
  cases encoded : (d.client place).codec.encode record with
  | error cause =>
    rw [encoded] at leads
    cases leads
    rfl
  | ok bytes =>
    rw [encoded] at leads
    rcases Attempt.leads_bind leads with ⟨_, t₃, written, leads⟩ | ⟨_, ⟨⟩, _⟩
    cases written
    have refused : ∀ {past : Trace M R O} {deed : Deed M R}, Idled me t₂ past → deed.Quiet d.segment →
        Trace.landings d.segment me (past ++ [⟨me, deed⟩]) = t₂.landings d.segment me := fun idled quiet =>
      (idled.step quiet).landings_eq_of_quiet
    rcases Attempt.leads_bind leads with ⟨outcome, t₄, asked, leads⟩ | ⟨_, asked, rfl⟩
    · obtain ⟨past, idled, rfl⟩ := Attempt.leads_ask asked
      cases outcome with
      | conflict tail =>
        cases leads
        exact refused idled trivial
      | appended offset endOffset =>
        dsimp only at leads
        cases counted : Revision.nextEvent? latest.event with
        | none =>
          rw [counted] at leads
          exact absurd leads Attempt.not_leads_abort
        | some event =>
          rw [counted] at leads
          cases leads
          exact absurd rfl (lost _)
    · obtain ⟨past, reply, deed, idled, outcome, rfl, failed⟩ := Attempt.leads_ask_cases asked
      cases reply with
      | ok answer => cases failed
      | error cause => exact refused idled (quiet_of_error outcome)

theorem locked_brings {α : Type} {body : Attempt M R α} {result : Except CoreError α}
    {settled : Entry → Trace M R O → Prop}
    (kept : ∀ entry {t t' : Trace M R O}, settled entry t → t <+: t' → Lawful (d.law ρ) t' → settled entry t')
    (inside : ∀ {t t' : Trace M R O}, Lawful (d.law ρ) t' → body.run.Leads me t result t' → d.Brings me settled t t')
    (lawful : Lawful (d.law ρ) t') (leads : (Attempt.locked body).run.Leads me t result t') :
    d.Brings me settled t t' := by
  obtain ⟨entered, t₁, left, idled, through, idled', rfl⟩ := Attempt.leads_section leads
  have le := idled'.le_concat ⟨me, .acted (.touch .unlockCache) ()⟩
  refine ((inside (lawful.of_le le) through).since ?_).later ?_ fun entry here => kept entry here le lawful
  · exact Passed.landings_eq (idled.step trivial)
  · exact Passed.landings_eq (idled'.step trivial)

theorem bind_brings {α β : Type} {x : Attempt M R α} {f : α → Attempt M R β} {result : Except CoreError β}
    {settled : Entry → Trace M R O → Prop}
    (kept : ∀ entry {t t' : Trace M R O}, settled entry t → t <+: t' → Lawful (d.law ρ) t' → settled entry t')
    (first : ∀ {t₁ result}, Lawful (d.law ρ) t₁ → x.run.Leads me t result t₁ → d.Brings me settled t t₁)
    (rest : ∀ a, (f a).Confined Action.Unwriting fun _ => True) (lawful : Lawful (d.law ρ) t')
    (leads : (x >>= f).run.Leads me t result t') : d.Brings me settled t t' := by
  rcases Attempt.leads_bind leads with ⟨a, t₁, looped, leads⟩ | ⟨_, failed, rfl⟩
  · exact (first (lawful.of_le leads.le) looped).later (leads.landings_eq (rest a) fun _ => id) fun entry here =>
      kept entry here leads.le lawful
  · exact first lawful failed

theorem still_brings {α β : Type} {x : Attempt M R α} {f : α → Attempt M R β} {result : Except CoreError β}
    {settled : Entry → Trace M R O → Prop}
    (still : ∀ {t₁ result}, x.run.Leads me t result t₁ → t₁.landings d.segment me = t.landings d.segment me)
    (rest : ∀ a t₁, x.run.Leads me t (.ok a) t₁ → (f a).run.Leads me t₁ result t' → d.Brings me settled t₁ t')
    (leads : (x >>= f).run.Leads me t result t') : d.Brings me settled t t' := by
  rcases Attempt.leads_bind leads with ⟨a, t₁, first, leads⟩ | ⟨_, first, rfl⟩
  · exact (rest a t₁ first leads).since (still first)
  · exact .inl (still first)

theorem inquire_brings {α β : Type} {x : Attempt M R α} {f : α → Attempt M R β} {result : Except CoreError β}
    {settled : Entry → Trace M R O → Prop} (inquiring : x.Inquiring)
    (rest : ∀ a t₁, x.run.Leads me t (.ok a) t₁ → (f a).run.Leads me t₁ result t' → d.Brings me settled t₁ t')
    (leads : (x >>= f).run.Leads me t result t') : d.Brings me settled t t' :=
  still_brings (fun asked => asked.landings_eq inquiring fun _ inquires =>
    Action.OfReading.unwriting (.inl inquires.reads)) rest leads

section Updating

variable (me) in
def Folded (entry : Entry) (t : Trace M R O) : Prop :=
  ∃ held, t.cache me.place = some held ∧ entry.endOffset ≤ held.revision.offset

theorem Folded.mono (entry : Entry) {t t' : Trace M R O} (folded : Folded me entry t) (le : t <+: t')
    (lawful : Lawful (d.law ρ) t') : Folded me entry t' := by
  obtain ⟨held, cached, past⟩ := folded
  obtain ⟨held', cached', further⟩ := noOlder lawful le me.place held cached
  exact ⟨held', cached', Nat.le_trans past further⟩

theorem exists_applyRecord (r : Replica M) (record : M.Record) (state : M.State) (revision : Revision) :
    ∃ next, r.applyRecord record (some state) revision = .ok next ∧ next.revision = revision := by
  cases record <;> exact ⟨_, rfl, rfl⟩

theorem applyWritten_folds {record : M.Record} {entry : Entry} {copy : Revisioned M.State}
    {seen before after : Trace M R O} (lawful : Lawful (d.law ρ) t') (drafts : Drafts me copy seen before)
    (landed : d.Landed ρ me record entry before after) (begins : entry.offset = copy.revision.offset)
    (leads : ((d.replica place).applyWritten copy.revision ⟨d.segment, entry.endOffset, copy.revision.event + 1⟩
      record : Procedure M R Unit).Leads me after () t') : Folded me entry t' := by
  obtain ⟨result, t₀, leads, ended⟩ := Procedure.Leads.of_bind leads
  cases ended
  obtain ⟨entered, t₁, left, idled, inside, idled', rfl⟩ := Attempt.leads_section leads
  rcases Attempt.leads_bind inside with ⟨slot, t₂, looked, rest⟩ | ⟨_, looked, _⟩
  swap
  · obtain ⟨_, _, _, _, ⟨⟩⟩ := Attempt.leads_touch looked
  have le₁ := idled'.le_concat ⟨me, .acted (.touch .unlockCache) ()⟩
  have le₂ := rest.le.trans le₁
  have lawful₂ := lawful.of_le le₂
  have since : after <+: t₂ := (idled.le_concat _).trans looked.le
  -- The cache may have moved since the copy was taken from it, but not back.
  obtain ⟨current, there, further⟩ :=
    noOlder lawful₂ (drafts.passed.le.trans (landed.did.le.trans since)) me.place copy drafts.cached
  obtain ⟨_, cached⟩ := cached_leads lawful₂ looked
  rw [there] at cached
  subst cached
  have known := placed lawful₂ there
  dsimp only at rest
  split at rest
  · obtain ⟨next, applied, revision⟩ := exists_applyRecord (d.replica place) record current.state
      ⟨d.segment, entry.endOffset, copy.revision.event + 1⟩
    rw [applied] at rest
    obtain ⟨past, answer, _, rfl, _⟩ := Attempt.leads_touch rest
    refine Folded.mono entry ⟨next, ?_, revision ▸ Nat.le_refl _⟩ le₁ lawful
    rw [Trace.cache, World.memories_touched]
    rfl
  · rename_i apart
    refine Folded.mono entry ⟨current, there, ?_⟩ le₂ lawful
    have same := (placed (landed.did.lawful.of_le (drafts.passed.le.trans landed.did.le)) drafts.cached).segment
    have front : d.log before ++ [entry] <+: d.log t₂ := by
      rw [← landed.log]
      exact Trace.history_le d.segment since
    refine known.endOffset_le (log_chain lawful₂) front ?_
    rw [← landed.begins, begins]
    exact Nat.lt_of_le_of_ne further fun equal => apart ⟨known.segment.trans same.symm, equal.symm⟩

theorem written_brings {record : M.Record} {copy : Revisioned M.State} {revision : Revision} {seen t₁ : Trace M R O}
    (lawful : Lawful (d.law ρ) t') (drafts : Drafts me copy seen t)
    (tried : ((d.client place).writeConditionally copy.revision record).run.Leads me t (.ok (some revision)) t₁)
    (applied : ((d.replica place).applyWritten copy.revision revision record : Procedure M R Unit).Leads me t₁ () t') :
    d.Brings me (Folded me) t t' := by
  obtain ⟨before, entry, went, landed, begins, rfl⟩ := writeConditionally_leads (lawful.of_le applied.le) tried
  have drafts := drafts.mono (went.mono fun _ looks => looks.tends.retains.leaves .cache).grows
  have confined := (d.replica place).applyWritten_confined (M := M) (R := R) copy.revision
    ⟨d.segment, entry.endOffset, copy.revision.event + 1⟩ record
  have same : before.landings d.segment me = t.landings d.segment me :=
    Passed.landings_eq_of_quiet (went.tends.quiet d.segment).grows
  refine .inr ⟨entry, ?_, applyWritten_folds lawful drafts landed begins applied⟩
  rw [applied.landings_eq confined fun _ => Action.OfReading.unwriting, landed.landings_eq, same]

variable {β : Type}

theorem writeLoop_brings {propose : M.State → Procedure M R (Option M.Record × β)}
    (proposed : ∀ state, (propose state).Confined Action.Abstains fun _ => True) {left attempts : Nat}
    {result : Except CoreError (WriteOutcome β)} (lawful : Lawful (d.law ρ) t')
    (leads : ((d.replica place).writeLoop propose left attempts).run.Leads me t result t') :
    d.Brings me (Folded me) t t' := by
  -- On the attempts left; all but the last one have landed nothing.
  induction left generalizing t attempts with
  | zero => exact absurd leads Attempt.not_leads_abort
  | succ left ih =>
    have abstains : ∀ action : Action M R, action.Abstains → action.Unwriting := fun _ => Action.Abstains.unwriting
    have reading : ∀ action : Action M R, action.OfReading → action.Unwriting := fun _ => Action.OfReading.unwriting
    unfold Replica.writeLoop at leads
    refine still_brings (fun paused => paused.landings_eq ((d.replica place).pause_abstains attempts) abstains)
      (fun _ t₁ _ leads => ?_) leads
    refine still_brings (fun got => got.landings_eq (d.replica place).getRevisionedState_confined reading)
      (fun copy t₂ got leads => ?_) leads
    have drafts := getRevisionedState_leads (lawful.of_le leads.le) got
    rcases Attempt.leads_bind leads with ⟨⟨proposal, value⟩, t₃, asked, leads⟩ | ⟨_, asked, rfl⟩
    swap
    · obtain ⟨_, _, ⟨⟩⟩ := Attempt.leads_lift asked
    obtain ⟨_, asked, ⟨⟩⟩ := Attempt.leads_lift asked
    refine Brings.since ?_ (asked.landings_eq (proposed copy.state) abstains)
    have drafts := drafts.mono ((asked.passed (proposed copy.state)).mono fun _ within =>
      (Deed.retains_of_abstains within).leaves .cache)
    cases proposal with
    | none =>
      cases leads
      exact .inl rfl
    | some record =>
      rcases Attempt.leads_bind leads with ⟨written, t₄, tried, leads⟩ | ⟨_, tried, rfl⟩
      swap
      · exact .inl (writeConditionally_landings tried fun _ same => by cases same)
      cases written with
      | some revision =>
        rcases Attempt.leads_bind leads with ⟨written, t₅, applied, leads⟩ | ⟨_, applied, _⟩
        swap
        · obtain ⟨_, _, ⟨⟩⟩ := Attempt.leads_lift applied
        cases leads
        obtain ⟨_, applied, _⟩ := Attempt.leads_lift applied
        exact written_brings lawful drafts tried applied
      | none =>
        refine Brings.since ?_ (writeConditionally_landings tried fun _ same => by cases same)
        have counts : (Attempt.touch (.tally .conflict) : Attempt M R Unit).Confined Action.Abstains fun _ => True :=
          .touch ⟨rfl, rfl, fun _ same => by cases same⟩
        refine still_brings (fun counted => counted.landings_eq counts abstains) (fun _ t₅ _ leads => ?_) leads
        split at leads
        · exact ih leads
        · cases leads
          exact .inl rfl

theorem updateBy_brings {batch : M.State → Procedure M R (List M.Update × β)}
    (proposed : ∀ state, (batch state).Confined Action.Abstains fun _ => True) {result : Except CoreError β}
    (lawful : Lawful (d.law ρ) t') (leads : ((d.replica place).updateBy batch).run.Leads me t result t') :
    d.Brings me (Folded me) t t' := by
  refine bind_brings Folded.mono (writeLoop_brings fun state => ?_) (fun outcome => ?_) lawful leads
  · exact .bind ((proposed state).mono (fun _ => id) fun _ _ => trivial)
  · split
    · exact .bind (.touch trivial) fun _ => .pure _
    · exact .pure _

theorem compactBy_brings {summary : M.State → Procedure M R M.Snapshot}
    (proposed : ∀ state, (summary state).Confined Action.Abstains fun _ => True) {result : Except CoreError Unit}
    (lawful : Lawful (d.law ρ) t') (leads : ((d.replica place).compactBy summary).run.Leads me t result t') :
    d.Brings me (Folded me) t t' := by
  refine bind_brings Folded.mono (writeLoop_brings fun state => ?_) (fun outcome => ?_) lawful leads
  · exact .bind ((proposed state).mono (fun _ => id) fun _ _ => trivial)
  · split
    · exact .pure ()
    · exact .bind (.touch trivial) fun _ => (d.replica place).advanceMark_within
        (fun _ asks => Action.OfReading.unwriting (.inl asks.reads)) _ (fun _ _ _ => trivial)
        (fun _ => trivial) trivial

end Updating

section Founding

variable (d me) in
/-- Since the record has landed, the cache at the place of the call has been what a replay makes of it alone. -/
def Seeded (entry : Entry) (t : Trace M R O) : Prop :=
  ∃ (set : Trace M R O) (held : Revisioned M.State), set <+: t ∧ entry ∈ d.log set ∧ set.cache me.place = some held ∧
    d.resume none 0 [entry] = .ok (some held)

theorem Seeded.mono (entry : Entry) {t t' : Trace M R O} (seeded : d.Seeded me entry t) (le : t <+: t')
    (_ : Lawful (d.law ρ) t') : d.Seeded me entry t' := by
  obtain ⟨set, held, early, rest⟩ := seeded
  exact ⟨set, held, early.trans le, rest⟩

variable (trips : d.codec.RoundTrips)

include trips

theorem writeInitial_brings {position : Nat} {snapshot : M.Snapshot} {result : Except CoreError Bool}
    (lawful : Lawful (d.law ρ) t')
    (leads : ((d.replica place).writeInitial ⟨d.segment, position, 0⟩ snapshot).run.Leads me t result t') :
    d.Brings me (d.Seeded me) t t' := by
  unfold Replica.writeInitial at leads
  rcases Attempt.leads_bind leads with ⟨written, t₁, tried, leads⟩ | ⟨_, tried, rfl⟩
  swap
  · exact .inl (writeConditionally_landings tried nofun)
  cases written with
  | none =>
    cases leads
    exact .inl (writeConditionally_landings tried nofun)
  | some revision =>
    obtain ⟨before, entry, went, landed, _, rfl⟩ := writeConditionally_leads (lawful.of_le leads.le) tried
    obtain ⟨past, answer, idled, leads⟩ := Attempt.leads_touch_bind leads
    cases leads
    have same : before.landings d.segment me = t.landings d.segment me :=
      Passed.landings_eq_of_quiet (went.tends.quiet d.segment).grows
    refine .inr ⟨entry, ?_, _, _, List.prefix_refl _, ?_, ?_, resume_init (trips _ _ landed.encoded)⟩
    · refine (Passed.landings_eq_of_quiet (idled.step ?_)).trans ?_
      · trivial
      · rw [landed.landings_eq, same]
    · refine (Trace.history_le d.segment (idled.le_concat _)).subset ?_
      rw [show Trace.history d.segment t₁ = _ from landed.log]
      exact List.mem_append_right _ (List.mem_singleton_self entry)
    · rw [Trace.cache, World.memories_touched]
      rfl

theorem establish_brings {snapshot : M.Snapshot} {result : Except CoreError Unit} (lawful : Lawful (d.law ρ) t')
    (leads : ((d.replica place).establish snapshot).run.Leads me t result t') :
    d.Brings me (d.Seeded me) t t' := by
  refine locked_brings Seeded.mono (fun lawful leads => ?_) lawful leads
  refine inquire_brings (d.client place).fetchOldest_confined (fun oldest t₂ saw leads => ?_) leads
  refine inquire_brings (d.client place).fetchLatest_confined (fun latest t₃ looked leads => ?_) leads
  obtain rfl := fetchLatest_leads (lawful.of_le leads.le) looked
  split at leads
  · cases leads
    exact .inl rfl
  · refine bind_brings Seeded.mono (writeInitial_brings trips) (fun written => ?_) lawful leads
    cases written
    · exact .throw trivial
    · exact .pure ()

theorem establishIfAbsent_brings {snapshot : M.Snapshot} {result : Except CoreError Bool} (lawful : Lawful (d.law ρ) t')
    (leads : ((d.replica place).establishIfAbsent snapshot).run.Leads me t result t') :
    d.Brings me (d.Seeded me) t t' := by
  refine locked_brings Seeded.mono (fun lawful leads => ?_) lawful leads
  refine inquire_brings (d.client place).fetchOldest_confined (fun oldest t₂ saw leads => ?_) leads
  refine inquire_brings (d.client place).fetchLatest_confined (fun latest t₃ looked leads => ?_) leads
  have le : t₂ <+: t₃ := looked.le
  obtain rfl := fetchOldest_leads (lawful.of_le (le.trans leads.le)) saw
  have caught : ((d.replica place).catchUp >>= fun _ => pure false : Attempt M R Bool).Confined Action.Unwriting
      fun _ => True := by
    refine .bind ((d.replica place).catchUp_confined.mono (fun _ reads => ?_) fun _ _ => trivial) fun _ => .pure _
    exact Action.OfReading.unwriting (.inl reads)
  split at leads
  · refine bind_brings Seeded.mono (writeInitial_brings trips) (fun written => ?_) lawful leads
    cases written
    · exact caught
    · exact .pure _
  · exact .inl (leads.landings_eq caught fun _ => id)

end Founding

section Returned

variable {t t' : Trace M R (Operation M)}

theorem updates_bring {me : Caller (Operation M)} (writes : me.operation.Updates ∨ me.operation = .compact)
    {result : Except CoreError (Result M R)} (lawful : Lawful (d.law (conduct M R)) t')
    (leads : (d.program me.place me.operation).run.Leads me t result t') : d.Brings me (Folded me) t t' := by
  have updated : ∀ {t₁ : Trace M R (Operation M)} {result : Except CoreError R}, Lawful (d.law (conduct M R)) t₁ →
      (d.replica me.place).updateStateWithResult.run.Leads me t result t₁ → d.Brings me (Folded me) t t₁ :=
    updateBy_brings fun _ => .perform trivial fun _ => trivial
  cases operation : me.operation with
  | updateState =>
    rw [operation] at leads
    refine bind_brings Folded.mono ?_ (fun _ => .pure _) lawful leads
    exact bind_brings Folded.mono updated (fun _ => .pure _)
  | updateStateWithResult =>
    rw [operation] at leads
    exact bind_brings Folded.mono updated (fun _ => .pure _) lawful leads
  | compact =>
    rw [operation] at leads
    refine bind_brings Folded.mono (compactBy_brings fun _ => ?_) (fun _ => .pure _) lawful leads
    exact .perform trivial fun _ => trivial
  | _ => simp [operation, Operation.Updates] at writes

theorem founding_brings {me : Caller (Operation M)} (founds : me.operation.Founds) (trips : d.codec.RoundTrips)
    {result : Except CoreError (Result M R)} (lawful : Lawful (d.law (conduct M R)) t')
    (leads : (d.program me.place me.operation).run.Leads me t result t') : d.Brings me (d.Seeded me) t t' := by
  cases operation : me.operation with
  | establish snapshot =>
    rw [operation] at leads
    exact bind_brings Seeded.mono (establish_brings trips) (fun _ => .pure _) lawful leads
  | establishIfAbsent snapshot =>
    rw [operation] at leads
    exact bind_brings Seeded.mono (establishIfAbsent_brings trips) (fun _ => .pure _) lawful leads
  | _ => simp [operation, Operation.Founds] at founds

theorem brought_of_returned {s : System M R (Operation M) (Result M R)} {caller : Caller (Operation M)}
    {settled : Entry → Trace M R (Operation M) → Prop} {result : Except CoreError (Result M R)}
    (kept : ∀ entry {t t' : Trace M R (Operation M)}, settled entry t → t <+: t' →
      Lawful (d.law (conduct M R)) t' → settled entry t')
    (brings : ∀ {t t'}, Lawful (d.law (conduct M R)) t' →
      (d.program caller.place caller.operation).run.Leads caller t result t' → d.Brings caller settled t t')
    (reachable : d.Reachable R s) (returned : s.Returned caller result) (own : result ≠ .error .taskFailed)
    {e : Event M R (Operation M)} (member : e ∈ s.trace) (mine : e.caller = caller) {entry : Entry}
    (landed : e.landed? d.segment = some entry) : settled entry s.trace := by
  obtain ⟨past, t, fresh, le, idled, leads⟩ := System.leads_of_returned reachable returned own
  have lawful := (secure_of_reachable reachable).lawful
  have still : s.trace.landings d.segment caller = Trace.landings d.segment caller t :=
    Passed.landings_eq_of_quiet (idled.mono fun _ => False.elim)
  have none : Trace.landings d.segment caller (past ++ [⟨caller, .called⟩]) = [] := by
    rw [Trace.landings, Trace.own_concat, Trace.own_of_fresh fresh]
    rfl
  have brought : entry ∈ s.trace.landings d.segment caller := by
    refine List.mem_filterMap.mpr ⟨e, member, ?_⟩
    rw [mine, if_pos rfl, ← landed, ← mine]
  rw [still] at brought
  rcases brings (lawful.of_le idled.le) leads with same | ⟨entry', same, here⟩
  · rw [same, none] at brought
    cases brought
  · rw [same, none] at brought
    obtain rfl := List.mem_singleton.mp brought
    exact kept _ here idled.le lawful

end Returned

end Deployment

end LogReplica
