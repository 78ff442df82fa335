import LogReplica.Proofs.Concurrency.Yield

namespace LogReplica

variable {M : Model} {R O α β : Type} {me : Caller O} {t : Trace M R O} {allowed : Action M R → Prop}

/-- A step that can be taken at once, whatever the functions of the caller are. -/
def Action.Proceeds : Action M R → Prop
  | .touch t => t.takes? = none
  | .generate _ | .summarize _ => False
  | _ => True

theorem Touch.enabled_of_takes {S : Type} (m : Memory S) {t : Touch S} (free : t.takes? = none) : t.Enabled m := by
  cases t <;> trivial

theorem World.holds_cases {w : World M} {e : Event M R O} {place call : Nat} {lock : Lock}
    (holds : (w.note e).holders place lock = some call) :
    w.holders place lock = some call ∨ ∃ x answer, e.caller.call = call ∧ e.caller.place = place ∧
      e.deed = .acted (.touch x) answer ∧ x.takes? = some lock := by
  obtain ⟨caller, deed⟩ := e
  cases deed with
  | called | failed => exact .inl holds
  | gaveUp =>
    have holds : (if w.holders place lock = some caller.call then none else w.holders place lock) = some call := holds
    split at holds
    · cases holds
    · exact .inl holds
  | acted action answer =>
    cases action with
    | ask | generate | summarize => exact .inl holds
    | abort => exact nomatch answer
    | touch x =>
      have holds : (if place = caller.place ∧ x.takes? = some lock then some caller.call
        else if place = caller.place ∧ x.gives? = some lock then none else w.holders place lock) = some call := holds
      split at holds
      · rename_i taken
        cases holds
        exact .inr ⟨x, answer, rfl, taken.1.symm, rfl, taken.2⟩
      · split at holds
        · cases holds
        · exact .inl holds

theorem World.frees_cases {w : World M} {e : Event M R O} {place holder : Nat} {lock : Lock}
    (held : w.holders place lock = some holder) (free : (w.note e).holders place lock = none) :
    (e.deed = .gaveUp ∧ e.caller.call = holder) ∨ ∃ x answer, e.caller.place = place ∧
      e.deed = .acted (.touch x) answer ∧ x.gives? = some lock := by
  obtain ⟨caller, deed⟩ := e
  cases deed with
  | called | failed => exact absurd (held.symm.trans free) nofun
  | gaveUp =>
    have free : (if w.holders place lock = some caller.call then none else w.holders place lock) = none := free
    rw [held] at free
    split at free
    · rename_i mine
      exact .inl ⟨rfl, (Option.some.inj mine).symm⟩
    · cases free
  | acted action answer =>
    cases action with
    | ask | generate | summarize => exact absurd (held.symm.trans free) nofun
    | abort => exact nomatch answer
    | touch x =>
      have free : (if place = caller.place ∧ x.takes? = some lock then some caller.call
        else if place = caller.place ∧ x.gives? = some lock then none else w.holders place lock) = none := free
      split at free
      · cases free
      · split at free
        · rename_i given
          exact .inr ⟨x, answer, given.1.symm, rfl, given.2⟩
        · exact absurd (held.symm.trans free) nofun

theorem World.acted_of_holds {place call : Nat} {lock : Lock} (holds : (World.after t).holders place lock = some call) :
    ∃ e ∈ t, e.caller.call = call ∧ e.caller.place = place ∧ e.deed ≠ .called := by
  induction t using List.reverseRecOn with
  | nil => cases holds
  | append_singleton past e ih =>
    rw [World.after_concat] at holds
    rcases holds_cases holds with before | ⟨x, answer, mine, here, deed, _⟩
    · obtain ⟨e', member, found⟩ := ih before
      exact ⟨e', List.mem_append_left _ member, found⟩
    · refine ⟨e, List.mem_append_right _ (List.mem_singleton_self _), mine, here, ?_⟩
      rw [deed]
      rintro ⟨⟩

namespace System

variable {program : Nat → O → Attempt M R α} {s s' : System M R O α}

theorem Step.proceeds (step : s.Step program s') : ∃ caller deed rest, s' = s.proceed caller deed rest ∧
    (s.calls caller.call = none ∨
      deed ≠ .called ∧ ∃ action next, s.calls caller.call = some ⟨caller, .step action next⟩) := by
  cases step with
  | call caller new => exact ⟨caller, _, _, rfl, .inl new⟩
  | act caller action next answer deed running outcome =>
    exact ⟨caller, _, _, rfl, .inr ⟨by cases outcome <;> nofun, action, next, running⟩⟩
  | panic caller action next running => exact ⟨caller, _, _, rfl, .inr ⟨nofun, action, next, running⟩⟩

theorem trace_le (steps : s.Steps program s') : s.trace <+: s'.trace := by
  induction steps with
  | refl => exact List.prefix_refl _
  | tail _ step ih =>
    obtain ⟨caller, deed, rest, rfl, _⟩ := step.proceeds
    exact ih.trans (List.prefix_append _ _)

theorem possible_of_steps (possible : s.trace.Possible) (steps : s.Steps program s') : s'.trace.Possible := by
  induction steps with
  | refl => exact possible
  | tail _ step ih =>
    cases step with
    | call => exact ih.concat trivial
    | act caller action next answer deed running outcome fits => exact ih.concat fits
    | panic => exact ih.concat trivial

theorem possible_of_reachable (reachable : s.Reachable program) : s.trace.Possible :=
  possible_of_steps (fun past e after split => by simp [initial] at split) reachable

/-- How a call has come to where it is: it was called after `past`, and its last deed ended `t`. -/
structure Course (program : Nat → O → Attempt M R α) (s : System M R O α) (caller : Caller O)
    (rest : Procedure M R (Except CoreError α)) (past t : Trace M R O) : Prop where
  fresh : ∀ e ∈ past, e.caller.call ≠ caller.call
  since : past ++ [⟨caller, .called⟩] <+: t
  idled : Idled caller t s.trace
  yields : ∀ {fine : Trace M R O → Prop} {post : Except CoreError α → Trace M R O → Prop},
    (∀ {past t'}, past <+: t' → fine t' → fine past) → fine t →
    (program caller.place caller.operation).run.Yields fine caller (post (.error .taskFailed)) post
      (past ++ [⟨caller, .called⟩]) → rest.Yields fine caller (post (.error .taskFailed)) post t
  begun : (rest = (program caller.place caller.operation).run ∧ t = past ++ [⟨caller, .called⟩]) ∨
    ∀ (first : Action M R) (next : first.Answer → Procedure M R (Except CoreError α)) (allowed : Action M R → Prop)
      (holds : Except CoreError α → Prop), (program caller.place caller.operation).run = .step first next →
      (∀ answer, (next answer).Confined allowed holds) → holds (.error .taskFailed) → rest.Confined allowed holds

namespace Course

variable {caller : Caller O} {rest : Procedure M R (Except CoreError α)} {past t : Trace M R O}

theorem other (course : Course program s caller rest past t) {caller' : Caller O} (ne : caller.call ≠ caller'.call)
    (deed : Deed M R) (rest' : Procedure M R (Except CoreError α)) :
    Course program (s.proceed caller' deed rest') caller rest past t := by
  refine ⟨course.fresh, course.since, course.idled.trans ⟨_, rfl, ?_⟩, course.yields, course.begun⟩
  intro e member mine
  rw [List.mem_singleton.mp member] at mine
  exact ne mine.symm

variable {action : Action M R} {next : action.Answer → Procedure M R (Except CoreError α)}
  (course : Course program s caller (.step action next) past t)

include course

theorem since_proceed (deed : Deed M R) : past ++ [⟨caller, .called⟩] <+: s.trace ++ [⟨caller, deed⟩] :=
  course.since.trans (course.idled.le.trans (List.prefix_append _ _))

theorem act {answer : action.Answer} {deed : Deed M R} (outcome : Outcome action answer deed) :
    Course program (s.proceed caller deed (next answer)) caller (next answer) past (s.trace ++ [⟨caller, deed⟩]) := by
  refine ⟨course.fresh, course.since_proceed deed, Passed.refl _, ?_, .inr ?_⟩
  · intro fine post closed here whole
    have before := closed (course.idled.le.trans (List.prefix_append _ _)) here
    exact (course.yields closed before whole).act course.idled outcome here
  · intro first next' allowed holds same confined failed
    rcases course.begun with ⟨whole, _⟩ | part
    · cases whole.trans same
      exact confined answer
    · exact (part first next' allowed holds same confined failed).2 answer

theorem panic (ends : action.MayEnd) :
    Course program (s.proceed caller .gaveUp (.done (.error .taskFailed))) caller (.done (.error .taskFailed)) past
      (s.trace ++ [⟨caller, .gaveUp⟩]) := by
  refine ⟨course.fresh, course.since_proceed .gaveUp, Passed.refl _, ?_, .inr fun _ _ _ _ _ _ failed => failed⟩
  intro fine post closed here whole
  have before := closed (course.idled.le.trans (List.prefix_append _ _)) here
  exact (course.yields closed before whole).panic course.idled ends here

end Course

theorem calls_proceed {caller : Caller O} {deed : Deed M R} {rest : Procedure M R (Except CoreError α)} {id : Nat}
    {call : Call M R O α} (here : (s.proceed caller deed rest).calls id = some call) :
    (id = caller.call ∧ call = ⟨caller, rest⟩) ∨ (id ≠ caller.call ∧ s.calls id = some call) := by
  by_cases own : id = caller.call
  · subst own
    exact .inl ⟨rfl, Option.some.inj (here.symm.trans (Function.update_self _ _ s.calls))⟩
  · exact .inr ⟨own, (Function.update_of_ne own _ s.calls).symm.trans here⟩

theorem known_of_reachable (reachable : s.Reachable program) {e : Event M R O} (member : e ∈ s.trace) :
    ∃ rest, s.calls e.caller.call = some ⟨e.caller, rest⟩ := by
  -- A call is known from its first step on, and whoever takes a step keeps its own name.
  induction reachable with
  | refl => cases member
  | tail _ step ih =>
    obtain ⟨caller, deed, rest, rfl, origin⟩ := step.proceeds
    rcases List.mem_append.mp member with early | last
    · obtain ⟨rest', there⟩ := ih early
      by_cases own : e.caller.call = caller.call
      · rw [own] at there
        rcases origin with new | ⟨_, action, next, running⟩
        · cases new.symm.trans there
        · cases running.symm.trans there
          exact ⟨rest, Function.update_self _ _ _⟩
      · exact ⟨rest', (Function.update_of_ne own _ _).trans there⟩
    · rw [List.mem_singleton.mp last]
      exact ⟨rest, Function.update_self _ _ _⟩

theorem fresh_of_uncalled (reachable : s.Reachable program) {caller : Caller O}
    (uncalled : s.calls caller.call = none) :
    ∀ e ∈ s.trace, e.caller.call ≠ caller.call := by
  intro e member mine
  obtain ⟨rest, here⟩ := known_of_reachable reachable member
  rw [mine, uncalled] at here
  cases here

theorem caller_eq_of_known (reachable : s.Reachable program) {caller : Caller O}
    {rest : Procedure M R (Except CoreError α)}
    (known : s.calls caller.call = some ⟨caller, rest⟩) {e : Event M R O} (member : e ∈ s.trace)
    (mine : e.caller.call = caller.call) : e.caller = caller := by
  obtain ⟨rest', here⟩ := known_of_reachable reachable member
  rw [mine, known] at here
  exact (congrArg Call.caller (Option.some.inj here)).symm

theorem fresh_of_called (reachable : s.Reachable program) {past after : Trace M R O} {caller : Caller O}
    (split : s.trace = past ++ ⟨caller, .called⟩ :: after) : ∀ e ∈ past, e.caller.call ≠ caller.call := by
  induction reachable generalizing after with
  | refl => simp [initial] at split
  | @tail s _ reachable step ih =>
    obtain ⟨other, deed, rest, rfl, origin⟩ := step.proceeds
    rcases List.eq_nil_or_concat' after with rfl | ⟨earlier, e, rfl⟩
    · obtain ⟨same, here⟩ := List.append_inj' split rfl
      cases here
      rcases origin with new | ⟨uncalled, _⟩
      · exact same ▸ fresh_of_uncalled reachable new
      · exact absurd rfl uncalled
    · rw [← List.cons_append, ← List.append_assoc] at split
      exact ih (List.append_inj' split rfl).1

theorem called_once (reachable : s.Reachable program) {past past' : Trace M R O} {caller : Caller O}
    (le : past ++ [⟨caller, .called⟩] <+: s.trace) (le' : past' ++ [⟨caller, .called⟩] <+: s.trace) : past = past' := by
  have fresh : ∀ {past}, past ++ [⟨caller, .called⟩] <+: s.trace → ⟨caller, .called⟩ ∉ past := by
    rintro past ⟨after, whole⟩ early
    exact fresh_of_called reachable (by rw [← whole, List.append_assoc]; rfl) _ early rfl
  have shorter : ∀ {past past'}, past ++ [⟨caller, .called⟩] <+: past' ++ [⟨caller, .called⟩] →
      past' ++ [⟨caller, .called⟩] <+: s.trace → past = past' := by
    intro past past' le by_
    rcases List.prefix_concat_iff.mp le with whole | short
    · exact (List.append_inj' whole rfl).1
    · exact absurd (short.subset (List.mem_append_right _ (List.mem_singleton_self _))) (fresh by_)
  -- Of two places where it was called, one is before the other, and would be a second call.
  rcases List.prefix_or_prefix_of_prefix le le' with first | second
  · exact shorter first le'
  · exact (shorter second le).symm

theorem kept_of_idle (idle : s.Idle) (steps : s.Steps program s') {id : Nat} {call : Call M R O α}
    (here : s.calls id = some call) :
    s'.calls id = some call := by
  obtain ⟨result, ended⟩ := idle id call here
  induction steps with
  | refl => exact here
  | tail _ step ih =>
    obtain ⟨caller, deed, rest, rfl, origin⟩ := step.proceeds
    refine (Function.update_of_ne ?_ _ _).trans ih
    rintro rfl
    rcases origin with new | ⟨_, action, next, running⟩
    · cases new.symm.trans ih
    · cases running.symm.trans ih
      cases ended

theorem uncalled_of_idle (idle : s.Idle) (steps : s.Steps program s') {more : Trace M R O}
    (split : s'.trace = s.trace ++ more) :
    ∀ e ∈ more, s.calls e.caller.call = none := by
  induction steps generalizing more with
  | refl =>
    rw [List.self_eq_append_right.mp split]
    exact fun e member => by cases member
  | @tail middle _ steps step ih =>
    obtain ⟨caller, deed, rest, rfl, origin⟩ := step.proceeds
    obtain ⟨between, whole⟩ := trace_le steps
    have split : middle.trace ++ [⟨caller, deed⟩] = s.trace ++ more := split
    rw [← whole, List.append_assoc] at split
    rw [← List.append_cancel_left split]
    intro e member
    rcases List.mem_append.mp member with early | last
    · exact ih whole.symm e early
    · rw [List.mem_singleton.mp last]
      -- A call that was there has ended, and so takes no step.
      refine Option.eq_none_iff_forall_ne_some.mpr fun call here => ?_
      have kept := kept_of_idle idle steps here
      obtain ⟨result, ended⟩ := idle _ _ here
      rcases origin with new | ⟨_, action, next, running⟩
      · cases new.symm.trans kept
      · cases running.symm.trans kept
        cases ended

theorem confined_of_reachable {allowed : O → Action M R → Prop}
    (confined : ∀ place operation, (program place operation).run.Confined (allowed operation) fun _ => True)
    (reachable : s.Reachable program) :
    (∀ e ∈ s.trace, ∀ action answer, e.deed = .acted action answer → allowed e.caller.operation action) ∧
      ∀ id call, s.calls id = some call → call.rest.Confined (allowed call.caller.operation) fun _ => True := by
  have proceeded : ∀ {s : System M R O α} {caller : Caller O} {deed : Deed M R}
      {rest : Procedure M R (Except CoreError α)},
      ((∀ e ∈ s.trace, ∀ action answer, e.deed = .acted action answer → allowed e.caller.operation action) ∧
        ∀ id call, s.calls id = some call → call.rest.Confined (allowed call.caller.operation) fun _ => True) →
      (∀ action answer, deed = .acted action answer → allowed caller.operation action) →
      rest.Confined (allowed caller.operation) (fun _ => True) →
      (∀ e ∈ (s.proceed caller deed rest).trace, ∀ action answer, e.deed = .acted action answer →
        allowed e.caller.operation action) ∧ ∀ id call, (s.proceed caller deed rest).calls id = some call →
        call.rest.Confined (allowed call.caller.operation) fun _ => True := by
    intro s caller deed rest ih own left
    refine ⟨fun e member => ?_, fun id call here => ?_⟩
    · rcases List.mem_append.mp member with member | member
      · exact ih.1 e member
      · rw [List.mem_singleton.mp member]
        exact own
    · rcases calls_proceed here with ⟨_, rfl⟩ | ⟨_, here⟩
      · exact left
      · exact ih.2 id call here
  induction reachable with
  | refl =>
    refine ⟨fun e member => ?_, fun id call here => ?_⟩
    · cases member
    · cases here
  | tail _ step ih =>
    cases step with
    | call caller => exact proceeded ih (fun _ _ same => by cases same) (confined caller.place caller.operation)
    | act caller action next answer deed running outcome =>
      have left := ih.2 _ _ running
      refine proceeded ih (fun action' answer' same => ?_) (left.2 answer)
      cases outcome with
      | acted =>
        cases same
        exact left.1
      | failed => cases same
    | panic => exact proceeded ih (fun _ _ same => by cases same) trivial

theorem ne_called_of_holds (reachable : s.Reachable program) {past : Trace M R O} {e : Event M R O}
    (le : past ++ [e] <+: s.trace) {place : Nat} {lock : Lock}
    (holds : (World.after past).holders place lock = some e.caller.call) : e.deed ≠ .called := by
  intro called
  obtain ⟨other, member, own, _⟩ := World.acted_of_holds holds
  obtain ⟨after, whole⟩ := le
  have split : s.trace = past ++ ⟨e.caller, .called⟩ :: after := by
    rw [← whole, ← called, List.append_assoc]
    rfl
  exact fresh_of_called reachable split other member own

theorem gives_of_free (reachable : s.Reachable program) {past : Trace M R O} {e : Event M R O}
    (le : past ++ [e] <+: s.trace)
    (guarded : ∀ action answer, e.deed = .acted action answer → action.Guarded (World.after past) e.caller)
    {place holder : Nat} {lock : Lock} (held : (World.after past).holders place lock = some holder)
    (free : (World.after (past ++ [e])).holders place lock = none) :
    e.caller.call = holder ∧ e.caller.place = place ∧ (e.deed = .gaveUp ∨ ∃ x answer,
      e.deed = .acted (.touch x) answer ∧ x.gives? = some lock) := by
  rw [World.after_concat] at free
  rcases World.frees_cases held free with ⟨gaveUp, mine⟩ | ⟨x, answer, here, acted, gives⟩
  · obtain ⟨e', member, own, here, _⟩ := World.acted_of_holds held
    obtain ⟨rest, known⟩ := known_of_reachable reachable
      (le.subset (List.mem_append_right _ (List.mem_singleton_self e)))
    have same := caller_eq_of_known reachable known (le.subset (List.mem_append_left _ member)) (own.trans mine.symm)
    exact ⟨mine, same ▸ here, .inl gaveUp⟩
  · have needs : x.needs? = some lock := by cases x <;> cases gives <;> rfl
    have mine : (World.after past).holders e.caller.place lock = some e.caller.call := guarded _ _ acted lock needs
    rw [here, held] at mine
    exact ⟨(Option.some.inj mine).symm, here, .inr ⟨x, answer, acted, gives⟩⟩

theorem course_of_reachable (reachable : s.Reachable program) {id : Nat} {call : Call M R O α}
    (here : s.calls id = some call) :
    ∃ past t, s.Course program call.caller call.rest past t := by
  induction reachable generalizing id call with
  | refl => cases here
  | @tail s s' reachable step ih =>
    have others : ∀ {caller : Caller O} {deed : Deed M R} {rest : Procedure M R (Except CoreError α)},
        (∃ past t, (s.proceed caller deed rest).Course program caller rest past t) →
        ∀ {id call}, (s.proceed caller deed rest).calls id = some call →
          ∃ past t, (s.proceed caller deed rest).Course program call.caller call.rest past t := by
      intro caller deed rest mine id call here
      rcases calls_proceed here with ⟨_, rfl⟩ | ⟨ne, here⟩
      · exact mine
      · obtain ⟨past, t, course⟩ := ih here
        have named := (called_of_reachable reachable here).1
        exact ⟨past, t, course.other (named ▸ ne) deed rest⟩
    -- Only the call that takes the step goes on. To all others it is a step of somebody else.
    cases step with
    | call caller new =>
      have fresh := fresh_of_uncalled reachable new
      exact others ⟨s.trace, _, fresh, List.prefix_refl _, Passed.refl _, fun _ _ whole => whole, .inl ⟨rfl, rfl⟩⟩ here
    | act caller action next answer deed running outcome fits =>
      obtain ⟨past, t, course⟩ := ih running
      exact others ⟨past, _, course.act outcome⟩ here
    | panic caller action next running ends =>
      obtain ⟨past, t, course⟩ := ih running
      exact others ⟨past, _, course.panic ends⟩ here

theorem yielded_of_reachable (fine : Trace M R O → Prop) (post : Except CoreError α → Trace M R O → Prop)
    (reachable : s.Reachable program) {caller : Caller O} {result : Except CoreError α}
    (returned : s.Returned caller result)
    (closed : ∀ {past t'}, past <+: t' → fine t' → fine past) (here : fine s.trace)
    (yields : ∀ past, (∀ e ∈ past, e.caller.call ≠ caller.call) → past ++ [⟨caller, .called⟩] <+: s.trace →
      (program caller.place caller.operation).run.Yields fine caller (post (.error .taskFailed)) post
        (past ++ [⟨caller, .called⟩])) :
    ∃ t, Idled caller t s.trace ∧ post result t := by
  obtain ⟨past, t, course⟩ := course_of_reachable reachable returned
  refine ⟨t, course.idled, ?_⟩
  exact course.yields closed (closed course.idled.le here)
    (yields past course.fresh (course.since.trans course.idled.le))

def call (program : Nat → O → Attempt M R α) (s : System M R O α) (caller : Caller O) : System M R O α :=
  s.proceed caller .called (program caller.place caller.operation).run

section Called

variable {s₀ : System M R O α} {caller : Caller O} (reachable : s₀.Reachable program)
    (uncalled : s₀.calls caller.call = none)
  (steps : (s₀.call program caller).Steps program s)

include reachable uncalled steps

theorem reachable_of_called : s.Reachable program := (reachable.tail (.call caller uncalled)).trans steps

theorem course_of_called : ∃ rest t, s.calls caller.call = some ⟨caller, rest⟩ ∧
    s.Course program caller rest s₀.trace t := by
  have since : s₀.trace ++ [⟨caller, .called⟩] <+: s.trace := trace_le steps
  obtain ⟨rest, here⟩ := known_of_reachable (reachable_of_called reachable uncalled steps)
    (since.subset (List.mem_append_right _ (List.mem_singleton_self _)))
  obtain ⟨past, t, course⟩ := course_of_reachable (reachable_of_called reachable uncalled steps) here
  have same : past = s₀.trace :=
    called_once (reachable_of_called reachable uncalled steps) (course.since.trans course.idled.le) since
  exact ⟨rest, t, here, same ▸ course⟩

theorem yielded_of_called (fine : Trace M R O → Prop) (post : Except CoreError α → Trace M R O → Prop)
    {result : Except CoreError α} (returned : s.Returned caller result)
    (closed : ∀ {past t'}, past <+: t' → fine t' → fine past)
    (here : fine s.trace)
    (yields : (program caller.place caller.operation).run.Yields fine caller (post (.error .taskFailed))
      post (s₀.trace ++ [⟨caller, .called⟩])) : ∃ t, Idled caller t s.trace ∧ post result t := by
  obtain ⟨rest, t, there, course⟩ := course_of_called reachable uncalled steps
  cases returned.symm.trans there
  exact ⟨t, course.idled, course.yields closed (closed course.idled.le here) yields⟩

end Called

variable (program) in
/-- A call that waits for no lock can take all its steps, with true answers, and has then ended. -/
theorem exists_returned {caller : Caller O} {rest : Procedure M R (Except CoreError α)}
    {holds : Except CoreError α → Prop}
    (proceeds : ∀ action, allowed action → action.Proceeds) (here : s.calls caller.call = some ⟨caller, rest⟩)
    (goes : rest.Confined allowed holds) : ∃ s' result, s.Steps program s' ∧ s'.Returned caller result ∧
      ∃ more, s'.trace = s.trace ++ more ∧ ∀ e ∈ more, e.caller = caller ∧ e.deed.Acts allowed := by
  -- On what is left of the program: each action has an answer that is true now, and the call takes just this step.
  induction rest generalizing s with
  | done result => exact ⟨s, result, .refl, here, [], by simp⟩
  | step action next ih =>
    have acts : ∀ answer : action.Answer, Event.Fits s.world ⟨caller, .acted action answer⟩ →
        ∃ s' result, s.Steps program s' ∧ s'.Returned caller result ∧
          ∃ more, s'.trace = s.trace ++ more ∧ ∀ e ∈ more, e.caller = caller ∧ e.deed.Acts allowed := by
      intro answer fits
      have step : s.Step program (s.proceed caller (.acted action answer) (next answer)) :=
        .act caller action next answer _ here (.acted action answer) fits
      obtain ⟨s', result, steps, returned, more, trace, own⟩ := ih answer
        (s := s.proceed caller _ _) (Function.update_self _ _ _) (goes.2 answer)
      refine ⟨s', result, .head step steps, returned, ⟨caller, .acted action answer⟩ :: more, ?_, ?_⟩
      · rw [trace]
        simp [proceed]
      · intro e member
        rcases List.mem_cons.mp member with rfl | member
        · exact ⟨rfl, goes.1⟩
        · exact own e member
    have free := proceeds action goes.1
    cases action with
    | ask segment request => exact acts _ rfl
    | touch t => exact acts (t.run (s.world.memories caller.place)).1 ⟨Touch.enabled_of_takes _ free, rfl⟩
    | generate | summarize => exact free.elim
    | abort =>
      have step : s.Step program (s.proceed caller .gaveUp (.done (.error .taskFailed))) :=
        .panic caller .abort next here trivial
      refine ⟨_, _, .single step, Function.update_self _ _ _, [⟨caller, .gaveUp⟩], rfl, ?_⟩
      intro e member
      rw [List.mem_singleton.mp member]
      exact ⟨rfl, trivial⟩

theorem exists_returned_of_free {s₀ : System M R O α} {caller : Caller O} (reachable : s₀.Reachable program)
    (uncalled : s₀.calls caller.call = none) (steps : (s₀.call program caller).Steps program s)
    (enters : Procedure.Enters allowed (program caller.place caller.operation).run)
    (proceeds : ∀ action, allowed action → action.Proceeds)
    (free : ∀ holder, s.world.holders caller.place .cache = some holder → holder = caller.call) :
    ∃ s' result, s.Steps program s' ∧ s'.Returned caller result ∧ ∃ more, s'.trace = s.trace ++ more ∧
      ∀ e ∈ more, e.caller = caller ∧ e.deed.Acts fun action => action = .touch .lockCache ∨ allowed action := by
  obtain ⟨rest, t, here, course⟩ := course_of_called reachable uncalled steps
  obtain ⟨next, begins, goes⟩ := enters
  -- Either it has done nothing yet, and is at the lock, or the lock is behind it.
  rcases course.begun with ⟨rfl, rfl⟩ | part
  · rw [begins] at here
    -- The one holder there may be is the call itself, which has not acted yet.
    have unheld : s.world.holders caller.place .cache = none := by
      cases held : s.world.holders caller.place .cache with
      | none => rfl
      | some holder =>
        obtain rfl := free holder held
        obtain ⟨e, member, mine, _, acted⟩ := World.acted_of_holds held
        obtain ⟨more, whole, idle⟩ := course.idled
        rw [whole] at member
        rcases List.mem_append.mp member with member | member
        · rcases List.mem_append.mp member with member | member
          · exact absurd mine (course.fresh e member)
          · rw [List.mem_singleton.mp member] at acted
            exact absurd rfl acted
        · exact (idle e member mine).elim
    have enabled : (s.world.memories caller.place).cacheLocked = false := by
      have flag : (s.world.memories caller.place).cacheLocked = (s.world.holders caller.place .cache).isSome :=
        (World.locked_after s.trace caller.place).1
      rw [flag, unheld]
      rfl
    have step : s.Step program (s.proceed caller (.acted (.touch .lockCache) ()) (next ())) :=
      .act caller (.touch .lockCache) next () _ here (.acted _ _) ⟨enabled, rfl⟩
    obtain ⟨s', result, steps', returned, more, trace, own⟩ := exists_returned program proceeds
      (s := s.proceed caller (.acted (.touch .lockCache) ()) (next ())) (Function.update_self _ _ _) goes
    refine ⟨s', result, .head step steps', returned, ⟨caller, .acted (.touch .lockCache) ()⟩ :: more, ?_, ?_⟩
    · rw [trace]
      simp [proceed]
    · intro e member
      rcases List.mem_cons.mp member with rfl | member
      · exact ⟨rfl, .inl rfl⟩
      · exact ⟨(own e member).1, (own e member).2.mono fun _ => .inr⟩
  · have all : ∀ answer : Unit, (next answer).Confined allowed fun _ => True := fun _ => goes
    have goes := part (.touch .lockCache) next allowed _ begins all trivial
    obtain ⟨s', result, steps', returned, more, trace, own⟩ := exists_returned program proceeds here goes
    exact ⟨s', result, steps', returned, more, trace,
      fun e member => ⟨(own e member).1, (own e member).2.mono fun _ => .inr⟩⟩

end System

end LogReplica
