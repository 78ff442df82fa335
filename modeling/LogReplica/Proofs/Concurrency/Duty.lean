import LogReplica.Proofs.Concurrency.Path

namespace LogReplica

variable {M : Model} {R O α β : Type} {fine : Trace M R O → Prop} {duty : Law M R O} {me : Caller O}
  {t t' : Trace M R O}

/-- Each action that the procedure comes to after `t` does its duty, as long as all that has happened is fine. -/
def Procedure.Minds (fine : Trace M R O → Prop) (duty : Law M R O) (me : Caller O) :
    Procedure M R α → Trace M R O → Prop
  | .done _, _ => True
  | .step action next, t => ∀ past, Idled me t past → (fine past → duty past me action) ∧
    ∀ answer deed, Outcome action answer deed → (next answer).Minds fine duty me (past ++ [⟨me, deed⟩])

abbrev Attempt.Minds (fine : Trace M R O → Prop) (duty : Law M R O) (me : Caller O) (x : Attempt M R α)
    (t : Trace M R O) : Prop := Procedure.Minds fine duty me x.run t

namespace Procedure

variable {p : Procedure M R α} {f : α → Procedure M R β}

theorem Minds.bind (first : p.Minds fine duty me t)
    (rest : ∀ a t', p.Leads me t a t' → (f a).Minds fine duty me t') : (p.bind f).Minds fine duty me t := by
  induction p generalizing t with
  | done a => exact rest a t (.done a t)
  | step action next ih =>
    intro past idled
    obtain ⟨owed, goes⟩ := first past idled
    refine ⟨owed, fun answer deed outcome => ?_⟩
    exact ih answer (goes answer deed outcome) fun a t' leads => rest a t' (.step idled outcome leads)

theorem Minds.of_fine (closed : ∀ {past t'}, past <+: t' → fine t' → fine past)
    (minds : fine t → p.Minds fine duty me t) : p.Minds fine duty me t := by
  by_cases here : fine t
  · exact minds here
  · clear minds
    induction p generalizing t with
    | done a => trivial
    | step action next ih =>
      intro past idled
      have never : ¬fine past := fun later => here (closed idled.le later)
      refine ⟨fun later => absurd later never, fun answer deed outcome => ih answer fun later => ?_⟩
      exact never (closed (List.prefix_append _ _) later)

theorem Minds.of_passed {allowed : Action M R → Prop} {holds : α → Prop} (confined : p.Confined allowed holds)
    (owed : ∀ past action, Passed me (Deed.Within allowed) t past → fine past → allowed action → duty past me action) :
    p.Minds fine duty me t := by
  induction p generalizing t with
  | done a => trivial
  | step action next ih =>
    intro past idled
    refine ⟨fun here => owed past action idled.of_idled here confined.1, fun answer deed outcome => ?_⟩
    exact ih answer (confined.2 answer) fun past' action' passed =>
      owed past' action' ((idled.step (outcome.within confined.1)).trans passed)

theorem Minds.of_confined {allowed : Action M R → Prop} {holds : α → Prop} (confined : p.Confined allowed holds)
    (free : ∀ past action, allowed action → duty past me action) : p.Minds fine duty me t :=
  .of_passed confined fun past action _ _ => free past action

theorem Leads.passed {a : α} {allowed : Action M R → Prop} {holds : α → Prop} (leads : p.Leads me t a t')
    (confined : p.Confined allowed holds) : Passed me (Deed.Within allowed) t t' := by
  induction leads with
  | done => exact Passed.refl _
  | step idled outcome rest ih => exact (idled.step (outcome.within confined.1)).trans (ih (confined.2 _))

end Procedure

namespace Attempt.Minds

theorem bind {x : Attempt M R β} {f : β → Attempt M R α} (first : Attempt.Minds fine duty me x t)
    (rest : ∀ b t', Procedure.Leads me x.run t (.ok b) t' → Attempt.Minds fine duty me (f b) t') :
    Attempt.Minds fine duty me (x >>= f) t := by
  refine Procedure.Minds.bind first fun result t' leads => ?_
  cases result with
  | ok b => exact rest b t' leads
  | error cause => trivial

theorem lift {p : Procedure M R α} (minds : p.Minds fine duty me t) : Attempt.Minds fine duty me (ExceptT.lift p) t :=
  Procedure.Minds.bind minds fun _ _ _ => trivial

theorem bind_lift {p : Procedure M R β} {f : β → Attempt M R α} (first : p.Minds fine duty me t)
    (rest : ∀ b t', p.Leads me t b t' → Attempt.Minds fine duty me (f b) t') :
    Attempt.Minds fine duty me (ExceptT.lift p >>= f) t := by
  show Procedure.Minds fine duty me ((p.bind fun b => Procedure.done (Except.ok b)).bind _) t
  rw [Procedure.bind_assoc]
  exact Procedure.Minds.bind first rest

theorem touch {x : Touch M.State} (owed : ∀ past, Idled me t past → fine past → duty past me (.touch x)) :
    Attempt.Minds fine duty me (Attempt.touch x) t :=
  lift fun past idled => ⟨owed past idled, fun _ _ _ => trivial⟩

theorem touch_bind {x : Touch M.State} {f : x.Answer → Attempt M R α}
    (owed : ∀ past, Idled me t past → fine past → duty past me (.touch x))
    (rest : ∀ past answer, Idled me t past →
      Attempt.Minds fine duty me (f answer) (past ++ [⟨me, .acted (.touch x) answer⟩])) :
    Attempt.Minds fine duty me (Attempt.touch x >>= f) t := by
  refine bind (touch owed) fun answer t₁ touched => ?_
  obtain ⟨past, answer', idled, rfl, same⟩ := Attempt.leads_touch touched
  cases same
  exact rest past answer idled

theorem ask {segment : SegmentId} {request : Request}
    (owed : ∀ past, Idled me t past → fine past → duty past me (.ask segment request)) :
    Attempt.Minds fine duty me (Attempt.ask segment request) t :=
  bind (lift fun past idled => ⟨owed past idled, fun _ _ _ => trivial⟩) fun reply _ _ => by cases reply <;> trivial

theorem locked {body : Attempt M R α} (takes : ∀ past, duty past me (.touch .lockCache))
    (gives : ∀ past, duty past me (.touch .unlockCache))
    (inside : ∀ past, Idled me t past →
      Attempt.Minds fine duty me body (past ++ [⟨me, .acted (.touch .lockCache) ()⟩])) :
    Attempt.Minds fine duty me (Attempt.locked body) t := by
  unfold Attempt.locked
  refine Procedure.Minds.bind (fun past _ => ⟨fun _ => takes past, fun _ _ _ => trivial⟩) fun _ t₁ enters => ?_
  cases enters with
  | step idled outcome rest =>
    cases rest
    cases outcome
    refine Procedure.Minds.bind (inside _ idled) fun result t₂ _ => ?_
    exact Procedure.Minds.bind (fun past _ => ⟨fun _ => gives past, fun _ _ _ => trivial⟩) fun _ _ _ => trivial

end Attempt.Minds

/-- The action that a deed was the outcome of. -/
inductive Deed.Of : Deed M R → Action M R → Prop
  | acted {action : Action M R} (answer : action.Answer) : Of (.acted action answer) action
  | failed {segment : SegmentId} {request : Request} (cause : SegmentError) :
    Of (.failed segment request cause) (.ask segment request)
  | gaveUp {action : Action M R} (ends : action.MayEnd) : Of .gaveUp action

theorem Outcome.of {action : Action M R} {answer : action.Answer} {deed : Deed M R}
    (outcome : Outcome action answer deed) : deed.Of action := by
  cases outcome with
  | acted => exact .acted answer
  | failed segment request cause => exact .failed cause

namespace System

variable {program : Nat → O → Attempt M R α} {s s' : System M R O α}

variable (fine duty) in
structure Minded (s : System M R O α) : Prop where
  done : ∀ past e, past ++ [e] <+: s.trace → e.deed ≠ .called → fine past →
    ∃ action, e.deed.Of action ∧ duty past e.caller action
  left : ∀ id call, s.calls id = some call →
    ∃ t, Idled call.caller t s.trace ∧ call.rest.Minds fine duty call.caller t

theorem Minded.owed (minded : s.Minded fine duty) {past : Trace M R O} {e : Event M R O} (le : past ++ [e] <+: s.trace)
    {action : Action M R} {answer : action.Answer} (acted : e.deed = .acted action answer) (here : fine past) :
    duty past e.caller action := by
  obtain ⟨action', of, owed⟩ := minded.done past e le (by simp [acted]) here
  rw [acted] at of
  cases of
  exact owed

theorem Minded.proceed (minded : s.Minded fine duty)
    (named : ∀ id call, s.calls id = some call → call.caller.call = id)
    {caller : Caller O} {deed : Deed M R} {rest : Procedure M R (Except CoreError α)}
    (owed : deed ≠ .called → fine s.trace → ∃ action, deed.Of action ∧ duty s.trace caller action)
    (minds : rest.Minds fine duty caller (s.trace ++ [⟨caller, deed⟩])) :
    (s.proceed caller deed rest).Minded fine duty := by
  refine ⟨fun past e le new here => ?_, fun id call here => ?_⟩
  · rcases List.prefix_concat_iff.mp le with last | early
    · obtain ⟨rfl, same⟩ := List.append_inj' last rfl
      cases same
      exact owed new here
    · exact minded.done past e early new here
  · rcases calls_proceed here with ⟨_, rfl⟩ | ⟨ne, here⟩
    · exact ⟨_, Passed.refl _, minds⟩
    · obtain ⟨t, idled, minds⟩ := minded.left id call here
      refine ⟨t, idled.trans ⟨_, rfl, fun e member mine => ?_⟩, minds⟩
      rw [List.mem_singleton.mp member, named id call here] at mine
      exact ne mine.symm

theorem minded_of_reachable (programs : ∀ (caller : Caller O) past, (∀ e ∈ past, e.caller.call ≠ caller.call) →
      (program caller.place caller.operation).Minds fine duty caller (past ++ [⟨caller, .called⟩]))
    (reachable : s.Reachable program) : s.Minded fine duty := by
  induction reachable with
  | refl =>
    refine ⟨fun past e le => ?_, fun id call here => by cases here⟩
    simp [initial] at le
  | @tail before after reachable step ih =>
    have named : ∀ id call, before.calls id = some call → call.caller.call = id := fun id call here =>
      (called_of_reachable reachable here).1
    cases step with
    | call caller new =>
      exact ih.proceed named (fun new => absurd rfl new) (programs caller _ (fresh_of_uncalled reachable new))
    | act caller action next answer deed running outcome fits =>
      obtain ⟨t, idled, minds⟩ := ih.left _ _ running
      obtain ⟨owed, goes⟩ := minds _ idled
      exact ih.proceed named (fun _ here => ⟨action, outcome.of, owed here⟩) (goes answer deed outcome)
    | panic caller action next running ends =>
      obtain ⟨t, idled, minds⟩ := ih.left _ _ running
      exact ih.proceed named (fun _ here => ⟨action, .gaveUp ends, (minds _ idled).1 here⟩) trivial

end System

end LogReplica
