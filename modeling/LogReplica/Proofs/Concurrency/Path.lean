import LogReplica.Proofs.Concurrency.Course

namespace LogReplica

variable {M : Model} {R O α β : Type} {me : Caller O} {t t' : Trace M R O}

/-- From `t` to `t'` the deeds of a call are those of a procedure, which has come to a result by the last one. -/
inductive Procedure.Leads (me : Caller O) : Procedure M R α → Trace M R O → α → Trace M R O → Prop
  | done (a : α) (t : Trace M R O) : Leads me (.done a) t a t
  | step {action : Action M R} {next : action.Answer → Procedure M R α} {answer : action.Answer} {deed : Deed M R}
    {t past t' : Trace M R O} {a : α} (idled : Idled me t past) (outcome : Outcome action answer deed)
    (rest : Leads me (next answer) (past ++ [⟨me, deed⟩]) a t') : Leads me (.step action next) t a t'

namespace Procedure.Leads

variable {p : Procedure M R α} {a : α}

theorem le (leads : p.Leads me t a t') : t <+: t' := by
  induction leads with
  | done => exact List.prefix_refl _
  | step idled outcome rest ih => exact idled.le.trans ((List.prefix_append _ _).trans ih)

theorem of_bind {f : α → Procedure M R β} {b : β} (leads : (p.bind f).Leads me t b t') :
    ∃ a t₁, p.Leads me t a t₁ ∧ (f a).Leads me t₁ b t' := by
  induction p generalizing t with
  | done a => exact ⟨a, t, .done a t, leads⟩
  | step action next ih =>
    cases leads with
    | step idled outcome rest =>
      obtain ⟨a, t₁, first, second⟩ := ih _ rest
      exact ⟨a, t₁, .step idled outcome first, second⟩

theorem yielded {fine : Trace M R O → Prop} {crash : Trace M R O → Prop} {post : α → Trace M R O → Prop}
    (leads : p.Leads me t a t') (closed : ∀ {past t'}, past <+: t' → fine t' → fine past) (here : fine t')
    (yields : p.Yields fine me crash post t) : post a t' := by
  induction leads with
  | done => exact yields
  | step idled outcome rest ih => exact ih here (yields.act idled outcome (closed rest.le here))

theorem promised {law : Law M R O} {crash : Trace M R O → Prop} {post : α → Trace M R O → Prop}
    (leads : p.Leads me t a t') (lawful : Lawful law t') (safe : p.Safe law me crash post t) : post a t' :=
  leads.yielded (fun le lawful => lawful.of_le le) lawful (Procedure.Yields.of_safe safe)

theorem yields {fine : Trace M R O → Prop} (p : Procedure M R α) (t : Trace M R O) :
    p.Yields fine me (fun _ => True) (fun a t' => p.Leads me t a t') t := by
  induction p generalizing t with
  | done a => exact .done a t
  | step action next ih =>
    intro past idled
    refine ⟨fun _ _ => trivial, fun answer deed outcome _ => ?_⟩
    exact (ih answer _).mono fun a t' rest => .step idled outcome rest

end Procedure.Leads

namespace Attempt

variable {x : Attempt M R β} {f : β → Attempt M R α} {result : Except CoreError α}

theorem leads_bind (leads : Procedure.Leads me (x >>= f).run t result t') :
    (∃ b t₁, Procedure.Leads me x.run t (.ok b) t₁ ∧ Procedure.Leads me (f b).run t₁ result t') ∨
      ∃ cause, Procedure.Leads me x.run t (.error cause) t' ∧ result = .error cause := by
  obtain ⟨answer, t₁, first, second⟩ := Procedure.Leads.of_bind leads
  cases answer with
  | ok b => exact .inl ⟨b, t₁, first, second⟩
  | error cause =>
    cases second
    exact .inr ⟨cause, first, rfl⟩

theorem promised {law : Law M R O} (ok : α → Trace M R O → Prop) {y : Attempt M R α} {a : α}
    (leads : Procedure.Leads me y.run t (.ok a) t') (lawful : Lawful law t')
    (safe : Attempt.Safe law me (fun _ => True) ok (fun _ _ => True) y t) : ok a t' := by
  let post (result : Except CoreError α) (t' : Trace M R O) : Prop := ∀ a, result = .ok a → ok a t'
  have safe : Procedure.Safe law me (fun _ => True) post y.run t := by
    refine Procedure.Safe.mono safe ?_
    rintro _ t' promised a rfl
    exact promised
  exact Procedure.Leads.promised leads lawful safe a rfl

theorem leads_lift {p : Procedure M R β} {result : Except CoreError β}
    (leads : Procedure.Leads me (ExceptT.lift p).run t result t') : ∃ b, p.Leads me t b t' ∧ result = .ok b := by
  obtain ⟨b, t₁, through, rest⟩ := Procedure.Leads.of_bind leads
  cases rest
  exact ⟨b, through, rfl⟩

theorem leads_ask_cases {segment : SegmentId} {request : Request} {result : Except CoreError request.Answer}
    (leads : Procedure.Leads me (Attempt.ask segment request).run t result t') :
    ∃ past reply deed, Idled me t past ∧ Outcome (.ask segment request) reply deed ∧ t' = past ++ [⟨me, deed⟩] ∧
      result = reply.mapError .ofSegment := by
  obtain ⟨answer, t₁, asked, rest⟩ := Procedure.Leads.of_bind leads
  obtain ⟨reply, asked, rfl⟩ := leads_lift asked
  cases asked with
  | step idled outcome ended =>
    cases ended
    refine ⟨_, reply, _, idled, outcome, ?_⟩
    cases reply <;> cases rest <;> exact ⟨rfl, rfl⟩

theorem leads_ask {segment : SegmentId} {request : Request} {answer : request.Answer}
    (leads : Procedure.Leads me (Attempt.ask segment request).run t (.ok answer) t') :
    ∃ past, Idled me t past ∧ t' = past ++ [⟨me, .acted (.ask segment request) (.ok answer)⟩] := by
  obtain ⟨past, reply, deed, idled, outcome, rfl, same⟩ := leads_ask_cases leads
  cases reply with
  | error cause => cases same
  | ok answer' =>
    cases same
    cases outcome
    exact ⟨past, idled, rfl⟩

theorem not_leads_abort : ¬Procedure.Leads me (Attempt.abort : Attempt M R α).run t result t' := by
  intro leads
  obtain ⟨a, _, gives, _⟩ := Procedure.Leads.of_bind leads
  cases gives with
  | @step _ _ answer => exact nomatch answer

theorem leads_touch {x : Touch M.State} {result : Except CoreError x.Answer}
    (leads : Procedure.Leads me (Attempt.touch x : Attempt M R _).run t result t') : ∃ past answer,
      Idled me t past ∧ t' = past ++ [⟨me, .acted (.touch x) answer⟩] ∧ result = .ok answer := by
  obtain ⟨answer, touched, rfl⟩ := leads_lift leads
  cases touched with
  | step idled outcome ended =>
    cases ended
    cases outcome
    exact ⟨_, answer, idled, rfl, rfl⟩

theorem leads_touch_bind {x : Touch M.State} {f : x.Answer → Attempt M R α}
    (leads : Procedure.Leads me (Attempt.touch x >>= f).run t result t') : ∃ past answer, Idled me t past ∧
      Procedure.Leads me (f answer).run (past ++ [⟨me, .acted (.touch x) answer⟩]) result t' := by
  rcases leads_bind leads with ⟨answer, t₁, touched, rest⟩ | ⟨cause, touched, _⟩
  · obtain ⟨past, answer', idled, rfl, same⟩ := leads_touch touched
    cases same
    exact ⟨past, answer, idled, rest⟩
  · obtain ⟨_, _, _, _, other⟩ := leads_touch touched
    cases other

theorem leads_lift_bind {p : Procedure M R β} (leads : Procedure.Leads me (ExceptT.lift p >>= f).run t result t') :
    ∃ b t₁, p.Leads me t b t₁ ∧ Procedure.Leads me (f b).run t₁ result t' := by
  rcases leads_bind leads with ⟨b, t₁, lifted, rest⟩ | ⟨cause, lifted, _⟩
  · obtain ⟨b', through, same⟩ := leads_lift lifted
    cases same
    exact ⟨b, t₁, through, rest⟩
  · obtain ⟨_, _, other⟩ := leads_lift lifted
    cases other

theorem leads_section {body : Attempt M R α} (leads : Procedure.Leads me (Attempt.locked body).run t result t') :
    ∃ entered t₁ left, Idled me t entered ∧
      Procedure.Leads me body.run (entered ++ [⟨me, .acted (.touch .lockCache) ()⟩]) result t₁ ∧
      Idled me t₁ left ∧ t' = left ++ [⟨me, .acted (.touch .unlockCache) ()⟩] := by
  obtain ⟨_, t₀, enters, rest⟩ := Procedure.Leads.of_bind leads
  obtain ⟨answer, t₁, inside, leaves⟩ := Procedure.Leads.of_bind rest
  obtain ⟨_, _, gives, kept⟩ := Procedure.Leads.of_bind leaves
  cases kept
  cases enters with
  | step idled outcome ended =>
    cases ended
    cases outcome
    cases gives with
    | step idled' outcome' ended' =>
      cases ended'
      cases outcome'
      exact ⟨_, t₁, _, idled, inside, idled', rfl⟩

theorem leads_locked {body : Attempt M R α} (leads : Procedure.Leads me (Attempt.locked body).run t result t') :
    ∃ t₀ t₁, Passed me (Deed.Within fun action => action = .touch .lockCache) t t₀ ∧
      Passed me (Deed.Within fun action => action = .touch .unlockCache) t₁ t' ∧
      (World.after t₀).holders me.place .cache = some me.call ∧ Procedure.Leads me body.run t₀ result t₁ := by
  obtain ⟨entered, t₁, left, idled, inside, idled', rfl⟩ := leads_section leads
  refine ⟨_, t₁, idled.of_idled.concat ?_, idled'.of_idled.concat ?_, World.holders_locked entered me (), inside⟩
    <;> rfl

end Attempt

namespace System

variable {program : Nat → O → Attempt M R α} {s : System M R O α}

theorem leads_of_returned (reachable : s.Reachable program) {caller : Caller O} {result : Except CoreError α}
    (returned : s.Returned caller result) (own : result ≠ .error .taskFailed) :
    ∃ past t, (∀ e ∈ past, e.caller.call ≠ caller.call) ∧ past ++ [⟨caller, .called⟩] <+: t ∧ Idled caller t s.trace ∧
      (program caller.place caller.operation).run.Leads caller (past ++ [⟨caller, .called⟩]) result t := by
  obtain ⟨past, t, course⟩ := course_of_reachable reachable returned
  refine ⟨past, t, course.fresh, course.since, course.idled, ?_⟩
  let post (answer : Except CoreError α) (t' : Trace M R O) : Prop := answer ≠ .error .taskFailed →
    (program caller.place caller.operation).run.Leads caller (past ++ [⟨caller, .called⟩]) answer t'
  have whole : (program caller.place caller.operation).run.Yields (fun _ => True) caller (fun _ => True) post
      (past ++ [⟨caller, .called⟩]) := (Procedure.Leads.yields _ _).mono fun _ _ leads _ => leads
  have ended : post result t :=
    course.yields (fun _ _ => trivial) trivial (whole.ends fun _ _ other => absurd rfl other)
  exact ended own

end System

end LogReplica
