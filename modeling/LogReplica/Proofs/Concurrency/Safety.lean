import LogReplica.Proofs.Concurrency.Trace

namespace LogReplica

variable {M : Model} {R O α β : Type}

/-- Every step that the procedure can make after `t` keeps the law, and where it is done `post`
holds. If its last step ends the call instead, `crash` holds. -/
def Procedure.Safe (law : Law M R O) (me : Caller O) (crash : Trace M R O → Prop)
    (post : α → Trace M R O → Prop) : Procedure M R α → Trace M R O → Prop
  | .done a, t => post a t
  | .step action next, t => ∀ past, Waited law me t past →
    action.Guarded (World.after past) me ∧ law past me action ∧
    (action.MayEnd → crash (past ++ [⟨me, .gaveUp⟩])) ∧
    ∀ answer deed, Outcome action answer deed → Lawful law (past ++ [⟨me, deed⟩]) →
      (next answer).Safe law me crash post (past ++ [⟨me, deed⟩])

def Attempt.Safe (law : Law M R O) (me : Caller O) (crash : Trace M R O → Prop) (ok : α → Trace M R O → Prop)
    (err : CoreError → Trace M R O → Prop) (x : Attempt M R α) (t : Trace M R O) : Prop :=
  Procedure.Safe law me crash (fun result => match result with | .ok a => ok a | .error cause => err cause) x.run t

variable {law : Law M R O} {me : Caller O} {crash : Trace M R O → Prop} {t : Trace M R O}

namespace Procedure.Safe

variable {post : α → Trace M R O → Prop} {p : Procedure M R α}

theorem mono {post' : α → Trace M R O → Prop} (safe : p.Safe law me crash post t)
    (le : ∀ a t', post a t' → post' a t') : p.Safe law me crash post' t := by
  induction p generalizing t with
  | done a => exact le a t safe
  | step action next ih =>
    intro past waited
    obtain ⟨guarded, may, ends, goes⟩ := safe past waited
    exact ⟨guarded, may, ends, fun answer deed outcome lawful => ih answer (goes answer deed outcome lawful)⟩

theorem bind {f : α → Procedure M R β} {post : β → Trace M R O → Prop}
    (safe : p.Safe law me crash (fun a => (f a).Safe law me crash post) t) :
    (p.bind f).Safe law me crash post t := by
  induction p generalizing t with
  | done a => exact safe
  | step action next ih =>
    intro past waited
    obtain ⟨guarded, may, ends, goes⟩ := safe past waited
    exact ⟨guarded, may, ends, fun answer deed outcome lawful => ih answer (goes answer deed outcome lawful)⟩

theorem touch {x : Touch M.State} {post : x.Answer → Trace M R O → Prop}
    (guarded : ∀ past, Waited law me t past → Action.Guarded (R := R) (World.after past) me (.touch x))
    (may : ∀ past, Waited law me t past → law past me (.touch x))
    (goes : ∀ answer past, Waited law me t past → x.Enabled ((World.after past).memories me.place) →
      answer = (x.run ((World.after past).memories me.place)).1 →
      Lawful law (past ++ [⟨me, .acted (.touch x) answer⟩]) → post answer (past ++ [⟨me, .acted (.touch x) answer⟩])) :
    (Procedure.touch x : Procedure M R x.Answer).Safe law me crash post t := by
  intro past waited
  refine ⟨guarded past waited, may past waited, False.elim, ?_⟩
  intro answer deed outcome lawful
  cases outcome
  obtain ⟨enabled, same⟩ := lawful.of_concat.2.1
  exact goes answer past waited enabled same lawful

theorem invoke {action : Action M R} (ends : action.MayEnd) {post : action.Answer → Trace M R O → Prop}
    (guarded : ∀ past, Waited law me t past → action.Guarded (World.after past) me)
    (may : ∀ past, Waited law me t past → law past me action)
    (crashes : ∀ past, Waited law me t past → crash (past ++ [⟨me, .gaveUp⟩]))
    (goes : ∀ answer past, Waited law me t past → Lawful law (past ++ [⟨me, .acted action answer⟩]) →
      post answer (past ++ [⟨me, .acted action answer⟩])) :
    (Procedure.perform action).Safe law me crash post t := by
  intro past waited
  refine ⟨guarded past waited, may past waited, fun _ => crashes past waited, ?_⟩
  intro answer deed outcome lawful
  cases outcome with
  | acted => exact goes answer past waited lawful
  | failed => exact ends.elim

theorem abort {post : α → Trace M R O → Prop} (may : ∀ past, Waited law me t past → law past me .abort)
    (crashes : ∀ past, Waited law me t past → crash (past ++ [⟨me, .gaveUp⟩])) :
    (Procedure.abort : Procedure M R α).Safe law me crash post t := by
  intro past waited
  exact ⟨trivial, may past waited, fun _ => crashes past waited, fun impossible => nomatch impossible⟩

end Procedure.Safe

namespace Attempt.Safe

variable {ok : α → Trace M R O → Prop} {err : CoreError → Trace M R O → Prop}

theorem pure {a : α} (done : ok a t) : (Pure.pure a : Attempt M R α).Safe law me crash ok err t := done

theorem throw {cause : CoreError} (failed : err cause t) :
    Attempt.Safe law me crash ok err (MonadExcept.throw cause) t := failed

theorem bind {x : Attempt M R β} {f : β → Attempt M R α}
    (safe : Attempt.Safe law me crash (fun b => Attempt.Safe law me crash ok err (f b)) err x t) :
    Attempt.Safe law me crash ok err (x >>= f) t := by
  refine Procedure.Safe.bind (Procedure.Safe.mono safe ?_)
  intro result t' promised
  cases result <;> exact promised

theorem lift {p : Procedure M R α} (safe : p.Safe law me crash ok t) :
    Attempt.Safe law me crash ok err (ExceptT.lift p) t := by
  refine Procedure.Safe.bind (Procedure.Safe.mono safe ?_)
  intro a t' promised
  exact promised

theorem run {x : Attempt M R α} {post : Except CoreError α → Trace M R O → Prop}
    (safe : Attempt.Safe law me crash (fun a => post (.ok a)) (fun cause => post (.error cause)) x t) :
    Procedure.Safe law me crash post x.run t := by
  refine Procedure.Safe.mono safe ?_
  intro result t' promised
  cases result <;> exact promised

theorem touch {x : Touch M.State} {ok : x.Answer → Trace M R O → Prop}
    (guarded : ∀ past, Waited law me t past → Action.Guarded (R := R) (World.after past) me (.touch x))
    (may : ∀ past, Waited law me t past → law past me (.touch x))
    (goes : ∀ answer past, Waited law me t past → x.Enabled ((World.after past).memories me.place) →
      answer = (x.run ((World.after past).memories me.place)).1 →
      Lawful law (past ++ [⟨me, .acted (.touch x) answer⟩]) → ok answer (past ++ [⟨me, .acted (.touch x) answer⟩])) :
    Attempt.Safe law me crash ok err (Attempt.touch x) t :=
  lift (Procedure.Safe.touch guarded may goes)

theorem abort (may : ∀ past, Waited law me t past → law past me .abort)
    (crashes : ∀ past, Waited law me t past → crash (past ++ [⟨me, .gaveUp⟩])) :
    Attempt.Safe law me crash ok err (Attempt.abort : Attempt M R α) t :=
  lift (Procedure.Safe.abort may crashes)

theorem ask {segment : SegmentId} {request : Request} {ok : request.Answer → Trace M R O → Prop}
    (may : ∀ past, Waited law me t past → law past me (.ask segment request))
    (served : ∀ answer past, Waited law me t past →
      Lawful law (past ++ [⟨me, .acted (.ask segment request) (.ok answer)⟩]) →
      ok answer (past ++ [⟨me, .acted (.ask segment request) (.ok answer)⟩]))
    (refused : ∀ cause deed past, Waited law me t past → Outcome (.ask segment request) (.error cause) deed →
      Lawful law (past ++ [⟨me, deed⟩]) → err (.ofSegment cause) (past ++ [⟨me, deed⟩])) :
    Attempt.Safe law me crash ok err (Attempt.ask segment request) t := by
  unfold Attempt.ask
  refine bind (lift ?_)
  intro past waited
  refine ⟨trivial, may past waited, False.elim, ?_⟩
  intro answer deed outcome lawful
  cases answer with
  | error cause => exact refused cause deed past waited outcome lawful
  | ok answer =>
    cases outcome
    exact served answer past waited lawful

end Attempt.Safe

/-- A system in which the law has been kept and will be, by every call with what it promises. -/
structure System.Secure (law : Law M R O) (post : Caller O → Except CoreError α → Trace M R O → Prop)
    (s : System M R O α) : Prop where
  lawful : Lawful law s.trace
  known : ∀ e ∈ s.trace, ∃ rest, s.calls e.caller.call = some ⟨e.caller, rest⟩
  safe : ∀ id call, s.calls id = some call → call.caller.call = id ∧
    ∃ t, Waited law call.caller t s.trace ∧
      call.rest.Safe law call.caller (post call.caller (.error .taskFailed)) (post call.caller) t

namespace System.Secure

variable {post : Caller O → Except CoreError α → Trace M R O → Prop} {s s' : System M R O α}

theorem initial : (System.initial : System M R O α).Secure law post := by
  refine ⟨.nil, ?_, ?_⟩
  · intro e member
    cases member
  · intro id call here
    cases here

theorem proceed (secure : s.Secure law post) {caller : Caller O} {deed : Deed M R}
    {rest : Procedure M R (Except CoreError α)} (lawful : Lawful law (s.trace ++ [⟨caller, deed⟩]))
    (same : ∀ call, s.calls caller.call = some call → call.caller = caller)
    (safe : rest.Safe law caller (post caller (.error .taskFailed)) (post caller) (s.trace ++ [⟨caller, deed⟩])) :
    (s.proceed caller deed rest).Secure law post := by
  refine ⟨lawful, ?_, ?_⟩
  · intro e member
    by_cases mine : e.caller.call = caller.call
    · have known : e.caller = caller := by
        rcases List.mem_append.mp member with member | member
        · obtain ⟨rest, here⟩ := secure.known e member
          exact same ⟨e.caller, rest⟩ (mine ▸ here)
        · rw [List.mem_singleton.mp member]
      refine ⟨rest, ?_⟩
      rw [known]
      exact Function.update_self _ _ _
    · rcases List.mem_append.mp member with member | member
      · obtain ⟨others, here⟩ := secure.known e member
        exact ⟨others, (Function.update_of_ne mine _ _).trans here⟩
      · rw [List.mem_singleton.mp member] at mine
        exact absurd rfl mine
  · intro id call here
    by_cases mine : id = caller.call
    · subst mine
      have here := (Function.update_self _ _ s.calls).symm.trans here
      cases here
      exact ⟨rfl, _, Went.refl lawful, safe⟩
    · have here := (Function.update_of_ne mine _ s.calls).symm.trans here
      obtain ⟨named, t, waited, safe⟩ := secure.safe id call here
      refine ⟨named, t, waited.trans ⟨⟨_, rfl, ?_⟩, lawful⟩, safe⟩
      intro e member own
      rw [List.mem_singleton.mp member] at own
      exact mine (named.symm.trans own.symm)

theorem step {program : Nat → O → Attempt M R α}
    (programs : ∀ caller t, Lawful law (t ++ [⟨caller, .called⟩]) → (∀ e ∈ t, e.caller.call ≠ caller.call) →
      (program caller.place caller.operation).run.Safe law caller (post caller (.error .taskFailed)) (post caller)
        (t ++ [⟨caller, .called⟩]))
    (secure : s.Secure law post) (step : s.Step program s') : s'.Secure law post := by
  cases step with
  | call caller new =>
    have lawful : Lawful law (s.trace ++ [⟨caller, .called⟩]) := .concat secure.lawful trivial trivial
    refine secure.proceed lawful (fun call here => by rw [new] at here; cases here) ?_
    refine programs caller s.trace lawful ?_
    intro e member mine
    obtain ⟨rest, here⟩ := secure.known e member
    rw [mine, new] at here
    cases here
  | act caller action next answer deed running outcome fits =>
    obtain ⟨_, t, waited, safe⟩ := secure.safe _ _ running
    obtain ⟨guarded, may, _, goes⟩ := safe s.trace waited
    have obeys : Event.Obeys law s.trace ⟨caller, deed⟩ := by
      cases outcome with
      | acted => exact ⟨guarded, may⟩
      | failed => trivial
    have lawful := Lawful.concat secure.lawful fits obeys
    exact secure.proceed lawful (fun call here => by rw [running] at here; cases here; rfl)
      (goes answer deed outcome lawful)
  | panic caller action next running ends =>
    obtain ⟨_, t, waited, safe⟩ := secure.safe _ _ running
    obtain ⟨_, _, crashes, _⟩ := safe s.trace waited
    exact secure.proceed (.concat secure.lawful trivial trivial)
      (fun call here => by rw [running] at here; cases here; rfl) (crashes ends)

theorem steps {program : Nat → O → Attempt M R α}
    (programs : ∀ caller t, Lawful law (t ++ [⟨caller, .called⟩]) → (∀ e ∈ t, e.caller.call ≠ caller.call) →
      (program caller.place caller.operation).run.Safe law caller (post caller (.error .taskFailed)) (post caller)
        (t ++ [⟨caller, .called⟩]))
    (secure : s.Secure law post) (steps : s.Steps program s') : s'.Secure law post := by
  induction steps with
  | refl => exact secure
  | tail _ one ih => exact ih.step programs one

theorem returned (secure : s.Secure law post) {caller : Caller O} {result : Except CoreError α}
    (returned : s.Returned caller result) : ∃ t, Waited law caller t s.trace ∧ post caller result t :=
  (secure.safe _ _ returned).2

end System.Secure

namespace System

variable {program : Nat → O → Attempt M R α} {s s' : System M R O α}

theorem called_of_reachable (reachable : s.Reachable program) {id : Nat} {call : Call M R O α}
    (here : s.calls id = some call) : call.caller.call = id ∧ ⟨call.caller, .called⟩ ∈ s.trace := by
  have proceeded : ∀ {s : System M R O α} {caller : Caller O} {deed : Deed M R}
    {rest : Procedure M R (Except CoreError α)},
      (∀ id call, s.calls id = some call → call.caller.call = id ∧ ⟨call.caller, .called⟩ ∈ s.trace) →
      ⟨caller, .called⟩ ∈ s.trace ++ [⟨caller, deed⟩] → ∀ id call, (s.proceed caller deed rest).calls id = some call →
      call.caller.call = id ∧ ⟨call.caller, .called⟩ ∈ (s.proceed caller deed rest).trace := by
    intro s caller deed rest ih known id call here
    by_cases mine : id = caller.call
    · subst mine
      have here := (Function.update_self _ _ s.calls).symm.trans here
      cases here
      exact ⟨rfl, known⟩
    · have here := (Function.update_of_ne mine _ s.calls).symm.trans here
      exact ⟨(ih id call here).1, List.mem_append_left _ (ih id call here).2⟩
  induction reachable generalizing id call with
  | refl => cases here
  | tail steps step ih =>
    have ih := fun id call => @ih id call
    cases step with
    | call caller new => exact proceeded ih (List.mem_append_right _ (List.mem_singleton_self _)) id call here
    | act caller action next answer deed running outcome fits =>
      exact proceeded ih (List.mem_append_left _ (ih _ _ running).2) id call here
    | panic caller action next running ends =>
      exact proceeded ih (List.mem_append_left _ (ih _ _ running).2) id call here

theorem forall_calls (reachable : s.Reachable program) (p : Call M R O α → Bool)
    (checked : (s.trace.all fun e => (s.calls e.caller.call).all p) = true) {id : Nat} {call : Call M R O α}
    (here : s.calls id = some call) : p call = true := by
  obtain ⟨rfl, member⟩ := called_of_reachable reachable here
  have checked := List.all_eq_true.mp checked _ member
  rw [here] at checked
  exact checked

theorem returned_of_any (reachable : s.Reachable program) {caller : Caller O} {result : Except CoreError α}
    (check : Call M R O α → Bool)
    (faithful : ∀ call, check call = true → call.caller.place = caller.place ∧
      call.caller.operation = caller.operation ∧
      call.rest = .done result) (checked : (s.calls caller.call).any check = true) : s.Returned caller result := by
  obtain ⟨⟨⟨id, place, operation⟩, rest⟩, here, checked⟩ := (Option.any_eq_true _ _).mp checked
  obtain ⟨rfl, rfl, rfl⟩ := faithful _ checked
  obtain rfl : id = caller.call := (called_of_reachable reachable here).1
  exact here

end System

end LogReplica
