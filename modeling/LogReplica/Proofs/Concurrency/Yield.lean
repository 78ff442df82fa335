import LogReplica.Proofs.Concurrency.Safety

namespace LogReplica

variable {M : Model} {R O α β : Type}

/-- From `t` to `t'` a call has done only what is allowed, among whatever others did. -/
def Passed (me : Caller O) (allowed : Deed M R → Prop) (t t' : Trace M R O) : Prop :=
  ∃ more, t' = t ++ more ∧ ∀ e ∈ more, e.caller.call = me.call → allowed e.deed

abbrev Idled (me : Caller O) : (t t' : Trace M R O) → Prop := Passed me fun _ => False

def Trace.own (me : Caller O) (f : Deed M R → Option β) (t : Trace M R O) : List β :=
  t.filterMap fun e => if e.caller.call = me.call then f e.deed else none

theorem Trace.own_concat (me : Caller O) (f : Deed M R → Option β) (t : Trace M R O) (deed : Deed M R) :
    Trace.own me f (t ++ [⟨me, deed⟩]) = t.own me f ++ (f deed).toList := by
  rw [own, own, List.filterMap_append]
  cases made : f deed <;> simp [made]

theorem Trace.own_of_fresh {me : Caller O} {t : Trace M R O} (fresh : ∀ e ∈ t, e.caller.call ≠ me.call)
    (f : Deed M R → Option β) : t.own me f = [] :=
  List.filterMap_eq_nil_iff.mpr fun e member => if_neg (fresh e member)

/-- What the deeds of some callers make of a value, in their order. -/
def Trace.gather (who : Caller O → Prop) [DecidablePred who] (step : β → Deed M R → β) (start : β) (t : Trace M R O) :
    β :=
  (t.filter fun e => who e.caller).foldl (fun b e => step b e.deed) start

section Gather

variable {who : Caller O → Prop} [DecidablePred who] {step : β → Deed M R → β} {start : β} {t : Trace M R O}
  {e : Event M R O}

theorem Trace.gather_concat (among : who e.caller) :
    Trace.gather who step start (t ++ [e]) = step (t.gather who step start) e.deed := by
  simp [gather, among]

theorem Trace.gather_of_other (other : ¬who e.caller) :
    Trace.gather who step start (t ++ [e]) = t.gather who step start := by
  simp [gather, other]

end Gather

namespace Passed

variable {me : Caller O} {allowed wider : Deed M R → Prop} {t t' t'' : Trace M R O}

theorem refl (t : Trace M R O) : Passed me allowed t t := ⟨[], by simp⟩

theorem trans (first : Passed me allowed t t') (second : Passed me allowed t' t'') : Passed me allowed t t'' := by
  obtain ⟨more, rfl, own⟩ := first
  obtain ⟨more', rfl, own'⟩ := second
  refine ⟨more ++ more', List.append_assoc _ _ _, fun e member => ?_⟩
  exact (List.mem_append.mp member).elim (own e) (own' e)

theorem mono (passed : Passed me allowed t t') (le : ∀ deed, allowed deed → wider deed) : Passed me wider t t' := by
  obtain ⟨more, rfl, own⟩ := passed
  exact ⟨more, rfl, fun e member mine => le _ (own e member mine)⟩

theorem of_idled (idled : Idled me t t') : Passed me allowed t t' := idled.mono fun _ => False.elim

theorem concat (passed : Passed me allowed t t') {deed : Deed M R} (fine : allowed deed) :
    Passed me allowed t (t' ++ [⟨me, deed⟩]) := by
  refine passed.trans ⟨[⟨me, deed⟩], rfl, fun e member _ => ?_⟩
  rw [List.mem_singleton.mp member]
  exact fine

theorem step (idled : Idled me t t') {deed : Deed M R} (fine : allowed deed) :
    Passed me allowed t (t' ++ [⟨me, deed⟩]) :=
  idled.of_idled.concat fine

theorem le (passed : Passed me allowed t t') : t <+: t' := by
  obtain ⟨more, rfl, _⟩ := passed
  exact List.prefix_append _ _

theorem le_concat (passed : Passed me allowed t t') (e : Event M R O) : t <+: t' ++ [e] :=
  passed.le.trans (List.prefix_append _ _)

theorem went {law : Law M R O} (passed : Passed me allowed t t') (lawful : Lawful law t') : Went law me allowed t t' :=
  ⟨passed, lawful⟩

theorem deeds_of_fresh (fresh : ∀ e ∈ t, e.caller.call ≠ me.call)
    (passed : Passed me allowed (t ++ [⟨me, .called⟩]) t') :
    ∀ e ∈ t', e.caller.call = me.call → e.deed = .called ∨ allowed e.deed := by
  obtain ⟨more, rfl, own⟩ := passed
  intro e member mine
  rcases List.mem_append.mp member with member | member
  · rcases List.mem_append.mp member with member | member
    · exact absurd mine (fresh e member)
    · rw [List.mem_singleton.mp member]
      exact .inl rfl
  · exact .inr (own e member mine)

theorem own_eq (passed : Passed me allowed t t') {f : Deed M R → Option β}
    (silent : ∀ deed, allowed deed → f deed = none) :
    t'.own me f = t.own me f := by
  obtain ⟨more, rfl, own⟩ := passed
  rw [Trace.own, Trace.own, List.filterMap_append, List.append_right_eq_self]
  refine List.filterMap_eq_nil_iff.mpr fun e member => ?_
  split
  · rename_i mine
    exact silent _ (own e member mine)
  · rfl

theorem gather_eq {step : β → Deed M R → β} {start : β} (passed : Passed me allowed t t')
    (silent : ∀ deed, allowed deed → ∀ b, step b deed = b) :
    Trace.gather (fun c => c.call = me.call) step start t' = Trace.gather (fun c => c.call = me.call) step start t := by
  obtain ⟨more, rfl, own⟩ := passed
  induction more using List.reverseRecOn with
  | nil => rw [List.append_nil]
  | append_singleton more e ih =>
    rw [← List.append_assoc, ← ih fun e member => own e (List.mem_append_left _ member)]
    by_cases mine : e.caller.call = me.call
    · rw [Trace.gather_concat mine, silent _ (own e (List.mem_append_right _ (List.mem_singleton_self e)) mine)]
    · rw [Trace.gather_of_other mine]

end Passed

def Deed.Peeks : Deed M R → Prop
  | .acted (.ask _ request) _ => request.Passive
  | .acted (.touch .isClosed) _ | .acted (.touch .cached) _ => True
  | _ => False

theorem Deed.Peeks.looks {deed : Deed M R} (peeks : deed.Peeks) : deed.Looks := by
  cases deed with
  | called | failed | gaveUp => exact peeks.elim
  | acted action answer =>
    cases action with
    | ask => exact peeks
    | generate | summarize => exact peeks.elim
    | abort => exact nomatch answer
    | touch t => cases t <;> first | exact peeks.elim | trivial

def Deed.tally? : Deed M R → Option Tally
  | .acted (.touch (.tally tally)) _ => some tally
  | _ => none

theorem Deed.Peeks.tally?_eq {deed : Deed M R} (peeks : deed.Peeks) : deed.tally? = none := by
  unfold Deed.tally?
  split
  · exact peeks.elim
  · rfl

def Trace.recorded (me : Caller O) (t : Trace M R O) : Stats := (t.own me Deed.tally?).foldl Stats.count {}

theorem Trace.recorded_concat (me : Caller O) (t : Trace M R O) (deed : Deed M R) :
    Trace.recorded me (t ++ [⟨me, deed⟩]) = (deed.tally?.toList).foldl Stats.count (t.recorded me) := by
  rw [recorded, own_concat, List.foldl_append]
  rfl

theorem Passed.recorded_eq {me : Caller O} {allowed : Deed M R → Prop} {t t' : Trace M R O}
    (passed : Passed me allowed t t')
    (silent : ∀ deed, allowed deed → deed.tally? = none) : t'.recorded me = t.recorded me := by
  rw [Trace.recorded, passed.own_eq silent]
  rfl

theorem Passed.counted {me : Caller O} {allowed : Deed M R → Prop} {t t' : Trace M R O}
    (passed : Passed me allowed t t')
    (measure : Stats → β) (silent : ∀ deed, allowed deed → ∀ tally, deed.tally? = some tally → ∀ stats : Stats,
      measure (stats.count tally) = measure stats) : measure (t'.recorded me) = measure (t.recorded me) := by
  obtain ⟨more, rfl, own⟩ := passed
  have folds : ∀ (tallies : List Tally) (stats : Stats),
    (∀ tally ∈ tallies, ∀ stats : Stats, measure (stats.count tally) = measure stats) →
      measure (tallies.foldl Stats.count stats) = measure stats := by
    intro tallies
    induction tallies with
    | nil => exact fun _ _ => rfl
    | cons tally rest ih =>
      intro stats all
      rw [List.foldl_cons, ih _ fun other member => all other (List.mem_cons_of_mem _ member)]
      exact all tally List.mem_cons_self stats
  rw [Trace.recorded, Trace.own, List.filterMap_append, List.foldl_append]
  refine folds _ _ fun tally member => ?_
  obtain ⟨e, inside, found⟩ := List.mem_filterMap.mp member
  split at found
  · rename_i mine
    exact silent _ (own e inside mine) tally found
  · cases found

theorem Trace.stats_eq (t : Trace M R O) (place : Nat) : ((World.after t).memories place).stats =
    (t.filterMap fun e => if e.caller.place = place then e.deed.tally? else none).foldl Stats.count {} := by
  induction t using List.reverseRecOn with
  | nil => rfl
  | append_singleton past e ih =>
    rw [World.after_concat, List.filterMap_append, List.foldl_append, ← ih]
    obtain ⟨caller, deed⟩ := e
    by_cases here : caller.place = place
    · subst here
      cases deed with
      | called | failed | gaveUp => simp [World.note, World.release, Deed.tally?]
      | acted action answer =>
        cases action with
        | ask | generate | summarize => simp [World.note, Deed.tally?]
        | abort => cases answer
        | touch x => cases x <;> simp [World.note, World.touch, Deed.tally?, Touch.run]
    · cases deed with
      | called | failed | gaveUp => simp [World.note, World.release, here]
      | acted action answer =>
        cases action with
        | ask | generate | summarize => simp [World.note, here]
        | abort => cases answer
        | touch x => simp [World.note, World.touch, here, Function.update_of_ne (Ne.symm here)]

theorem Trace.stats_of_alone {me : Caller O} {t : Trace M R O}
    (alone : ∀ e ∈ t, e.caller.call = me.call ↔ e.caller.place = me.place) :
    ((World.after t).memories me.place).stats = t.recorded me := by
  rw [stats_eq, recorded, own]
  exact congrArg (List.foldl Stats.count {}) (List.filterMap_congr fun e member => by simp only [alone e member])

theorem Stats.foldl_recoveries (tallies : List Tally) (s : Stats) : (tallies.foldl Stats.count s).truncationRecoveries =
    s.truncationRecoveries + (tallies.foldl Stats.count {}).truncationRecoveries := by
  induction tallies generalizing s with
  | nil => rfl
  | cons tally rest ih =>
    rw [List.foldl_cons, List.foldl_cons, ih, ih (Stats.count {} tally), ← Nat.add_assoc]
    cases tally <;> rfl

theorem Trace.recoveries_of_alone {me : Caller O} {t more : Trace M R O} (fresh : ∀ e ∈ t, e.caller.call ≠ me.call)
    (mine : ∀ e ∈ more, e.caller.call = me.call ↔ e.caller.place = me.place) :
    ((World.after (t ++ more)).memories me.place).stats.truncationRecoveries =
      ((World.after t).memories me.place).stats.truncationRecoveries +
        ((t ++ more).recorded me).truncationRecoveries := by
  have before : t.own me Deed.tally? = [] := own_of_fresh fresh _
  have during : more.filterMap (fun e => if e.caller.place = me.place then e.deed.tally? else none) =
    more.own me Deed.tally? :=
    List.filterMap_congr fun e member => by simp only [mine e member]
  have whole : (t ++ more).own me Deed.tally? = more.own me Deed.tally? := by
    rw [own, List.filterMap_append]
    exact congrArg (· ++ more.own me Deed.tally?) before
  rw [stats_eq, stats_eq, List.filterMap_append, List.foldl_append, during, Stats.foldl_recoveries, recorded, whole]

theorem Trace.cache_of_elsewhere {t more : Trace M R O} {place : Nat} (elsewhere : ∀ e ∈ more, e.caller.place ≠ place) :
    (t ++ more).cache place = t.cache place := by
  induction more using List.reverseRecOn with
  | nil => rw [List.append_nil]
  | append_singleton more e ih =>
    rw [← ih fun e' member => elsewhere e' (List.mem_append_left _ member), ← List.append_assoc, cache,
      World.after_concat]
    have other := elsewhere e (List.mem_append_right _ (List.mem_singleton_self e))
    obtain ⟨caller, deed⟩ := e
    cases deed with
    | called | failed | gaveUp => rfl
    | acted action answer =>
      cases action with
      | ask | generate | summarize => rfl
      | abort => cases answer
      | touch x =>
        simp only [World.note, World.touch, Function.update_of_ne (Ne.symm other)]
        rfl

theorem Trace.cache_of_waiting {me : Caller O} {t idle : Trace M R O} {place : Nat}
    (elsewhere : ∀ e ∈ idle, e.caller.place ≠ place) :
    Trace.cache (t ++ [⟨me, .called⟩] ++ idle) place = t.cache place := by
  rw [cache_of_elsewhere elsewhere, cache, World.after_concat]
  rfl

/-- As long as all that happens after `t` is fine, `post` holds where the procedure is done, whatever
others have done in between. If its last step ends the call instead, `crash` holds. -/
def Procedure.Yields (fine : Trace M R O → Prop) (me : Caller O) (crash : Trace M R O → Prop)
    (post : α → Trace M R O → Prop) : Procedure M R α → Trace M R O → Prop
  | .done a, t => post a t
  | .step action next, t => ∀ past, Idled me t past →
    (action.MayEnd → fine (past ++ [⟨me, .gaveUp⟩]) → crash (past ++ [⟨me, .gaveUp⟩])) ∧
    ∀ answer deed, Outcome action answer deed → fine (past ++ [⟨me, deed⟩]) →
      (next answer).Yields fine me crash post (past ++ [⟨me, deed⟩])

def Attempt.Yields (fine : Trace M R O → Prop) (me : Caller O) (crash : Trace M R O → Prop)
    (ok : α → Trace M R O → Prop) (err : CoreError → Trace M R O → Prop) (x : Attempt M R α) (t : Trace M R O) : Prop :=
  Procedure.Yields fine me crash (fun result => match result with | .ok a => ok a | .error cause => err cause) x.run t

variable {fine : Trace M R O → Prop} {me : Caller O} {crash : Trace M R O → Prop} {t : Trace M R O}

namespace Procedure.Yields

variable {post : α → Trace M R O → Prop} {p : Procedure M R α}

theorem mono {post' : α → Trace M R O → Prop} (yields : p.Yields fine me crash post t)
    (le : ∀ a t', post a t' → post' a t') : p.Yields fine me crash post' t := by
  induction p generalizing t with
  | done a => exact le a t yields
  | step action next ih =>
    intro past idled
    obtain ⟨ends, goes⟩ := yields past idled
    exact ⟨ends, fun answer deed outcome here => ih answer (goes answer deed outcome here)⟩

theorem ends {crash' : Trace M R O → Prop} (yields : p.Yields fine me crash post t) (le : ∀ t', crash t' → crash' t') :
    p.Yields fine me crash' post t := by
  induction p generalizing t with
  | done a => exact yields
  | step action next ih =>
    intro past idled
    obtain ⟨ends, goes⟩ := yields past idled
    exact ⟨fun may here => le _ (ends may here), fun answer deed outcome here => ih answer
      (goes answer deed outcome here)⟩

theorem bind {f : α → Procedure M R β} {post : β → Trace M R O → Prop}
    (yields : p.Yields fine me crash (fun a => (f a).Yields fine me crash post) t) :
    (p.bind f).Yields fine me crash post t := by
  induction p generalizing t with
  | done a => exact yields
  | step action next ih =>
    intro past idled
    obtain ⟨ends, goes⟩ := yields past idled
    exact ⟨ends, fun answer deed outcome here => ih answer (goes answer deed outcome here)⟩

theorem perform {action : Action M R} (other : ∀ segment request, action ≠ .ask segment request)
    {post : action.Answer → Trace M R O → Prop}
    (crashes : action.MayEnd → ∀ past, Idled me t past → fine (past ++ [⟨me, .gaveUp⟩]) →
      crash (past ++ [⟨me, .gaveUp⟩]))
    (goes : ∀ answer past, Idled me t past → fine (past ++ [⟨me, .acted action answer⟩]) →
      post answer (past ++ [⟨me, .acted action answer⟩])) :
    (Procedure.perform action).Yields fine me crash post t := by
  intro past idled
  refine ⟨fun ends => crashes ends past idled, fun answer deed outcome here => ?_⟩
  cases outcome with
  | acted => exact goes answer past idled here
  | failed segment request => exact absurd rfl (other segment request)

theorem touch {x : Touch M.State} {post : x.Answer → Trace M R O → Prop}
    (goes : ∀ answer past, Idled me t past → fine (past ++ [⟨me, .acted (.touch x) answer⟩]) →
      post answer (past ++ [⟨me, .acted (.touch x) answer⟩])) :
    (Procedure.touch x : Procedure M R x.Answer).Yields fine me crash post t :=
  perform (fun _ _ same => by cases same) False.elim goes

theorem abort {post : α → Trace M R O → Prop}
    (crashes : ∀ past, Idled me t past → fine (past ++ [⟨me, .gaveUp⟩]) → crash (past ++ [⟨me, .gaveUp⟩])) :
    (Procedure.abort : Procedure M R α).Yields fine me crash post t :=
  fun past idled => ⟨fun _ => crashes past idled, fun impossible => nomatch impossible⟩

variable {action : Action M R} {next : action.Answer → Procedure M R α} {past : Trace M R O}

theorem act (yields : (Procedure.step action next).Yields fine me crash post t) (idled : Idled me t past)
    {answer : action.Answer} {deed : Deed M R} (outcome : Outcome action answer deed)
    (here : fine (past ++ [⟨me, deed⟩])) :
    (next answer).Yields fine me crash post (past ++ [⟨me, deed⟩]) := (yields past idled).2 answer deed outcome here

theorem panic (yields : (Procedure.step action next).Yields fine me crash post t) (idled : Idled me t past)
    (ends : action.MayEnd) (here : fine (past ++ [⟨me, .gaveUp⟩])) : crash (past ++ [⟨me, .gaveUp⟩]) :=
  (yields past idled).1 ends here

theorem of_safe {law : Law M R O} (safe : p.Safe law me crash post t) : p.Yields (Lawful law) me crash post t := by
  induction p generalizing t with
  | done a => exact safe
  | step action next ih =>
    intro past idled
    refine ⟨fun ends lawful => ?_, fun answer deed outcome lawful => ?_⟩
    · exact (safe past (idled.went lawful.of_concat.1)).2.2.1 ends
    · exact ih answer ((safe past (idled.went lawful.of_concat.1)).2.2.2 answer deed outcome lawful)

theorem and {post' : α → Trace M R O → Prop} (yields : p.Yields fine me crash post t)
    (yields' : p.Yields fine me crash post' t) : p.Yields fine me crash (fun a t' => post a t' ∧ post' a t') t := by
  induction p generalizing t with
  | done a => exact ⟨yields, yields'⟩
  | step action next ih =>
    intro past idled
    obtain ⟨ends, goes⟩ := yields past idled
    exact ⟨ends, fun answer deed outcome here => ih answer (goes answer deed outcome here)
      ((yields' past idled).2 answer deed outcome here)⟩

end Procedure.Yields

namespace Attempt.Yields

variable {ok : α → Trace M R O → Prop} {err : CoreError → Trace M R O → Prop}

theorem pure {a : α} (done : ok a t) : (Pure.pure a : Attempt M R α).Yields fine me crash ok err t := done

theorem throw {cause : CoreError} (failed : err cause t) :
    Attempt.Yields fine me crash ok err (MonadExcept.throw cause) t := failed

theorem bind {x : Attempt M R β} {f : β → Attempt M R α}
    (yields : Attempt.Yields fine me crash (fun b => Attempt.Yields fine me crash ok err (f b)) err x t) :
    Attempt.Yields fine me crash ok err (x >>= f) t := by
  refine Procedure.Yields.bind (Procedure.Yields.mono yields ?_)
  intro result t' promised
  cases result <;> exact promised

theorem and {x : Attempt M R α} {ok' : α → Trace M R O → Prop} (yields : Attempt.Yields fine me crash ok err x t)
    (yields' : Attempt.Yields fine me crash ok' err x t) :
    Attempt.Yields fine me crash (fun a t' => ok a t' ∧ ok' a t') err x t := by
  refine Procedure.Yields.mono (Procedure.Yields.and yields yields') ?_
  intro result t' promised
  cases result with
  | ok a => exact promised
  | error cause => exact promised.1

theorem lift {p : Procedure M R α} (yields : p.Yields fine me crash ok t) :
    Attempt.Yields fine me crash ok err (ExceptT.lift p) t :=
  Procedure.Yields.bind (Procedure.Yields.mono yields fun _ _ promised => promised)

theorem of_safe {law : Law M R O} {x : Attempt M R α} (safe : Attempt.Safe law me crash ok err x t) :
    Attempt.Yields (Lawful law) me crash ok err x t := Procedure.Yields.of_safe safe

theorem run {x : Attempt M R α} {post : Except CoreError α → Trace M R O → Prop}
    (yields : Attempt.Yields fine me crash (fun a => post (.ok a)) (fun cause => post (.error cause)) x t) :
    Procedure.Yields fine me crash post x.run t := by
  refine Procedure.Yields.mono yields ?_
  intro result t' promised
  cases result <;> exact promised

theorem touch {x : Touch M.State} {ok : x.Answer → Trace M R O → Prop}
    (goes : ∀ answer past, Idled me t past → fine (past ++ [⟨me, .acted (.touch x) answer⟩]) →
      ok answer (past ++ [⟨me, .acted (.touch x) answer⟩])) :
    Attempt.Yields fine me crash ok err (Attempt.touch x) t :=
  lift (.touch goes)

theorem abort (crashes : ∀ past, Idled me t past → fine (past ++ [⟨me, .gaveUp⟩]) → crash (past ++ [⟨me, .gaveUp⟩])) :
    Attempt.Yields fine me crash ok err (Attempt.abort : Attempt M R α) t :=
  lift (.abort crashes)

theorem ask {segment : SegmentId} {request : Request} {ok : request.Answer → Trace M R O → Prop}
    (served : ∀ answer past, Idled me t past → fine (past ++ [⟨me, .acted (.ask segment request) (.ok answer)⟩]) →
      ok answer (past ++ [⟨me, .acted (.ask segment request) (.ok answer)⟩]))
    (refused : ∀ cause deed past, Idled me t past → Outcome (.ask segment request) (.error cause) deed →
      fine (past ++ [⟨me, deed⟩]) → err (.ofSegment cause) (past ++ [⟨me, deed⟩])) :
    Attempt.Yields fine me crash ok err (Attempt.ask segment request) t := by
  unfold Attempt.ask
  refine bind (lift ?_)
  intro past idled
  refine ⟨False.elim, fun answer deed outcome here => ?_⟩
  cases answer with
  | error cause => exact refused cause deed past idled outcome here
  | ok answer =>
    cases outcome
    exact served answer past idled here

theorem locked {body : Attempt M R α}
    (inside : ∀ past, Idled me t past → fine (past ++ [⟨me, .acted (.touch .lockCache) ()⟩]) →
      Attempt.Yields fine me crash
        (fun a t' => ∀ left, Idled me t' left → fine (left ++ [⟨me, .acted (.touch .unlockCache) ()⟩]) →
          ok a (left ++ [⟨me, .acted (.touch .unlockCache) ()⟩]))
        (fun cause t' => ∀ left, Idled me t' left → fine (left ++ [⟨me, .acted (.touch .unlockCache) ()⟩]) →
          err cause (left ++ [⟨me, .acted (.touch .unlockCache) ()⟩]))
        body (past ++ [⟨me, .acted (.touch .lockCache) ()⟩])) :
    Attempt.Yields fine me crash ok err (Attempt.locked body) t := by
  unfold Attempt.locked
  refine Procedure.Yields.bind (.touch fun _ past idled here => ?_)
  refine Procedure.Yields.bind (Procedure.Yields.mono (inside past idled here) ?_)
  intro result t' promised
  cases result with
  | ok a => exact Procedure.Yields.bind (.touch fun _ left leaves there => promised left leaves there)
  | error cause => exact Procedure.Yields.bind (.touch fun _ left leaves there => promised left leaves there)

end Attempt.Yields

/-- Every action that the procedure can come to is allowed, and what it can be done with is as said. -/
def Procedure.Confined (allowed : Action M R → Prop) (holds : α → Prop) : Procedure M R α → Prop
  | .done a => holds a
  | .step action next => allowed action ∧ ∀ answer, (next answer).Confined allowed holds

def Attempt.Confined (allowed : Action M R → Prop) (errs : CoreError → Prop) (x : Attempt M R α) : Prop :=
  Procedure.Confined allowed (fun result => ∀ cause, result = .error cause → errs cause) x.run

/-- A deed that is an allowed action, or a request of that kind which was not served. -/
def Deed.Within (allowed : Action M R → Prop) : Deed M R → Prop
  | .acted action _ => allowed action
  | .failed segment request _ => allowed (.ask segment request)
  | _ => False

def Deed.Acts (allowed : Action M R → Prop) : Deed M R → Prop
  | .acted action _ => allowed action
  | .gaveUp => True
  | _ => False

theorem Deed.Within.mono {allowed wider : Action M R → Prop} {deed : Deed M R} (within : deed.Within allowed)
    (le : ∀ action, allowed action → wider action) : deed.Within wider := by
  cases deed with
  | acted | failed => exact le _ within
  | called | gaveUp => exact within

theorem Deed.Acts.mono {allowed wider : Action M R → Prop} {deed : Deed M R} (acts : deed.Acts allowed)
    (le : ∀ action, allowed action → wider action) : deed.Acts wider := by
  cases deed with
  | called | failed => exact acts.elim
  | gaveUp => trivial
  | acted action answer => exact le action acts

variable {allowed : Action M R → Prop}

theorem Outcome.within {action : Action M R} {answer : action.Answer} {deed : Deed M R}
    (outcome : Outcome action answer deed) (fine : allowed action) : deed.Within allowed := by
  cases outcome <;> exact fine

namespace Procedure.Confined

variable {holds : α → Prop} {p : Procedure M R α}

theorem mono {wider : Action M R → Prop} {holds' : α → Prop} (confined : p.Confined allowed holds)
    (le : ∀ action, allowed action → wider action) (le' : ∀ a, holds a → holds' a) : p.Confined wider holds' := by
  induction p with
  | done a => exact le' a confined
  | step action next ih => exact ⟨le action confined.1, fun answer => ih answer (confined.2 answer)⟩

theorem of_forall (all : ∀ action, allowed action) (all' : ∀ a, holds a) : p.Confined allowed holds := by
  induction p with
  | done a => exact all' a
  | step action next ih => exact ⟨all action, fun answer => ih answer⟩

theorem bind {f : α → Procedure M R β} {holds : β → Prop}
    (first : p.Confined allowed fun a => (f a).Confined allowed holds) :
    (p.bind f).Confined allowed holds := by
  induction p with
  | done a => exact first
  | step action next ih => exact ⟨first.1, fun answer => ih answer (first.2 answer)⟩

theorem perform {action : Action M R} (fine : allowed action) {holds : action.Answer → Prop}
    (all : ∀ answer, holds answer) :
    (Procedure.perform action).Confined allowed holds := ⟨fine, all⟩

theorem touch {x : Touch M.State} (fine : allowed (.touch x)) {holds : x.Answer → Prop} (all : ∀ answer, holds answer) :
    (Procedure.touch x : Procedure M R x.Answer).Confined allowed holds := ⟨fine, all⟩

theorem abort (fine : allowed .abort) : (Procedure.abort : Procedure M R α).Confined allowed holds :=
  ⟨fine, fun impossible => nomatch impossible⟩

theorem yields {post : α → Trace M R O → Prop} (confined : p.Confined allowed holds)
    (crashes : ∀ t', Passed me (Deed.Within allowed) t t' → crash (t' ++ [⟨me, .gaveUp⟩]))
    (goes : ∀ a t', Passed me (Deed.Within allowed) t t' → holds a → post a t') : p.Yields fine me crash post t := by
  induction p generalizing t with
  | done a => exact goes a t (Passed.refl t) confined
  | step action next ih =>
    intro past idled
    refine ⟨fun _ _ => crashes past idled.of_idled, fun answer deed outcome _ => ?_⟩
    have passed := idled.step (outcome.within confined.1)
    exact ih answer (confined.2 answer) (fun t' went => crashes t' (passed.trans went))
      fun a t' went => goes a t' (passed.trans went)

end Procedure.Confined

namespace Attempt.Confined

variable {errs : CoreError → Prop} {x : Attempt M R α}

theorem pure (a : α) : (Pure.pure a : Attempt M R α).Confined allowed errs := nofun

theorem throw {cause : CoreError} (fails : errs cause) :
    (MonadExcept.throw cause : Attempt M R α).Confined allowed errs := by
  rintro _ ⟨⟩
  exact fails

theorem bind {f : α → Attempt M R β} (first : x.Confined allowed errs) (rest : ∀ a, (f a).Confined allowed errs) :
    (x >>= f).Confined allowed errs := by
  refine Procedure.Confined.bind (Procedure.Confined.mono first (fun _ => id) fun result fails => ?_)
  cases result with
  | ok a => exact rest a
  | error cause =>
    rintro _ ⟨⟩
    exact fails cause rfl

theorem lift {p : Procedure M R α} {holds : α → Prop} (confined : p.Confined allowed holds) :
    Attempt.Confined allowed errs (ExceptT.lift p) :=
  Procedure.Confined.bind (Procedure.Confined.mono confined (fun _ => id) fun _ _ _ => nofun)

theorem bind_lift {p : Procedure M R β} {f : β → Attempt M R α}
    (first : p.Confined allowed fun b => (f b).Confined allowed errs) :
    Attempt.Confined allowed errs (ExceptT.lift p >>= f) := Procedure.Confined.bind (Procedure.Confined.bind first)

theorem mono {wider : Action M R → Prop} {errs' : CoreError → Prop} (confined : x.Confined allowed errs)
    (le : ∀ action, allowed action → wider action) (le' : ∀ cause, errs cause → errs' cause) : x.Confined wider errs' :=
  Procedure.Confined.mono confined le fun _ fails cause same => le' cause (fails cause same)

theorem touch {t : Touch M.State} (fine : allowed (.touch t)) :
    (Attempt.touch t : Attempt M R t.Answer).Confined allowed errs :=
  lift (Procedure.Confined.touch fine fun _ => trivial)

theorem abort (fine : allowed .abort) : (Attempt.abort : Attempt M R α).Confined allowed errs :=
  lift (.abort fine : (Procedure.abort : Procedure M R α).Confined allowed fun _ => True)

theorem ask {segment : SegmentId} {request : Request} (fine : allowed (.ask segment request))
    (fails : ∀ cause, errs (.ofSegment cause)) :
    (Attempt.ask segment request : Attempt M R _).Confined allowed errs := by
  refine bind (lift (Procedure.Confined.perform fine fun _ => trivial)) fun answer => ?_
  cases answer with
  | ok answer => exact pure answer
  | error cause => exact throw (fails cause)

theorem locked (takes : allowed (.touch .lockCache)) (gives : allowed (.touch .unlockCache))
    (confined : x.Confined allowed errs) : (Attempt.locked x).Confined allowed errs := by
  refine Procedure.Confined.bind (.touch takes fun _ => ?_)
  refine Procedure.Confined.bind (Procedure.Confined.mono confined (fun _ => id) fun result fails => ?_)
  exact Procedure.Confined.bind (.touch gives fun _ => fails)

theorem yields {ok : α → Trace M R O → Prop} {err : CoreError → Trace M R O → Prop} (confined : x.Confined allowed errs)
    (crashes : ∀ t', Passed me (Deed.Within allowed) t t' → crash (t' ++ [⟨me, .gaveUp⟩]))
    (goes : ∀ a t', Passed me (Deed.Within allowed) t t' → ok a t')
    (failed : ∀ cause t', Passed me (Deed.Within allowed) t t' → errs cause → err cause t') :
    Attempt.Yields fine me crash ok err x t := by
  refine Procedure.Confined.yields confined crashes fun result t' passed fails => ?_
  cases result with
  | ok a => exact goes a t' passed
  | error cause => exact failed cause t' passed (fails cause rfl)

end Attempt.Confined

theorem Procedure.Yields.of_le {post : α → Trace M R O → Prop} {p : Procedure M R α}
    (crashes : ∀ t', t <+: t' → crash t') (goes : ∀ a t', t <+: t' → post a t') : p.Yields fine me crash post t := by
  have free : p.Confined (fun _ => True) fun _ => True := .of_forall (fun _ => trivial) fun _ => trivial
  exact free.yields (fun t' passed => crashes _ (passed.le_concat _)) fun a t' passed _ => goes a t' passed.le

theorem Attempt.Yields.of_le {x : Attempt M R α} {ok : α → Trace M R O → Prop} {err : CoreError → Trace M R O → Prop}
    (crashes : ∀ t', t <+: t' → crash t') (goes : ∀ a t', t <+: t' → ok a t')
    (failed : ∀ cause t', t <+: t' → err cause t') : Attempt.Yields fine me crash ok err x t := by
  refine Procedure.Yields.of_le crashes fun result t' le => ?_
  cases result with
  | ok a => exact goes a t' le
  | error cause => exact failed cause t' le

theorem Procedure.Safe.within {law : Law M R O} {p : Procedure M R α} {post : α → Trace M R O → Prop} {holds : α → Prop}
    (safe : p.Safe law me crash post t) (confined : p.Confined allowed holds) (lawful : Lawful law t) :
    p.Safe law me crash (fun a t' => post a t' ∧ Went law me (Deed.Within allowed) t t') t := by
  induction p generalizing t with
  | done a => exact ⟨safe, Went.refl lawful⟩
  | step action next ih =>
    intro past waited
    obtain ⟨guarded, may, ends, goes⟩ := safe past waited
    refine ⟨guarded, may, ends, fun answer deed outcome lawful => ?_⟩
    have went := waited.step (outcome.within confined.1) lawful
    exact (ih answer (goes answer deed outcome lawful) (confined.2 answer) lawful).mono fun a t' promised =>
      ⟨promised.1, went.trans promised.2⟩

/-- A call that first takes the lock of the cache, and does nothing but what is allowed from then on. -/
def Procedure.Enters (allowed : Action M R → Prop) (p : Procedure M R α) : Prop :=
  ∃ next, p = .step (.touch .lockCache) next ∧ (next ()).Confined allowed fun _ => True

theorem Procedure.Enters.bind {p : Procedure M R α} {f : α → Procedure M R β} (enters : p.Enters allowed)
    (rest : ∀ a, (f a).Confined allowed fun _ => True) : (p.bind f).Enters allowed := by
  obtain ⟨next, rfl, confined⟩ := enters
  exact ⟨fun answer => (next answer).bind f, rfl, .bind (confined.mono (fun _ => id) fun a _ => rest a)⟩

theorem Attempt.enters_bind {x : Attempt M R α} {f : α → Attempt M R β} {errs : CoreError → Prop}
    (enters : Procedure.Enters allowed x.run) (rest : ∀ a, (f a).Confined allowed errs) :
    Procedure.Enters allowed (x >>= f).run := by
  refine Procedure.Enters.bind enters fun result => ?_
  cases result with
  | ok a => exact Procedure.Confined.mono (rest a) (fun _ => id) fun _ _ => trivial
  | error cause => trivial

theorem Attempt.locked_enters {body : Attempt M R α} {errs : CoreError → Prop} (confined : body.Confined allowed errs)
    (gives : allowed (.touch .unlockCache)) : Procedure.Enters allowed (Attempt.locked body).run := by
  refine ⟨_, rfl, Procedure.Confined.bind (Procedure.Confined.bind ?_)⟩
  refine Procedure.Confined.mono confined (fun _ => id) fun result _ => ?_
  exact Procedure.Confined.bind (.touch gives fun _ => trivial)

end LogReplica
