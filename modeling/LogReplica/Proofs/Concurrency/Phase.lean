import LogReplica.Proofs.Concurrency.Path
import Mathlib.Algebra.BigOperators.Group.List.Basic
import Mathlib.Algebra.Group.Prod
import Mathlib.Data.List.Nodup

namespace LogReplica

variable {M : Model} {R O α β : Type}

/-- A deed that is no request which was not served. -/
def Deed.Served : Deed M R → Prop
  | .failed .. => False
  | _ => True

instance Deed.decidableServed : (deed : Deed M R) → Decidable deed.Served
  | .failed .. => .isFalse id
  | .called | .acted .. | .gaveUp => .isTrue trivial

namespace System

variable {program : Nat → O → Attempt M R α} {s s' s'' : System M R O α} {callers callers' : List (Caller O)}
  {caller : Caller O}

theorem Step.uncalled (step : s.Step program s') {id : Nat} (uncalled : s'.calls id = none) : s.calls id = none := by
  obtain ⟨caller, deed, rest, rfl, _⟩ := step.proceeds
  by_cases own : id = caller.call
  · subst own
    cases (Function.update_self _ _ s.calls).symm.trans uncalled
  · exact (Function.update_of_ne own _ s.calls).symm.trans uncalled

theorem uncalled_of_steps (steps : s.Steps program s') {id : Nat} (uncalled : s'.calls id = none) :
    s.calls id = none := by
  induction steps with
  | refl => exact uncalled
  | tail _ step ih => exact ih (step.uncalled uncalled)

theorem Returned.steps {result : Except CoreError α} (returned : s.Returned caller result)
    (steps : s.Steps program s') : s'.Returned caller result := by
  induction steps with
  | refl => exact returned
  | @tail s _ _ step ih =>
    obtain ⟨other, deed, rest, rfl, origin⟩ := step.proceeds
    have ended : s.calls caller.call = some ⟨caller, .done result⟩ := ih
    have ne : caller.call ≠ other.call := by
      intro same
      rw [same] at ended
      rcases origin with new | ⟨_, action, next, running⟩
      · cases new.symm.trans ended
      · cases running.symm.trans ended
    exact (Function.update_of_ne ne _ s.calls).trans ended

def answer? [DecidableEq O] (s : System M R O α) (caller : Caller O) : Option α :=
  match s.calls caller.call with
  | some ⟨known, .done (.ok a)⟩ => if known = caller then some a else none
  | _ => none

theorem returned_of_answer? [DecidableEq O] {a : α} (answered : s.answer? caller = some a) :
    s.Returned caller (.ok a) := by
  unfold answer? at answered
  split at answered
  · rename_i known _ here
    split at answered
    · rename_i same
      cases answered
      exact same ▸ here
    · cases answered
  · cases answered

variable (program) in
/-- From `s` to `s'` these calls have run among each other, each from its beginning to its end, and nothing else has.
All requests were served, and all calls have succeeded. -/
structure Together (callers : List (Caller O)) (s s' : System M R O α) : Prop where
  steps : s.Steps program s'
  new : ∀ caller ∈ callers, s.calls caller.call = none
  distinct : (callers.map Caller.call).Nodup
  only : ∃ more, s'.trace = s.trace ++ more ∧ ∀ e ∈ more, e.caller ∈ callers ∧ e.deed.Served
  returned : ∀ caller ∈ callers, ∃ a, s'.Returned caller (.ok a)

variable (program) in
/-- A call made after `past`, in a stretch from `s` to `s'`, has gone its way to an answer by `t`. -/
structure Trip (caller : Caller O) (s s' : System M R O α) (answer : α) (past t : Trace M R O) : Prop where
  since : s.trace <+: past
  fresh : ∀ e ∈ past, e.caller.call ≠ caller.call
  leads : (program caller.place caller.operation).run.Leads caller (past ++ [⟨caller, .called⟩]) (.ok answer) t
  idled : Idled caller t s'.trace

theorem Trip.le {answer : α} {past t : Trace M R O} (trip : Trip program caller s s' answer past t) :
    past ++ [⟨caller, .called⟩] <+: s'.trace := trip.leads.le.trans trip.idled.le

namespace Together

theorem nil (s : System M R O α) : Together program [] s s where
  steps := .refl
  new := nofun
  distinct := .nil
  only := ⟨[], (List.append_nil _).symm, nofun⟩
  returned := nofun

theorem append (first : Together program callers s s') (second : Together program callers' s' s'') :
    Together program (callers ++ callers') s s'' where
  steps := first.steps.trans second.steps
  new caller member := by
    rcases List.mem_append.mp member with member | member
    · exact first.new caller member
    · exact uncalled_of_steps first.steps (second.new caller member)
  distinct := by
    rw [List.map_append, List.nodup_append]
    refine ⟨first.distinct, second.distinct, fun id early id' late same => ?_⟩
    obtain ⟨caller, member, rfl⟩ := List.mem_map.mp early
    obtain ⟨other, member', rfl⟩ := List.mem_map.mp late
    obtain ⟨a, returned⟩ := first.returned caller member
    have new := second.new other member'
    rw [← same] at new
    cases new.symm.trans returned
  only := by
    obtain ⟨more, split, own⟩ := first.only
    obtain ⟨more', split', own'⟩ := second.only
    refine ⟨more ++ more', by rw [split', split, List.append_assoc], fun e member => ?_⟩
    rcases List.mem_append.mp member with member | member
    · obtain ⟨here, served⟩ := own e member
      exact ⟨List.mem_append_left _ here, served⟩
    · obtain ⟨here, served⟩ := own' e member
      exact ⟨List.mem_append_right _ here, served⟩
  returned caller member := by
    rcases List.mem_append.mp member with member | member
    · obtain ⟨a, returned⟩ := first.returned caller member
      exact ⟨a, returned.steps second.steps⟩
    · exact second.returned caller member

theorem of_steps [DecidableEq O] (steps : s.Steps program s') (distinct : (callers.map Caller.call).Nodup)
    (checked : (callers.all (fun caller => (s.calls caller.call).isNone && (s'.answer? caller).isSome) &&
      (s'.trace.drop s.trace.length).all fun e => decide (e.caller ∈ callers ∧ e.deed.Served)) = true) :
    Together program callers s s' := by
  obtain ⟨more, split⟩ := trace_le steps
  rw [← split, List.drop_left] at checked
  simp only [List.all_eq_true, Bool.and_eq_true, Option.isNone_iff_eq_none] at checked
  obtain ⟨called, only⟩ := checked
  refine ⟨steps, fun caller member => (called caller member).1, distinct, ⟨more, split.symm, ?_⟩, ?_⟩
  · exact fun e member => of_decide_eq_true (only e member)
  · intro caller member
    obtain ⟨a, answered⟩ := Option.isSome_iff_exists.mp (called caller member).2
    exact ⟨a, returned_of_answer? answered⟩

theorem le (together : Together program callers s s') : s.trace <+: s'.trace := trace_le together.steps

theorem cache_eq (together : Together program callers s s') {place : Nat}
    (elsewhere : ∀ caller ∈ callers, caller.place ≠ place) : s'.trace.cache place = s.trace.cache place := by
  obtain ⟨more, split, own⟩ := together.only
  rw [split]
  exact Trace.cache_of_elsewhere fun e member => elsewhere _ (own e member).1

theorem fresh (together : Together program callers s s') (reachable : s.Reachable program) (member : caller ∈ callers) :
    ∀ e ∈ s.trace, e.caller.call ≠ caller.call := fresh_of_uncalled reachable (together.new caller member)

theorem exists_trip (together : Together program callers s s') (reachable : s.Reachable program)
    (member : caller ∈ callers) :
    ∃ answer past t, s'.Returned caller (.ok answer) ∧ Trip program caller s s' answer past t := by
  obtain ⟨answer, returned⟩ := together.returned caller member
  obtain ⟨past, t, fresh, since, idled, leads⟩ :=
    leads_of_returned (reachable.trans together.steps) returned nofun
  refine ⟨answer, past, t, returned, ?_, fresh, leads, idled⟩
  rcases List.prefix_or_prefix_of_prefix together.le (since.trans idled.le) with early | late
  · rcases List.prefix_concat_iff.mp early with whole | early
    · exact absurd rfl (together.fresh reachable member ⟨caller, .called⟩ (whole ▸ by simp))
    · exact early
  · exact absurd rfl (together.fresh reachable member ⟨caller, .called⟩ (late.subset (by simp)))

theorem trip_of_singleton (together : Together program [caller] s s') (reachable : s.Reachable program) :
    ∃ answer, s'.Returned caller (.ok answer) ∧ Trip program caller s s' answer s.trace s'.trace := by
  obtain ⟨answer, past, t, returned, trip⟩ := together.exists_trip reachable (List.mem_singleton_self _)
  obtain ⟨more, split, own⟩ := together.only
  have mine : ∀ {e}, e ∈ more → e.caller.call = caller.call := fun member =>
    congrArg Caller.call (List.mem_singleton.mp (own _ member).1)
  obtain ⟨early, rfl⟩ := trip.since
  obtain ⟨late, whole, idle⟩ := trip.idled
  obtain rfl : early = [] := by
    refine List.eq_nil_iff_forall_not_mem.mpr fun e member => trip.fresh e (by simp [member]) (mine ?_)
    obtain ⟨rest, le⟩ := trip.le
    rw [split, List.append_assoc, List.append_assoc] at le
    rw [← List.append_cancel_left le]
    simp [member]
  obtain rfl : late = [] := by
    refine List.eq_nil_iff_forall_not_mem.mpr fun e member => idle e member (mine ?_)
    obtain ⟨rest, rfl⟩ := trip.leads.le
    rw [split, List.append_nil, List.append_assoc, List.append_assoc] at whole
    rw [List.append_cancel_left whole]
    simp [member]
  rw [List.append_nil] at whole trip
  exact ⟨answer, returned, whole ▸ trip⟩

end Together

end System

namespace Trace

variable {A : Type} [AddCommMonoid A] {callers : List (Caller O)} {caller : Caller O}

theorem sum_of_caller (distinct : (callers.map Caller.call).Nodup) (member : caller ∈ callers) (count : A) :
    (callers.map fun c => if caller.call = c.call then count else 0).sum = count := by
  induction callers with
  | nil => cases member
  | cons c callers ih =>
    rw [List.map_cons, List.nodup_cons] at distinct
    rw [List.map_cons, List.sum_cons]
    rcases List.mem_cons.mp member with rfl | member
    · have none : (callers.map fun c => if caller.call = c.call then count else 0).sum = 0 := by
        refine List.sum_eq_zero fun x found => ?_
        obtain ⟨other, there, rfl⟩ := List.mem_map.mp found
        refine if_neg fun same => distinct.1 ?_
        rw [same]
        exact List.mem_map_of_mem there
      rw [if_pos rfl, none, add_zero]
    · have ne : caller.call ≠ c.call := fun same => distinct.1 (same ▸ List.mem_map_of_mem member)
      rw [if_neg ne, zero_add, ih distinct.2 member]

variable (f : Deed M R → Option β) (w : β → A)

theorem own_append_of_fresh {t : Trace M R O} (fresh : ∀ e ∈ t, e.caller.call ≠ caller.call) (more : Trace M R O) :
    Trace.own caller f (t ++ more) = Trace.own caller f more := by
  rw [Trace.own, List.filterMap_append, ← Trace.own, ← Trace.own, Trace.own_of_fresh fresh, List.nil_append]

theorem sum_own (distinct : (callers.map Caller.call).Nodup) {t : Trace M R O} (own : ∀ e ∈ t, e.caller ∈ callers) :
    ((t.filterMap fun e => f e.deed).map w).sum = (callers.map fun c => ((t.own c f).map w).sum).sum := by
  induction t using List.reverseRecOn with
  | nil => simp [Trace.own]
  | append_singleton t e ih =>
    have before := ih fun e' member => own e' (List.mem_append_left _ member)
    have last : e.caller ∈ callers := own e (by simp)
    have each : ∀ c : Caller O, ((Trace.own c f (t ++ [e])).map w).sum =
        ((Trace.own c f t).map w).sum + if e.caller.call = c.call then ((f e.deed).toList.map w).sum else 0 := by
      intro c
      by_cases mine : e.caller.call = c.call <;> cases found : f e.deed <;> simp [Trace.own, mine, found]
    have ends : ((List.filterMap (fun e => f e.deed) [e]).map w).sum = ((f e.deed).toList.map w).sum := by
      cases found : f e.deed <;> simp [found]
    rw [List.filterMap_append, List.map_append, List.sum_append, before, ends]
    simp only [each, List.sum_map_add, sum_of_caller distinct last]

end Trace

structure Stats.Additive {A : Type} [AddCommMonoid A] (field : Stats → A) : Prop where
  empty : field {} = 0
  count : ∀ stats tally, field (stats.count tally) = field stats + field (({} : Stats).count tally)

namespace Stats.Additive

variable {A : Type} [AddCommMonoid A] {field : Stats → A} (additive : Stats.Additive field)

include additive

theorem foldl_count (tallies : List Tally) (stats : Stats) : field (tallies.foldl Stats.count stats) =
    field stats + (tallies.map fun tally => field (({} : Stats).count tally)).sum := by
  induction tallies generalizing stats with
  | nil => exact (add_zero _).symm
  | cons tally rest ih =>
    rw [List.foldl_cons, ih, additive.count, List.map_cons, List.sum_cons, add_assoc]

theorem stats_append {callers : List (Caller O)} (distinct : (callers.map Caller.call).Nodup) {t more : Trace M R O}
    (own : ∀ e ∈ more, e.caller ∈ callers) (new : ∀ c ∈ callers, ∀ e ∈ t, e.caller.call ≠ c.call) (place : Nat) :
    field ((World.after (t ++ more)).memories place).stats = field ((World.after t).memories place).stats +
      ((callers.filter fun c => c.place = place).map fun c => field ((t ++ more).recorded c)).sum := by
  -- Only the calls at the place count there, and each does so with all its tallies.
  have there : ∀ e ∈ more.filter (fun e => e.caller.place = place),
      e.caller ∈ callers.filter fun c => c.place = place := by
    intro e member
    rw [List.mem_filter] at member ⊢
    exact ⟨own e member.1, member.2⟩
  have same : ∀ c ∈ callers.filter (fun c => c.place = place), Trace.own c Deed.tally?
      (more.filter fun e => e.caller.place = place) = Trace.own c Deed.tally? (t ++ more) := by
    intro c member
    rw [List.mem_filter, decide_eq_true_eq] at member
    rw [Trace.own_append_of_fresh _ (new c member.1), Trace.own, Trace.own, List.filterMap_filter]
    refine List.filterMap_congr fun e here => ?_
    by_cases mine : e.caller.call = c.call
    · have whole : e.caller = c := List.inj_on_of_nodup_map distinct (own e here) member.1 mine
      simp [whole, member.2]
    · simp [mine]
  have sum := Trace.sum_own Deed.tally? (fun tally => field (({} : Stats).count tally))
    (distinct.sublist ((List.filter_sublist (l := callers)).map _)) there
  have counted : ∀ c : Caller O, field ((t ++ more).recorded c) =
      ((Trace.own c Deed.tally? (t ++ more)).map fun tally => field (({} : Stats).count tally)).sum := by
    intro c
    rw [Trace.recorded, additive.foldl_count, additive.empty, zero_add]
  have all : (more.filterMap fun e => if e.caller.place = place then e.deed.tally? else none) =
      (more.filter fun e => e.caller.place = place).filterMap fun e => e.deed.tally? := by
    rw [List.filterMap_filter]
    exact List.filterMap_congr fun e _ => by by_cases here : e.caller.place = place <;> simp [here]
  rw [Trace.stats_eq, Trace.stats_eq, List.filterMap_append, List.foldl_append, additive.foldl_count, all, sum]
  congr 2
  exact List.map_congr_left fun c member => by rw [counted, same c member]

theorem stats_of_together {program : Nat → O → Attempt M R α} {s s' : System M R O α} {callers : List (Caller O)}
    (reachable : s.Reachable program) (together : System.Together program callers s s') {place : Nat} {count : A}
    (each : ∀ c ∈ callers, c.place = place → field (s'.trace.recorded c) = count) :
    field ((World.after s'.trace).memories place).stats = field ((World.after s.trace).memories place).stats +
      (callers.countP fun c => c.place = place) • count := by
  obtain ⟨more, split, own⟩ := together.only
  have new : ∀ c ∈ callers, ∀ e ∈ s.trace, e.caller.call ≠ c.call := fun _ => together.fresh reachable
  have same : (callers.filter fun c => c.place = place).map (fun c => field (s'.trace.recorded c)) =
      (callers.filter fun c => c.place = place).map fun _ => count := by
    refine List.map_congr_left fun c member => ?_
    rw [List.mem_filter, decide_eq_true_eq] at member
    exact each c member.1 member.2
  rw [split] at same ⊢
  rw [additive.stats_append together.distinct (fun e member => (own e member).1) new, same, List.map_const',
    List.sum_replicate, List.countP_eq_length_filter]

end Stats.Additive

/-- What has been brought to an end: updates, compactions and recoveries. -/
def Stats.outcome (stats : Stats) : Nat × Nat × Nat :=
  (stats.updatesWritten, stats.compactions, stats.truncationRecoveries)

theorem Stats.outcome_additive : Stats.Additive Stats.outcome :=
  ⟨rfl, fun stats tally => by cases tally <;> simp [Stats.outcome, Stats.count]⟩

end LogReplica
