import LogReplica.Proofs.Concurrency.Phase
import LogReplica.Proofs.Replica.Completion

namespace LogReplica

variable {M : Model} {R O α : Type}

theorem Trace.outcome_eq {me : Caller O} {t : Trace M R O} {written compactions recoveries : Nat}
    (completed : t.completed me = ⟨written, compactions⟩)
    (recovered : (t.recorded me).truncationRecoveries = recoveries) :
    (t.recorded me).outcome = (written, compactions, recoveries) := by
  cases completed
  cases recovered
  rfl

namespace Deployment

variable {d : Deployment M} {ρ : Conduct M R O} {t more : Trace M R O}

def framed (d : Deployment M) (record : M.Record) : Nat :=
  Framed.headerSize + ((d.codec.encode record).toOption.getD []).length

theorem ending_concat {log : List Entry} {entry : Entry} {record : M.Record} (chain : Contiguous 0 (log ++ [entry]))
    (encoded : d.codec.encode record = .ok entry.data) :
    ending 0 (log ++ [entry]) = ending 0 log + d.framed record := by
  rw [ending_append, ending_cons, ending_nil, Contiguous.endOffset_eq chain, framed, encoded, Nat.add_assoc]
  rfl

theorem whole_of_uncompacting (trips : d.codec.RoundTrips) (lawful : Lawful (d.law ρ) t) (clean : Clean ρ t)
    (uncompacting : ∀ e ∈ t, ¬ρ.compacts e.caller.operation) : d.mark t = none ∧ d.oldest t = 0 := by
  rcases (shape trips lawful clean).mark with unmarked | ⟨offset, marked, _⟩
  · exact unmarked
  · obtain ⟨e, member, _, compacts⟩ := moved_of_mark lawful clean marked
    exact absurd compacts (uncompacting e member)

end Deployment

namespace System

variable {program : Nat → O → Attempt M R α} {s s' : System M R O α} {callers : List (Caller O)} {caller : Caller O}

theorem Together.candid {earlier : List (Caller O)} (before : Together program earlier System.initial s)
    (together : Together program callers s s') : s'.trace.Candid := by
  obtain ⟨more, split, own⟩ := (before.append together).only
  intro e member segment request cause failed
  have served := (own e (by rw [split] at member; exact member)).2
  rw [failed] at served
  exact served.elim

end System

namespace Deployment

variable {d : Deployment M} {ρ : Conduct M R O} {program : Nat → O → Attempt M R α} {s s' : System M R O α}
  {callers earlier : List (Caller O)} {caller : Caller O}

theorem calm_of_together (before : System.Together program earlier System.initial s)
    (together : System.Together program callers s s') (lawful : Lawful (d.law ρ) s'.trace)
    (polite : ¬ρ.raw caller.operation) (still : d.oldest s'.trace = d.oldest s.trace)
    (guarded : d.oldest s'.trace = 0 ∨ s.trace.cache caller.place ≠ none ∧
      ∀ other ∈ callers, other.place = caller.place → other = caller) : d.Calm ρ caller s.trace s'.trace := by
  refine ⟨lawful, before.candid together, polite, together.le, still, guarded.imp_right ?_⟩
  rintro ⟨copied, alone⟩
  obtain ⟨more, split, own⟩ := together.only
  exact ⟨copied, more, split, fun e member here => congrArg Caller.call (alone _ (own e member).1 here)⟩

end Deployment

namespace System

variable {program : Nat → O → Attempt M R α} {s s' : System M R O α} {caller : Caller O} {answer : α}
  {past t : Trace M R O} {d : Deployment M} {ρ : Conduct M R O}

namespace Trip

variable (trip : Trip program caller s s' answer past t)

include trip

theorem recorded_eq : Trace.recorded caller (past ++ [⟨caller, .called⟩]) = {} := by
  rw [Trace.recorded_concat, Trace.recorded, Trace.own_of_fresh trip.fresh]
  rfl

theorem settled (calm : d.Calm ρ caller s.trace s'.trace)
    (settles : d.Calm ρ caller (past ++ [⟨caller, .called⟩]) t →
      d.arrears caller t = d.arrears caller (past ++ [⟨caller, .called⟩]) ∧ d.Lagging t caller.place = false) :
    (s'.trace.recorded caller).truncationRecoveries = (if d.Lagging s.trace caller.place then 1 else 0) ∧
      d.Lagging s'.trace caller.place = false := by
  have early : s.trace <+: past ++ [⟨caller, .called⟩] := trip.since.trans (List.prefix_append _ _)
  have le := trip.leads.le
  obtain ⟨same, caughtUp⟩ := settles (calm.between early le trip.idled.le)
  have called : Passed caller Deed.Forgoes s.trace (past ++ [⟨caller, .called⟩]) := by
    obtain ⟨between, rfl⟩ := trip.since
    refine ⟨between ++ [⟨caller, .called⟩], List.append_assoc _ _ _, fun e member mine => ?_⟩
    rcases List.mem_append.mp member with member | member
    · exact absurd mine (trip.fresh e (List.mem_append_right _ member))
    · rw [List.mem_singleton.mp member]
      exact fun _ _ => nofun
  have behind := (calm.between (List.prefix_refl _) early (le.trans trip.idled.le)).lagging_eq called
  have counted := Deployment.recoveries_eq (trip.idled.mono fun _ => False.elim)
  rw [Deployment.arrears, Deployment.arrears, caughtUp, behind, trip.recorded_eq] at same
  refine ⟨?_, (calm.between (early.trans le) trip.idled.le (List.prefix_refl _)).lagging_of_not caughtUp⟩
  rw [counted]
  simpa using same

end Trip

end System

end LogReplica
