import LogReplica.Proofs.Concurrency.Yield
import LogReplica.Proofs.Replica.Blame

namespace LogReplica

variable {M : Model} {R O : Type}

/-- A deed that does not keep a call from going on: no request that was refused, and no place that is closed. -/
def Deed.Serves : Deed M R → Prop
  | .failed .. => False
  | .acted (.ask _ _) (.error _) => False
  | .acted (.touch .isClosed) closed => closed = false
  | _ => True

def Trace.Unhindered (me : Caller O) (start t : Trace M R O) : Prop :=
  ∀ more, t = start ++ more → ∀ e ∈ more, e.caller.call = me.call → e.deed.Serves

theorem Trace.Unhindered.of_le {me : Caller O} {start t past : Trace M R O} (fine : Trace.Unhindered me start t)
    (le : past <+: t) : Trace.Unhindered me start past := by
  rintro more rfl e member mine
  obtain ⟨rest, rfl⟩ := le
  exact fine (more ++ rest) (List.append_assoc _ _ _) e (List.mem_append_left _ member) mine

theorem Trace.Unhindered.last {me : Caller O} {start past : Trace M R O} {deed : Deed M R}
    (fine : Trace.Unhindered me start (past ++ [⟨me, deed⟩])) (le : start <+: past) : deed.Serves := by
  obtain ⟨more, rfl⟩ := le
  exact fine (more ++ [⟨me, deed⟩]) (List.append_assoc _ _ _) ⟨me, deed⟩ (by simp) rfl

namespace Deployment

variable {d : Deployment M} {ρ : Conduct M R O} {me : Caller O} {start t : Trace M R O}
  {crash : Trace M R O → Prop} {err : CoreError → Trace M R O → Prop}

variable (d ρ me) in
def Untroubled (start t : Trace M R O) : Prop := Lawful (d.law ρ) t ∧ Trace.Unhindered me start t

theorem ensureOpen_untroubled {ok : Unit → Trace M R O → Prop} (since : start <+: t)
    (opened : ∀ t', t <+: t' → ok () t') :
    Attempt.Yields (d.Untroubled ρ me start) me crash ok err Client.ensureOpen t := by
  unfold Client.ensureOpen
  refine .bind (.touch fun answer past idled fine => ?_)
  have serves : answer = false := fine.2.last (since.trans idled.le)
  subst serves
  exact .pure (opened _ (idled.le.trans (List.prefix_append _ _)))

theorem ask_untroubled {request : Request} {ok : request.Answer → Trace M R O → Prop} (since : start <+: t)
    (served : ∀ answer past t', past <+: t' → t <+: past →
      t' = past ++ [⟨me, .acted (.ask d.segment request) (.ok answer)⟩] → Lawful (d.law ρ) t' → ok answer t') :
    Attempt.Yields (d.Untroubled ρ me start) me crash ok err (Attempt.ask d.segment request) t := by
  refine .ask (fun answer past idled fine => served answer past _ (List.prefix_append _ _) idled.le rfl fine.1) ?_
  intro cause deed past idled outcome fine
  have serves := fine.2.last (since.trans idled.le)
  cases outcome <;> exact serves.elim

theorem locked_untroubled {α : Type} {body : Attempt M R α} {ok : α → Trace M R O → Prop}
    (inside : ∀ t', t <+: t' → Attempt.Yields (d.Untroubled ρ me start) me crash
      (fun a t' => ∀ left, t' <+: left → ok a left) (fun cause t' => ∀ left, t' <+: left → err cause left) body t') :
    Attempt.Yields (d.Untroubled ρ me start) me crash ok err (Attempt.locked body) t := by
  refine .locked fun past idled _ => Procedure.Yields.mono (inside _ (idled.le_concat _)) fun result t' promised => ?_
  cases result with
  | ok a => exact fun left leaves _ => promised _ (leaves.le_concat _)
  | error cause => exact fun left leaves _ => promised _ (leaves.le_concat _)

theorem fetchOldest_untroubled (place : Nat) {ok : Revision → Trace M R O → Prop} (since : start <+: t)
    (fetched : ∀ t', t <+: t' → Lawful (d.law ρ) t' → ok ⟨d.segment, d.oldest t', 0⟩ t') :
    Attempt.Yields (d.Untroubled ρ me start) me crash ok err (d.client place).fetchOldest t := by
  unfold Client.fetchOldest
  refine .bind (ensureOpen_untroubled since fun t₁ le₁ => .bind (ask_untroubled (since.trans le₁) ?_))
  intro oldest past t' short le same lawful
  have goes := fetched t' (le₁.trans (le.trans short)) lawful
  subst same
  obtain ⟨_, fits, _⟩ := lawful.of_concat
  obtain ⟨_, buffer⟩ := lawful.still_of_quiet d.segment trivial
  have found : oldest = d.oldest _ := (Store.Logs.oldestOffset fits.symm).trans (congrArg Framed.start buffer.symm)
  rw [← found] at goes
  exact .pure goes

theorem fetchLatest_untroubled (place : Nat) {ok : Revision → Trace M R O → Prop} (since : start <+: t)
    (fetched : ∀ t', t <+: t' → Lawful (d.law ρ) t' → ok ⟨d.segment, ending 0 (d.log t'), 0⟩ t') :
    Attempt.Yields (d.Untroubled ρ me start) me crash ok err (d.client place).fetchLatest t := by
  unfold Client.fetchLatest
  refine .bind (ensureOpen_untroubled since fun t₁ le₁ => .bind (ask_untroubled (since.trans le₁) ?_))
  intro tail past t' short le same lawful
  have goes := fetched t' (le₁.trans (le.trans short)) lawful
  subst same
  obtain ⟨before, fits, _⟩ := lawful.of_concat
  obtain ⟨log, _⟩ := lawful.still_of_quiet d.segment trivial
  have found : tail = ending 0 (d.log _) := (before.logs d.segment).tailOffset fits.symm
  rw [Deployment.log, log, ← Deployment.log, ← found] at goes
  exact .pure goes

theorem writeConditionally_untroubled (place : Nat) {position : Nat} {record : M.Record} {bytes : Bytes}
    (encoded : d.codec.encode record = .ok bytes) {ok : Option Revision → Trace M R O → Prop} (since : start <+: t)
    (landed : ∀ revision t', t <+: t' → d.log t' ≠ [] → ok (some revision) t')
    (conflict : ∀ t', t <+: t' → Lawful (d.law ρ) t' → position ≠ ending 0 (d.log t') → ok none t') :
    Attempt.Yields (d.Untroubled ρ me start) me crash ok err
      ((d.client place).writeConditionally ⟨d.segment, position, 0⟩ record) t := by
  have here : (⟨d.segment, position, 0⟩ : Revision).segment = (d.client place).segment := rfl
  unfold Client.writeConditionally Client.encode
  rw [Client.checkSegment, if_pos here, show (d.client place).codec.encode record = .ok bytes from encoded]
  refine .bind (ensureOpen_untroubled since fun t₁ le₁ => .bind (.pure (.bind (.pure ?_))))
  refine .bind (ask_untroubled (since.trans le₁) ?_)
  intro answer past t' short le same lawful
  have le := le₁.trans (le.trans short)
  cases answer with
  | appended offset endOffset =>
    refine .pure (landed _ t' le ?_)
    rw [same, log_concat]
    simp [Event.landed?]
  | conflict tail =>
    refine .pure (conflict t' le lawful ?_)
    subst same
    obtain ⟨before, fits, _⟩ := lawful.of_concat
    obtain ⟨log, _⟩ := lawful.still_of_quiet d.segment trivial
    rw [Deployment.log, log]
    exact (before.logs d.segment).conflict fits.symm

end Deployment

end LogReplica
