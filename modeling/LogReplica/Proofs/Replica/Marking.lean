import LogReplica.Proofs.Concurrency.Course
import LogReplica.Proofs.Replica.Confinement
import LogReplica.Proofs.Replica.Linearizability

namespace LogReplica

variable {M : Model} {R T O : Type}

def Action.Moderate : Action M R → Prop
  | .ask _ request => request.KeepsMark
  | _ => True

abbrev Attempt.Moderate {α : Type} (x : Attempt M R α) : Prop := x.Confined Action.Moderate fun _ => True

theorem Action.Reads.moderate {action : Action M R} (reads : action.Reads) : action.Moderate := by
  cases action with
  | ask segment request => cases request <;> first | exact reads.elim | trivial
  | touch | generate | summarize | abort => trivial

theorem Action.OfReading.moderate {action : Action M R} (reading : action.OfReading) : action.Moderate := by
  rcases reading with reads | locks
  · exact reads.moderate
  · cases action with
    | ask => exact locks.elim
    | touch | generate | summarize | abort => trivial

theorem Attempt.Reading.moderate {α : Type} {x : Attempt M R α} (reading : x.Reading) : x.Moderate :=
  reading.mono (fun _ => Action.Reads.moderate) fun _ _ => trivial

theorem Attempt.moderate_ask {segment : SegmentId} {request : Request} (keeps : request.KeepsMark) :
    (Attempt.ask segment request : Attempt M R _).Moderate := .ask keeps fun _ => trivial

theorem keepsMark_of_forward {expected new : Option Nat} (forward : ¬Client.regresses expected new = true) :
    (Request.compareAndSetAttribute .mark (expected.map Int.ofNat) (new.map Int.ofNat)).KeepsMark := by
  refine ⟨rfl, ?_, ?_⟩
  · rintro value same
    obtain ⟨offset, _, rfl⟩ := Option.map_eq_some_iff.mp same
    exact Int.natCast_nonneg offset
  · intro old same
    obtain ⟨offset, rfl, rfl⟩ := Option.map_eq_some_iff.mp same
    cases new with
    | none => exact absurd rfl forward
    | some target =>
      simp only [Client.regresses, decide_eq_true_eq, Nat.not_lt] at forward
      exact ⟨target, rfl, Int.ofNat_le.mpr forward⟩

theorem Action.OfWriting.moderate {segment : SegmentId} {codec : Codec T} {kind : T → Prop} {action : Action M R}
    (writing : Action.OfWriting segment codec kind action) : action.Moderate := by
  cases writing with
  | reads reading => exact reading.moderate
  | swaps forward => exact keepsMark_of_forward forward
  | _ => trivial

theorem Attempt.Writing.moderate {α : Type} {c : Client T} {kind : T → Prop} {x : Attempt M R α}
    (writing : x.Writing c kind) : x.Moderate := writing.mono (fun _ => Action.OfWriting.moderate) fun _ => id

namespace Deployment

variable (d : Deployment M)

theorem program_moderate (place : Nat) (operation : Operation M) :
    (d.program place operation : Attempt M R _).Moderate := by
  have le : ∀ action : Action M R, Action.OfWriting d.segment d.codec (fun _ => True) action → action.Moderate :=
    fun _ => Action.OfWriting.moderate
  have asking : ∀ action : Action M R, action.Asks → action.Moderate := fun _ asks => asks.reads.moderate
  have latest : ((d.replica place).getRevisionedState : Attempt M R _).Moderate :=
    (d.replica place).getRevisionedState_confined.mono (fun _ => Action.OfReading.moderate) fun _ _ => trivial
  have updates : ((d.replica place).updateStateWithResult : Attempt M R R).Moderate :=
    (d.replica place).updateBy_confined le fun state => .perform trivial fun _ => trivial
  cases operation with
  | createSegment => exact .bind (.bind (Attempt.moderate_ask trivial) fun _ => .pure _) fun _ => .pure _
  | establish snapshot =>
    exact .bind (((d.replica place).establish_writing trivial).mono le fun _ => id) fun _ => .pure _
  | establishIfAbsent snapshot =>
    exact .bind (((d.replica place).establishIfAbsent_writing trivial).mono le fun _ => id) fun _ => .pure _
  | fetchUpdates =>
    exact .bind (.locked trivial trivial (d.replica place).catchUp_confined.moderate) fun _ => .pure _
  | getState => exact .bind (.bind latest fun _ => .pure _) fun _ => .pure _
  | getRevisionedState => exact .bind latest fun _ => .pure _
  | updateState => exact .bind (.bind updates fun _ => .pure _) fun _ => .pure _
  | updateStateWithResult => exact .bind updates fun _ => .pure _
  | compact =>
    have compacts : ((d.replica place).compact : Attempt M R Unit).Moderate :=
      (d.replica place).compactBy_confined le fun state => .perform trivial fun _ => trivial
    exact .bind compacts fun _ => .pure _
  | bytesSinceCompaction =>
    refine .bind (.bind (d.replica place).freshStart_confined.reading.moderate fun _ => ?_) fun _ => .pure _
    exact .bind (d.client place).fetchLatest_confined.reading.moderate fun _ => .pure _
  | close => exact .bind (.touch trivial) fun _ => .pure _
  | writeRecord latest record => exact .bind (write_within _ asking latest fun _ _ _ => trivial) fun _ => .pure _
  | writeBytes latest bytes => exact .bind (write_within _ asking latest fun _ _ _ => trivial) fun _ => .pure _
  | compareAndSetMark expected new =>
    exact .bind ((d.client place).compareAndSetMark_within asking expected new fun forward => le _ (.swaps forward))
      fun _ => .pure _
  | truncateTo start =>
    exact .bind ((d.client place).truncateTo_within asking start (le _ (.truncates _))) fun _ => .pure _

end Deployment

def Deed.swap (segment : SegmentId) (expected new : Option Int) : Deed M R :=
  .acted (.ask segment (.compareAndSetAttribute .mark expected new)) (.ok true)

def Deed.Swaps (segment : SegmentId) (deed : Deed M R) : Prop := ∃ expected new, deed = .swap segment expected new

theorem Deed.unswapping_of_reads {segment : SegmentId} {deed : Deed M R} (reads : deed.Within Action.Reads) :
    ¬deed.Swaps segment := by
  rintro ⟨expected, new, rfl⟩
  exact reads

/-- Only what is possible has happened, and nothing has unset the mark or moved it back. -/
structure Trace.Moderate (t : Trace M R O) : Prop where
  possible : t.Possible
  keeps : ∀ e ∈ t, ∀ action answer, e.deed = .acted action answer → action.Moderate

namespace Trace

variable {segment : SegmentId} {t t' past more : Trace M R O} {e : Event M R O}

theorem Moderate.of_le (moderate : t'.Moderate) (le : t <+: t') : t.Moderate :=
  ⟨moderate.possible.of_le le, fun e member => moderate.keeps e (le.subset member)⟩

theorem mark_step (possible : Trace.Possible (past ++ [e])) :
    (∃ expected new, e.deed = .swap segment expected new ∧ Trace.mark segment past = expected ∧
      Trace.mark segment (past ++ [e]) = new) ∨
    ¬e.deed.Swaps segment ∧ Trace.mark segment (past ++ [e]) = Trace.mark segment past := by
  obtain ⟨before, fits⟩ := possible.of_concat
  rw [Trace.mark, Trace.mark, World.after_concat]
  cases fits.effect (before.logs segment) with
  | landed expected entry deed _ _ _ _ mark =>
    refine .inr ⟨?_, mark⟩
    rintro ⟨_, _, same⟩
    cases deed.symm.trans same
  | truncated offset deed _ _ mark =>
    refine .inr ⟨?_, mark⟩
    rintro ⟨_, _, same⟩
    cases deed.symm.trans same
  | still quiet same =>
    refine .inr ⟨?_, congrArg (fun f : Framed => f.attributes.get? .mark) same⟩
    rintro ⟨_, _, swaps⟩
    rw [swaps] at quiet
    exact quiet rfl
  | swapped key expected new deed found _ _ mark =>
    by_cases here : key = .mark
    · subst here
      exact .inl ⟨expected, new, deed, found, mark.trans (if_pos rfl)⟩
    · refine .inr ⟨?_, mark.trans (if_neg here)⟩
      rintro ⟨_, _, same⟩
      cases deed.symm.trans same
      exact here rfl

theorem mark_swap {expected new : Option Int} (possible : Trace.Possible (past ++ [e]))
    (deed : e.deed = .swap segment expected new) :
    Trace.mark segment past = expected ∧ Trace.mark segment (past ++ [e]) = new := by
  rcases mark_step possible with ⟨_, _, same, found, left⟩ | ⟨other, _⟩
  · cases deed.symm.trans same
    exact ⟨found, left⟩
  · exact absurd ⟨expected, new, deed⟩ other

theorem mark_of_unswapped (possible : Trace.Possible (t ++ more)) (unswapped : ∀ e ∈ more, ¬e.deed.Swaps segment) :
    Trace.mark segment (t ++ more) = Trace.mark segment t := by
  induction more using List.reverseRecOn with
  | nil => rw [List.append_nil]
  | append_singleton more e ih =>
    rw [← List.append_assoc] at possible ⊢
    rcases mark_step possible with ⟨expected, new, deed, _⟩ | ⟨_, same⟩
    · exact absurd ⟨expected, new, deed⟩ (unswapped e (List.mem_append_right _ (List.mem_singleton_self e)))
    · exact same.trans (ih possible.of_concat.1 fun e' member => unswapped e' (List.mem_append_left _ member))

namespace Moderate

theorem step (moderate : Trace.Moderate (past ++ [e])) {old : Int} (marked : Trace.mark segment past = some old) :
    ∃ new, Trace.mark segment (past ++ [e]) = some new ∧ old ≤ new := by
  rcases mark_step moderate.possible with ⟨expected, new, deed, found, left⟩ | ⟨_, same⟩
  · obtain ⟨_, _, ahead⟩ := moderate.keeps e (List.mem_append_right _ (List.mem_singleton_self e)) _ _ deed
    obtain ⟨value, rfl, le⟩ := ahead old (found.symm.trans marked)
    exact ⟨value, left, le⟩
  · exact ⟨old, same.trans marked, Int.le_refl old⟩

theorem forward (moderate : t'.Moderate) (le : t <+: t') {old : Int} (marked : Trace.mark segment t = some old) :
    ∃ new, Trace.mark segment t' = some new ∧ old ≤ new := by
  obtain ⟨more, rfl⟩ := le
  induction more using List.reverseRecOn with
  | nil =>
    rw [List.append_nil]
    exact ⟨old, marked, Int.le_refl old⟩
  | append_singleton more e ih =>
    rw [← List.append_assoc] at moderate ⊢
    obtain ⟨middle, there, first⟩ := ih (moderate.of_le (List.prefix_append _ _))
    obtain ⟨new, here, second⟩ := moderate.step there
    exact ⟨new, here, Int.le_trans first second⟩

theorem nonneg (moderate : t.Moderate) {value : Int} (marked : Trace.mark segment t = some value) : 0 ≤ value := by
  induction t using List.reverseRecOn with
  | nil => cases marked
  | append_singleton past e ih =>
    rcases mark_step moderate.possible with ⟨expected, new, deed, _, left⟩ | ⟨_, same⟩
    · obtain ⟨_, natural, _⟩ := moderate.keeps e (List.mem_append_right _ (List.mem_singleton_self e)) _ _ deed
      exact natural value (left.symm.trans marked)
    · exact ih (moderate.of_le (List.prefix_append _ _)) (same.symm.trans marked)

end Moderate

theorem present_of_le (present : ((World.after t).store.get? segment).isSome = true) (le : t <+: t') :
    ((World.after t').store.get? segment).isSome = true := by
  obtain ⟨more, rfl⟩ := le
  induction more using List.reverseRecOn with
  | nil => rwa [List.append_nil]
  | append_singleton more e ih =>
    rw [← List.append_assoc, World.after_concat]
    obtain ⟨caller, deed⟩ := e
    cases deed with
    | called | failed | gaveUp => exact ih
    | acted action answer =>
      cases action with
      | ask other request => exact Store.present_serve ih other request
      | touch | generate | summarize => exact ih
      | abort => exact nomatch answer

theorem present_of_swap {expected new : Option Int} (possible : Trace.Possible (past ++ [e]))
    (deed : e.deed = .swap segment expected new) : ((World.after (past ++ [e])).store.get? segment).isSome = true := by
  obtain ⟨_, fits⟩ := possible.of_concat
  obtain ⟨caller, _⟩ := e
  subst deed
  refine present_of_le ?_ (List.prefix_append _ _)
  have reply : .ok true = (Store.serve segment (.compareAndSetAttribute .mark expected new)
    (World.after past).store).1 := fits
  simp only [Store.serve, Store.within_fst] at reply
  split at reply
  · rename_i present
    exact present
  · cases reply

/-- The place of the call was closed at an instant of it, or a request of it was not served. -/
def Denied (t : Trace M R O) (me : Caller O) : Prop :=
  (∃ now, t.Amid me now ∧ ((World.after now).memories me.place).closed = true) ∨
    ∃ e ∈ t, e.caller.call = me.call ∧ e.failure?.isSome = true

/-- What can keep a call from being told the mark; there may also have been no segment at an instant of it. -/
def Obstructed (segment : SegmentId) (t : Trace M R O) (me : Caller O) : Prop :=
  t.Denied me ∨ ∃ now, t.Amid me now ∧ (World.after now).store.get? segment = none

theorem Obstructed.mono {me : Caller O} (obstructed : t.Obstructed segment me) (le : t <+: t') :
    t'.Obstructed segment me := by
  rcases obstructed with (⟨now, amid, closed⟩ | ⟨e, member, failed⟩) | ⟨now, amid, absent⟩
  · exact .inl (.inl ⟨now, amid.mono le, closed⟩)
  · exact .inl (.inr ⟨e, le.subset member, failed⟩)
  · exact .inr ⟨now, amid.mono le, absent⟩

end Trace

namespace Client

variable (c : Client T) {fine : Trace M R O → Prop} {me : Caller O} {t : Trace M R O} {crash : Trace M R O → Prop}
  {err : CoreError → Trace M R O → Prop}

theorem compareAndSetMark_yields {expected new : Option Revision} {ok : Bool → Trace M R O → Prop}
    (crashes : ∀ t', Passed me (fun deed => ¬deed.Swaps c.segment) t t' → crash t')
    (swapped : ∀ past, Passed me (fun deed => ¬deed.Swaps c.segment) t past → ok true (past ++ [⟨me,
      .swap c.segment ((expected.map (·.offset)).map Int.ofNat) ((new.map (·.offset)).map Int.ofNat)⟩]))
    (unswapped : ∀ t', Passed me (fun deed => ¬deed.Swaps c.segment) t t' → ok false t')
    (failed : ∀ cause t', Passed me (fun deed => ¬deed.Swaps c.segment) t t' → err cause t') :
    (c.compareAndSetMark expected new).Yields fine me crash ok err t := by
  have reads : ∀ {x : Attempt M R Unit} {t₁ : Trace M R O} {ok : Unit → Trace M R O → Prop}, x.Reading →
      Passed me (fun deed => ¬deed.Swaps c.segment) t t₁ →
      (∀ t', Passed me (fun deed => ¬deed.Swaps c.segment) t t' → ok () t') →
        Attempt.Yields fine me crash ok err x t₁ := by
    intro x t₁ ok reading since goes
    have still : ∀ {t'}, Passed me (Deed.Within Action.Reads) t₁ t' →
      Passed me (fun deed => ¬deed.Swaps c.segment) t t' :=
      fun passed => since.trans (passed.mono fun _ => Deed.unswapping_of_reads)
    refine reading.yields (fun t' passed => crashes _ ((still passed).concat ?_))
      (fun _ t' passed => goes t' (still passed))
      fun cause t' passed _ => failed cause t' (still passed)
    rintro ⟨_, _, same⟩
    cases same
  refine .bind (reads ensureOpen_confined.reading (.refl t) fun t₁ went => ?_)
  refine .bind (reads (c.checkSegment?_confined expected).reading went fun t₂ went => ?_)
  refine .bind (reads (c.checkSegment?_confined new).reading went fun t₃ went => ?_)
  dsimp only
  split
  · exact .throw (failed _ t₃ went)
  · rcases markValue?_cases (expected.map (·.offset)) _ with same | ⟨offset, same⟩ <;> rw [same]
    · rcases markValue?_cases (new.map (·.offset)) _ with same | ⟨offset, same⟩ <;> rw [same]
      · refine .ask (fun answer past idled _ => ?_) fun cause deed past idled outcome _ => failed _ _ ?_
        · cases answer with
          | true => exact swapped past (went.trans idled.of_idled)
          | false =>
            refine unswapped _ (went.trans (idled.step ?_))
            rintro ⟨_, _, same⟩
            cases same
        · refine went.trans (idled.step ?_)
          rintro ⟨_, _, rfl⟩
          cases outcome
      · exact .throw (failed _ t₃ went)
    · exact .throw (failed _ t₃ went)

theorem getMark_yields {ok : Option Revision → Trace M R O → Prop} (called : ⟨me, .called⟩ ∈ t)
    (got : ∀ (position : Option Nat) (t' now : Trace M R O), t <+: now → t'.Amid me now →
      Trace.mark c.segment now = position.map Int.ofNat →
      ok (position.map fun offset => ⟨c.segment, offset, 0⟩) t')
    (obstructed : ∀ cause (t' : Trace M R O), t <+: t' → t'.Obstructed c.segment me → err cause t') :
    Attempt.Yields Trace.Moderate me crash ok err c.getMark t := by
  have amid : ∀ {past : Trace M R O} {deed : Deed M R}, t <+: past → Trace.Amid (past ++ [⟨me, deed⟩]) me past :=
    fun since =>
    ⟨since.subset called, _, rfl, _, List.mem_singleton_self _, rfl⟩
  unfold getMark ensureOpen
  refine .bind (.bind (.touch (x := .isClosed) fun closed past idled moderate => ?_))
  have since : t <+: past ++ [⟨me, .acted (.touch .isClosed) closed⟩] := idled.le.trans (List.prefix_append _ _)
  cases closed with
  | true =>
    have shut : true = ((World.after past).memories me.place).closed := moderate.possible.of_concat.2.2
    exact .throw (obstructed _ _ since (.inl (.inl ⟨past, amid idled.le, shut.symm⟩)))
  | false =>
    refine .pure (.bind (.ask (fun value past' idled' moderate => ?_) fun cause deed past' idled' outcome moderate =>
      ?_))
    · have before := since.trans idled'.le
      obtain ⟨possible, fits⟩ := moderate.possible.of_concat
      obtain rfl : value = Trace.mark c.segment past' := Store.Logs.getMark fits.symm
      cases marked : Trace.mark c.segment past' with
      | none => exact .pure (got none _ past' before (amid before) marked)
      | some value =>
        obtain ⟨offset, rfl⟩ := Int.eq_ofNat_of_zero_le ((moderate.of_le (List.prefix_append _ _)).nonneg marked)
        exact .pure (got (some offset) _ past' before (amid before) marked)
    · have before := since.trans idled'.le
      refine obstructed _ _ (before.trans (List.prefix_append _ _)) ?_
      cases outcome with
      | failed => exact .inl (.inr ⟨_, List.mem_append_right _ (List.mem_singleton_self _), rfl, rfl⟩)
      | acted =>
        obtain ⟨possible, fits⟩ := moderate.possible.of_concat
        refine .inr ⟨past', amid before, ?_⟩
        cases (possible.logs c.segment).refused fits.symm with
        | absent _ none => exact none

end Client

inductive Inquiry (M : Model) where
  | getMark
  | other (operation : Operation M)

namespace Deployment

variable {d : Deployment M}

variable (d) in
def inquire (place : Nat) : Inquiry M → Attempt M R (Result M R)
  | .getMark => do
    let mark ← (d.client place).getMark
    pure (.revision mark)
  | .other operation => d.program place operation

theorem inquire_confined (place : Nat) (inquiry : Inquiry M) : (d.inquire place inquiry : Attempt M R _).run.Confined
    (fun action => action.Moderate ∧ (inquiry = .getMark → action.Reads)) fun _ => True := by
  cases inquiry with
  | getMark =>
    have reading : (d.inquire place .getMark : Attempt M R _).Reading :=
      .bind (d.client place).getMark_confined.reading fun _ => .pure _
    exact Procedure.Confined.mono reading (fun _ reads => ⟨reads.moderate, fun _ => reads⟩) fun _ _ => trivial
  | other operation =>
    refine Procedure.Confined.mono (d.program_moderate place operation) (fun _ moderate => ⟨moderate, ?_⟩) fun _ _ =>
      trivial
    exact fun same => by cases same

/-- What is known of the mark of a segment. -/
structure Marked (d : Deployment M) (s : System M R (Inquiry M) (Result M R)) : Prop where
  /-- Once set it is never unset, and never moves back. -/
  forward : ∀ past now, past <+: now → now <+: s.trace → ∀ old, d.mark past = some old →
    ∃ new, d.mark now = some new ∧ old ≤ new
  /-- Only a swap changes it. -/
  still : ∀ past more, past ++ more <+: s.trace → (∀ e ∈ more, ¬e.deed.Swaps d.segment) →
    d.mark (past ++ more) = d.mark past
  /-- A call that says that it has changed the mark has done so once, from what it expected to what it asked for. -/
  swapped : ∀ (caller : Caller (Inquiry M)) expected new, caller.operation = .other (.compareAndSetMark expected new) →
    s.Returned caller (.ok (.flag true)) → ∃ past e after, s.trace = past ++ e :: after ∧ e.caller = caller ∧
      e.deed = .swap d.segment ((expected.map (·.offset)).map Int.ofNat) ((new.map (·.offset)).map Int.ofNat) ∧
      d.mark past = (expected.map (·.offset)).map Int.ofNat ∧
        d.mark (past ++ [e]) = (new.map (·.offset)).map Int.ofNat ∧
      ∀ x ∈ past ++ after, x.caller.call = caller.call → ¬x.deed.Swaps d.segment
  /-- If it says anything else, none of its steps has changed the mark. -/
  unswapped : ∀ (caller : Caller (Inquiry M)) expected new result,
    caller.operation = .other (.compareAndSetMark expected new) →
    s.Returned caller result → result ≠ .ok (.flag true) → ∀ past e after, s.trace = past ++ e :: after →
      e.caller.call = caller.call → d.mark (past ++ [e]) = d.mark past
  /-- Whoever asks is told what the mark was at an instant of the call, or fails since something is in the way. -/
  told : ∀ (asker : Caller (Inquiry M)) result, asker.operation = .getMark → s.Returned asker result →
    (∃ cause, result = .error cause ∧ s.trace.Obstructed d.segment asker) ∨
    ∃ (position : Option Nat) (now : Trace M R (Inquiry M)),
      s.trace.Amid asker now ∧
      d.mark now = position.map Int.ofNat ∧ result = .ok (.revision (position.map fun offset => ⟨d.segment, offset, 0⟩))
  /-- From a swap on, whoever asks is told just what it has set, or is denied an answer, until there is another swap. -/
  lasts : ∀ past e now later expected (new : Option Nat) (asker : Caller (Inquiry M)) result,
    s.trace = past ++ e :: (now ++ later) → e.deed = .swap d.segment expected (new.map Int.ofNat) →
    (∀ x ∈ now, ¬x.deed.Swaps d.segment) → asker.operation = .getMark → ⟨asker, .called⟩ ∈ now →
    (∀ x ∈ later, x.caller.call ≠ asker.call) → s.Returned asker result →
    (∃ cause, result = .error cause ∧ s.trace.Denied asker) ∨
    result = .ok (.revision (new.map fun offset => ⟨d.segment, offset, 0⟩))
  /-- A question is answered by its own steps, whatever others do. -/
  answered : ∀ (asker : Caller (Inquiry M)) rest, asker.operation = .getMark → s.calls asker.call = some ⟨asker, rest⟩ →
    ∃ s' result, s.Steps d.inquire s' ∧ s'.Returned asker result ∧
      ∃ more, s'.trace = s.trace ++ more ∧ ∀ e ∈ more, e.caller = asker ∧ ¬e.deed.Swaps d.segment

section Marking

variable {s : System M R (Inquiry M) (Result M R)} (reachable : s.Reachable d.inquire)

include reachable

theorem moderate_of_reachable : s.trace.Moderate :=
  ⟨System.possible_of_reachable reachable, fun e member action answer deed =>
    ((System.confined_of_reachable inquire_confined reachable).1 e member action answer deed).1⟩

theorem settled_of_returned {caller : Caller (Inquiry M)} {expected new : Option Revision}
    {result : Except CoreError (Result M R)}
    (operation : caller.operation = .other (.compareAndSetMark expected new)) (returned : s.Returned caller result) :
    (result ≠ .ok (.flag true) ∧ ∀ e ∈ s.trace, e.caller.call = caller.call → ¬e.deed.Swaps d.segment) ∨
    (result = .ok (.flag true) ∧ ∃ past after, s.trace = past ++ ⟨caller,
        .swap d.segment ((expected.map (·.offset)).map Int.ofNat) ((new.map (·.offset)).map Int.ofNat)⟩ :: after ∧
      ∀ e ∈ past ++ after, e.caller.call = caller.call → ¬e.deed.Swaps d.segment) := by
  let swap : Deed M R := .swap d.segment ((expected.map (·.offset)).map Int.ofNat) ((new.map (·.offset)).map Int.ofNat)
  let post (result : Except CoreError (Result M R)) (t : Trace M R (Inquiry M)) : Prop :=
    (result ≠ .ok (.flag true) ∧ ∀ e ∈ t, e.caller.call = caller.call → ¬e.deed.Swaps d.segment) ∨
      (result = .ok (.flag true) ∧ ∃ past, t = past ++ [⟨caller, swap⟩] ∧
        ∀ e ∈ past, e.caller.call = caller.call → ¬e.deed.Swaps d.segment)
  obtain ⟨t, idled, settled⟩ := System.yielded_of_reachable (fun _ => True) post reachable returned
    (fun _ _ => trivial) trivial
    fun past fresh _ => by
      have own : ∀ t', Passed caller (fun deed => ¬deed.Swaps d.segment) (past ++ [⟨caller, .called⟩]) t' →
          ∀ e ∈ t', e.caller.call = caller.call → ¬e.deed.Swaps d.segment := fun t' passed e member mine => by
        rcases Passed.deeds_of_fresh fresh passed e member mine with called | still
        · rintro ⟨_, _, same⟩
          cases called.symm.trans same
        · exact still
      have unswapped : ∀ {result} t', result ≠ .ok (.flag true) →
          Passed caller (fun deed => ¬deed.Swaps d.segment) (past ++ [⟨caller, .called⟩]) t' → post result t' :=
        fun t' other passed => .inl ⟨other, own t' passed⟩
      rw [operation]
      refine Attempt.Yields.run (.bind ((d.client caller.place).compareAndSetMark_yields ?_ ?_ ?_ ?_))
      · exact fun t' passed => unswapped t' nofun passed
      · exact fun past' passed => .pure (.inr ⟨rfl, past', rfl, own past' passed⟩)
      · exact fun t' passed => .pure (unswapped t' nofun passed)
      · exact fun cause t' passed => unswapped t' nofun passed
  obtain ⟨after, whole, idle⟩ := idled
  rcases settled with ⟨other, own⟩ | ⟨done, past, rfl, own⟩
  · refine .inl ⟨other, fun e member mine => ?_⟩
    rw [whole] at member
    exact (List.mem_append.mp member).elim (fun member => own e member mine) fun member => (idle e member mine).elim
  · refine .inr ⟨done, past, after, by rw [whole]; simp [swap], fun e member mine => ?_⟩
    exact (List.mem_append.mp member).elim (fun member => own e member mine) fun member => (idle e member mine).elim

theorem told_of_returned {asker : Caller (Inquiry M)} {result : Except CoreError (Result M R)}
    (operation : asker.operation = .getMark) (returned : s.Returned asker result) :
    (∃ cause, result = .error cause ∧ s.trace.Obstructed d.segment asker) ∨
    ∃ (position : Option Nat) (now : Trace M R (Inquiry M)), s.trace.Amid asker now ∧
      d.mark now = position.map Int.ofNat ∧
      result = .ok (.revision (position.map fun offset => ⟨d.segment, offset, 0⟩)) := by
  let post (result : Except CoreError (Result M R)) (t : Trace M R (Inquiry M)) : Prop :=
    (∃ cause, result = .error cause ∧ t.Obstructed d.segment asker) ∨
    ∃ (position : Option Nat) (now : Trace M R (Inquiry M)), t.Amid asker now ∧ d.mark now = position.map Int.ofNat ∧
      result = .ok (.revision (position.map fun offset => ⟨d.segment, offset, 0⟩))
  obtain ⟨t, idled, told⟩ := System.yielded_of_reachable Trace.Moderate post reachable returned
    (fun le moderate => moderate.of_le le)
    (moderate_of_reachable reachable) fun past fresh _ => by
      rw [operation]
      have called : (⟨asker, .called⟩ : Event M R (Inquiry M)) ∈ past ++ [⟨asker, .called⟩] := by simp
      refine Attempt.Yields.run (.bind ((d.client asker.place).getMark_yields called ?_ ?_))
      · exact fun position t' now _ amid found => .pure (.inr ⟨position, now, amid, found, rfl⟩)
      · exact fun cause t' _ obstructed => .inl ⟨cause, rfl, obstructed⟩
  rcases told with ⟨cause, failed, obstructed⟩ | ⟨position, now, amid, found⟩
  · exact .inl ⟨cause, failed, obstructed.mono idled.le⟩
  · exact .inr ⟨position, now, amid.mono idled.le, found⟩

theorem last_of_returned {past now later : Trace M R (Inquiry M)} {e : Event M R (Inquiry M)} {expected : Option Int}
    {new : Option Nat} {asker : Caller (Inquiry M)} {result : Except CoreError (Result M R)}
    (split : s.trace = past ++ e :: (now ++ later)) (deed : e.deed = .swap d.segment expected (new.map Int.ofNat))
    (last : ∀ x ∈ now, ¬x.deed.Swaps d.segment) (operation : asker.operation = .getMark)
    (called : ⟨asker, .called⟩ ∈ now) (finished : ∀ x ∈ later, x.caller.call ≠ asker.call)
    (returned : s.Returned asker result) :
    (∃ cause, result = .error cause ∧ s.trace.Denied asker) ∨
    result = .ok (.revision (new.map fun offset => ⟨d.segment, offset, 0⟩)) := by
  have possible := System.possible_of_reachable reachable
  have split : s.trace = past ++ [e] ++ now ++ later := by simp [split]
  have swapped : past ++ [e] <+: s.trace := ⟨now ++ later, by simp [split]⟩
  have uncalled : ⟨asker, .called⟩ ∉ past ++ [e] := by
    obtain ⟨before, after, rfl⟩ := List.append_of_mem called
    intro early
    have whole : s.trace = (past ++ [e] ++ before) ++ ⟨asker, .called⟩ :: (after ++ later) := by simp [split]
    exact System.fresh_of_called reachable whole _ (List.mem_append_left before early) rfl
  -- Each instant of the question is after the swap, and before whatever comes once it is answered.
  have between : ∀ instant, s.trace.Amid asker instant → ∃ more, instant = past ++ [e] ++ more ∧ more <+: now := by
    intro instant amid
    obtain ⟨more, rfl⟩ := amid.le_of_uncalled swapped uncalled
    exact ⟨more, rfl, (List.prefix_append_right_inj _).mp (amid.le_of_finished split finished)⟩
  rcases told_of_returned reachable operation returned with
    ⟨cause, failed, denied | ⟨instant, amid, absent⟩⟩ | ⟨position, instant, amid, found, told⟩
  · exact .inl ⟨cause, failed, denied⟩
  · obtain ⟨more, rfl, _⟩ := between instant amid
    have present := Trace.present_of_le (Trace.present_of_swap (possible.of_le swapped) deed)
      (List.prefix_append _ more)
    rw [absent] at present
    cases present
  · obtain ⟨more, rfl, le⟩ := between instant amid
    have same : position = new := by
      refine Option.map_injective (fun _ _ => Int.ofNat.inj) (found.symm.trans ?_)
      rw [mark, Trace.mark_of_unswapped (possible.of_le amid.le) fun x member => last x (le.subset member)]
      exact (Trace.mark_swap (possible.of_le swapped) deed).2
    exact .inr (same ▸ told)

/-- Whatever clients and replicas do to the mark, and however they are interleaved, it moves forward only, a change that
was made has found what it expected, and until the next one whoever asks is told what it has set. -/
theorem mark_exact : d.Marked s := by
  have moderate := moderate_of_reachable reachable
  refine ⟨?_, ?_, ?_, ?_, ?_, ?_, ?_⟩
  · exact fun past now le by_ old marked => (moderate.of_le by_).forward le marked
  · exact fun past more le unswapped => Trace.mark_of_unswapped (moderate.possible.of_le le) unswapped
  · intro caller expected new operation returned
    rcases settled_of_returned reachable operation returned with ⟨other, _⟩ | ⟨_, past, after, split, own⟩
    · exact absurd rfl other
    · rw [List.append_cons] at split
      obtain ⟨found, left⟩ := Trace.mark_swap (moderate.possible.of_le ⟨after, split.symm⟩) rfl
      rw [← List.append_cons] at split
      exact ⟨past, _, after, split, rfl, rfl, found, left, own⟩
  · intro caller expected new result operation returned other past e after split mine
    have unswapped : ¬e.deed.Swaps d.segment := by
      rcases settled_of_returned reachable operation returned with ⟨_, own⟩ | ⟨done, _⟩
      · exact own e (by simp [split]) mine
      · exact absurd done other
    refine Trace.mark_of_unswapped (moderate.possible.of_le ⟨after, by simp [split]⟩) fun x member => ?_
    rw [List.mem_singleton.mp member]
    exact unswapped
  · exact fun asker result operation returned => told_of_returned reachable operation returned
  · intro past e now later expected new asker result split deed last operation called finished returned
    exact last_of_returned reachable split deed last operation called finished returned
  · intro asker rest operation here
    have goes := (System.confined_of_reachable inquire_confined reachable).2 asker.call _ here
    have proceeds : ∀ action : Action M R, action.Moderate ∧ (asker.operation = .getMark → action.Reads) →
      action.Proceeds := by
      rintro action ⟨_, reads⟩
      have reads := reads operation
      cases action with
      | ask | abort => trivial
      | generate | summarize => exact reads
      | touch x => cases x <;> first | exact reads.elim | rfl
    obtain ⟨s', result, steps, returned, more, trace, own⟩ := System.exists_returned d.inquire proceeds here goes
    refine ⟨s', result, steps, returned, more, trace, fun e member => ⟨(own e member).1, ?_⟩⟩
    rintro ⟨_, _, deed⟩
    have acts := (own e member).2
    rw [deed] at acts
    exact acts.2 operation

end Marking

def playInquiries (schedule : List (Move (Inquiry Model.bytes))) :
    System Model.bytes Unit (Inquiry Model.bytes) (Result Model.bytes Unit) :=
  (System.Stage.initial.play ofBytes.inquire (fun _ => ([[2]], ())) id schedule).system

theorem reachable_playInquiries (schedule : List (Move (Inquiry Model.bytes))) :
    (playInquiries schedule).Reachable ofBytes.inquire := (System.Stage.fair_initial.play schedule).steps

def loser : Caller (Inquiry Model.bytes) := ⟨2, 1, .other (.compareAndSetMark none (some ⟨ofBytes.segment, 6, 0⟩))⟩

def mover : Caller (Inquiry Model.bytes) :=
  ⟨4, 1, .other (.compareAndSetMark (some ⟨ofBytes.segment, 6, 0⟩) (some ⟨ofBytes.segment, 20, 0⟩))⟩

def curious : Caller (Inquiry Model.bytes) := ⟨5, 2, .getMark⟩

/-- A change of the mark that loses the race, one that is made, one that would unset it, and a question meanwhile. -/
def contested : List (Move (Inquiry Model.bytes)) := List.flatten [
  Move.run ⟨0, 0, .other .createSegment⟩ 1,
  Move.run ⟨1, 0, .other (.establish [1])⟩ 12,
  Move.run loser 1,
  Move.run ⟨3, 0, .other .compact⟩ 45,
  Move.steps loser.call 1,
  Move.run mover 3,
  Move.run curious 1,
  Move.run ⟨6, 1, .other (.compareAndSetMark (some ⟨ofBytes.segment, 20, 0⟩) none)⟩ 3,
  Move.steps curious.call 1]

def flagged (place : Nat) (expected new : Option Revision) (flag : Bool) :
    Call Model.bytes Unit (Inquiry Model.bytes) (Result Model.bytes Unit) → Bool
  | ⟨⟨_, here, .other (.compareAndSetMark old next)⟩, .done (.ok (.flag given))⟩ =>
    decide (here = place ∧ old = expected ∧ next = new ∧ given = flag)
  | _ => false

def informed (place : Nat) (mark : Option Revision) : Call Model.bytes Unit (Inquiry Model.bytes)
    (Result Model.bytes Unit) → Bool
  | ⟨⟨_, here, .getMark⟩, .done (.ok (.revision given))⟩ => decide (here = place ∧ given = mark)
  | _ => false

theorem returned_of_flagged {schedule : List (Move (Inquiry Model.bytes))} {id place : Nat}
    {expected new : Option Revision}
    {flag : Bool} (checked : ((playInquiries schedule).calls id).any (flagged place expected new flag) = true) :
    (playInquiries schedule).Returned ⟨id, place, .other (.compareAndSetMark expected new)⟩ (.ok (.flag flag)) := by
  refine System.returned_of_any (reachable_playInquiries schedule) (flagged place expected new flag)
    (fun call checked => ?_) checked
  unfold flagged at checked
  split at checked
  · obtain ⟨rfl, rfl, rfl, rfl⟩ := of_decide_eq_true checked
    exact ⟨rfl, rfl, rfl⟩
  · cases checked

theorem contested_marked : (playInquiries contested).Reachable ofBytes.inquire ∧
    ofBytes.Marked (playInquiries contested) ∧
    (playInquiries contested).Returned loser (.ok (.flag false)) ∧
    (playInquiries contested).Returned mover (.ok (.flag true)) ∧
    (playInquiries contested).Returned curious (.ok (.revision (some ⟨ofBytes.segment, 20, 0⟩))) ∧
    ofBytes.mark (playInquiries contested).trace = some 20 := by
  have reachable := reachable_playInquiries contested
  have told : (playInquiries contested).Returned curious (.ok (.revision (some ⟨ofBytes.segment, 20, 0⟩))) := by
    refine System.returned_of_any reachable (informed 2 (some ⟨ofBytes.segment, 20, 0⟩)) (fun call checked => ?_)
      (by decide +kernel)
    unfold informed at checked
    split at checked
    · obtain ⟨here, rfl⟩ := of_decide_eq_true checked
      exact ⟨here, rfl, rfl⟩
    · cases checked
  refine ⟨reachable, mark_exact reachable, returned_of_flagged ?_, returned_of_flagged ?_, told, ?_⟩ <;> decide +kernel

end Deployment

end LogReplica
