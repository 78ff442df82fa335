import LogReplica.Proofs.Concurrency.Duty
import LogReplica.Proofs.Set.Linearizability

namespace LogReplica

variable {M : Model} {R O : Type}

def Action.Counts : Action M R → Prop
  | .touch .lockRemovals | .touch .unlockRemovals | .touch .removalsLeft | .touch (.setRemovalsLeft _) => True
  | _ => False

theorem Action.OfWriting.not_counts {T : Type} {segment : SegmentId} {codec : Codec T} {kind : T → Prop}
    {action : Action M R} (writing : action.OfWriting segment codec kind) : ¬action.Counts := by
  cases writing with
  | appends | swaps | truncates | tallies | sleeps => exact id
  | reads reading =>
    cases action with
    | touch x => cases x <;> first | exact (reading.elim id id).elim | exact id
    | _ => exact id

def Deed.Ticks : Deed M R → Prop
  | .acted (.touch .lockRemovals) _ | .acted (.touch (.setRemovalsLeft _)) _ => True
  | _ => False

theorem Deed.not_ticks_of_within {deed : Deed M R} (within : deed.Within fun action => ¬action.Counts) :
    ¬deed.Ticks := by
  cases deed with
  | called | failed | gaveUp => exact id
  | acted action answer =>
    cases action with
    | ask | generate | summarize => exact id
    | abort => cases answer
    | touch x => cases x <;> first | exact id | exact absurd trivial within

theorem Deed.leaves_of_not_counts {deed : Deed M R} (within : deed.Within fun action => ¬action.Counts) :
    deed.Leaves .removals := by
  cases deed with
  | called | gaveUp => exact within.elim
  | failed => trivial
  | acted action answer =>
    cases action with
    | ask | generate | summarize => trivial
    | abort => cases answer
    | touch x => cases x <;> first | exact absurd trivial within | (constructor <;> rintro ⟨⟩)

def Deed.isRemoval : Deed M R → Bool
  | .acted (.touch .lockRemovals) _ => true
  | _ => false

def Deed.Renews : Deed M R → Prop
  | .acted (.touch (.setRemovalsLeft left)) _ => left = ReplicatedSet.removalsBeforeCompaction
  | _ => False

theorem Deed.eq_of_isRemoval {deed : Deed M R} (removal : deed.isRemoval = true) :
    deed = .acted (.touch .lockRemovals) () := by
  unfold Deed.isRemoval at removal
  split at removal
  · rfl
  · cases removal

theorem Deed.eq_of_renews {deed : Deed M R} (renews : deed.Renews) :
    deed = .acted (.touch (.setRemovalsLeft ReplicatedSet.removalsBeforeCompaction)) () := by
  unfold Deed.Renews at renews
  split at renews
  · rw [renews]
  · exact renews.elim

def Deed.removals (n : Nat) : Deed M R → Nat
  | .acted (.touch .lockRemovals) _ => n + 1
  | .acted (.touch (.setRemovalsLeft left)) _ => if left = ReplicatedSet.removalsBeforeCompaction then 0 else n
  | _ => n

theorem Deed.removals_le (n : Nat) (deed : Deed M R) : deed.removals n ≤ n + deed.isRemoval.toNat := by
  unfold Deed.removals
  split
  · exact Nat.le_refl _
  · split <;> omega
  · omega

theorem Deed.le_removals (n : Nat) {deed : Deed M R} (keeps : ¬deed.Renews) : n ≤ deed.removals n := by
  unfold Deed.removals
  split
  · omega
  · exact (if_neg keeps).ge
  · exact Nat.le_refl _

namespace Trace

/-- How many removals have been counted at a place since its set was opened, or its count was set back. -/
def removals (t : Trace M R O) (place : Nat) : Nat := t.gather (fun c => c.place = place) Deed.removals 0

def removalsLeft (t : Trace M R O) (place : Nat) : Nat := ((World.after t).memories place).removalsLeft

/-- What is left of the count is what the removals so far have left of it. -/
def CountsDown (t : Trace M R O) (place : Nat) : Prop :=
  t.removalsLeft place = ReplicatedSet.removalsBeforeCompaction - t.removals place

variable {t : Trace M R O} {e : Event M R O} {place : Nat}

theorem removals_concat (here : e.caller.place = place) :
    Trace.removals (t ++ [e]) place = e.deed.removals (t.removals place) := gather_concat here

theorem removals_elsewhere (other : e.caller.place ≠ place) :
    Trace.removals (t ++ [e]) place = t.removals place := gather_of_other other

theorem removals_append_le (t more : Trace M R O) (place : Nat) : Trace.removals (t ++ more) place ≤
    t.removals place + more.countP fun e => decide (e.caller.place = place) && e.deed.isRemoval := by
  induction more using List.reverseRecOn with
  | nil => rw [List.append_nil]; exact Nat.le_add_right _ _
  | append_singleton more e ih =>
    rw [← List.append_assoc, List.countP_append, List.countP_singleton]
    by_cases here : e.caller.place = place
    · have step := e.deed.removals_le (Trace.removals (t ++ more) place)
      rw [removals_concat here]
      cases removal : e.deed.isRemoval <;> simp [removal, here] at step ⊢ <;> omega
    · rw [removals_elsewhere here]
      exact ih.trans (by omega)

theorem le_removals_append (t : Trace M R O) {more : Trace M R O}
    (keeps : ∀ e ∈ more, e.caller.place = place → ¬e.deed.Renews) :
    t.removals place ≤ Trace.removals (t ++ more) place := by
  induction more using List.reverseRecOn with
  | nil => rw [List.append_nil]
  | append_singleton more e ih =>
    have ih := ih fun e' member => keeps e' (List.mem_append_left _ member)
    rw [← List.append_assoc]
    by_cases here : e.caller.place = place
    · rw [removals_concat here]
      exact ih.trans (Deed.le_removals _ (keeps e (List.mem_append_right _ (List.mem_singleton_self e)) here))
    · rwa [removals_elsewhere here]

theorem counter_concat (still : e.caller.place = place → ¬e.deed.Ticks) :
    Trace.removals (t ++ [e]) place = t.removals place ∧
      Trace.removalsLeft (t ++ [e]) place = t.removalsLeft place := by
  rw [removalsLeft, World.after_concat]
  obtain ⟨caller, deed⟩ := e
  by_cases here : caller.place = place
  · subst here
    rw [removals_concat rfl]
    have still := still rfl
    cases deed with
    | called | failed | gaveUp => exact ⟨rfl, rfl⟩
    | acted action answer =>
      cases action with
      | ask | generate | summarize => exact ⟨rfl, rfl⟩
      | abort => cases answer
      | touch x =>
        simp only [World.note, World.touch, Function.update_self]
        cases x <;> first | exact ⟨rfl, rfl⟩ | exact absurd trivial still
  · refine ⟨removals_elsewhere here, ?_⟩
    cases deed with
    | called | failed | gaveUp => rfl
    | acted action answer =>
      cases action with
      | ask | generate | summarize => rfl
      | abort => cases answer
      | touch x =>
        simp only [World.note, World.touch, Function.update_of_ne (Ne.symm here)]
        rfl

theorem not_ticks_of_stranger {law : Law M R O} (lawful : Lawful law (t ++ [e]))
    (stranger : (World.after t).holders e.caller.place .removals ≠ some e.caller.call)
    (waits : ∀ answer, e.deed ≠ .acted (.touch .lockRemovals) answer) : ¬e.deed.Ticks := by
  intro ticks
  unfold Deed.Ticks at ticks
  split at ticks
  · rename_i answer locks
    exact waits answer locks
  · rename_i left answer sets
    exact stranger (lawful.of_concat.2.2.guarded _ _ sets .removals rfl)
  · exact ticks

theorem not_ticks_of_held {law : Law M R O} (lawful : Lawful law (t ++ [e])) {holder : Nat}
    (held : (World.after t).holders place .removals = some holder) (other : e.caller.call ≠ holder)
    (here : e.caller.place = place) : ¬e.deed.Ticks := by
  subst here
  refine not_ticks_of_stranger lawful ?_ fun answer locks => ?_
  · rw [held]
    exact fun same => other (Option.some.inj same).symm
  · have fits := lawful.of_concat.2.1
    simp only [Event.Fits, locks] at fits
    have free : ((World.after t).memories e.caller.place).removalsLocked = false := fits.1
    rw [((World.locked_after t) e.caller.place).2, held] at free
    cases free

end Trace

theorem Passed.unheld {me : Caller O} {allowed : Deed M R → Prop} {t t' : Trace M R O} {place : Nat} {lock : Lock}
    (passed : Passed me allowed t t') (leaves : ∀ deed, allowed deed → deed.Leaves lock)
    (unheld : (World.after t).holders place lock ≠ some me.call) :
    (World.after t').holders place lock ≠ some me.call := by
  obtain ⟨more, rfl, own⟩ := passed
  induction more using List.reverseRecOn with
  | nil => rwa [List.append_nil]
  | append_singleton more e ih =>
    rw [← List.append_assoc, World.after_concat]
    intro holds
    rcases World.holds_cases holds with before | ⟨x, answer, mine, _, acted, takes⟩
    · exact ih (fun e' member => own e' (List.mem_append_left _ member)) before
    · have left := leaves _ (own e (List.mem_append_right _ (List.mem_singleton_self e)) mine)
      rw [acted] at left
      exact left.1 takes

namespace ReplicatedSet

variable {α : Type} [Ord α] [Std.TransOrd α] [Std.LawfulEqOrd α] {R : Type}

section Definitions

variable (d : Deployment (Model.memberSet α)) (me : Caller (SetOperation α))

/-- The call is to remove a value, has come through its update, and has just counted itself. -/
inductive Counted : Trace (Model.memberSet α) R (SetOperation α) → Prop
  | intro (value : α) (removes : me.operation = .remove value)
    (began t past : Trace (Model.memberSet α) R (SetOperation α))
    (changes : (change (d.replica me.place) (.remove value)).run.Leads me (began ++ [⟨me, .called⟩]) (.ok ()) t)
    (idled : Idled me t past) : Counted (past ++ [⟨me, .acted (.touch .lockRemovals) ()⟩])

/-- The call was at least the fifth to count itself, and has compacted the set since, with this result. -/
structure Attempted (t : Trace (Model.memberSet α) R (SetOperation α)) (result : Except CoreError Unit)
    (t' : Trace (Model.memberSet α) R (SetOperation α)) : Prop where
  enough : removalsBeforeCompaction ≤ t.removals me.place
  compacts : ∃ ready, Passed me (Deed.Within Action.Counts) t ready ∧
    (compact (d.replica me.place)).run.Leads me ready result t'

/-- What a call has done since it counted itself, when it comes to give the count back. -/
inductive Settled (t : Trace (Model.memberSet α) R (SetOperation α)) :
    Except CoreError Unit → Trace (Model.memberSet α) R (SetOperation α) → Prop
  | few (t' : Trace (Model.memberSet α) R (SetOperation α)) (few : t.removals me.place < removalsBeforeCompaction)
    (passed : Passed me (Deed.Within Action.Counts) t t') : Settled t (.ok ()) t'
  | failed (cause : CoreError) (t' : Trace (Model.memberSet α) R (SetOperation α))
    (attempted : Attempted d me t (.error cause) t') : Settled t (.error cause) t'
  | compacted (t₁ past : Trace (Model.memberSet α) R (SetOperation α)) (attempted : Attempted d me t (.ok ()) t₁)
    (idled : Idled me t₁ past) :
    Settled t (.ok ()) (past ++ [⟨me, .acted (.touch (.setRemovalsLeft removalsBeforeCompaction)) ()⟩])

variable (R) in
def thrift : Law (Model.memberSet α) R (SetOperation α) := fun past me action =>
  match action with
  | .touch .lockRemovals => Counted d me (past ++ [⟨me, .acted (.touch .lockRemovals) ()⟩])
  | .touch .unlockRemovals => Trace.CountsDown past me.place ∧
    ∃ t counted t', Counted d me t ∧ Settled d me t counted t' ∧ Idled me t' past
  | .touch .removalsLeft => True
  | .touch (.setRemovalsLeft left) => left = removalsBeforeCompaction →
    removalsBeforeCompaction ≤ Trace.removals past me.place ∧
    ∃ t t', Counted d me t ∧ Attempted d me t (.ok ()) t' ∧ Idled me t' past
  | action => (World.after past).holders me.place .removals = some me.call →
    Trace.CountsDown past me.place ∧ removalsBeforeCompaction ≤ Trace.removals past me.place ∧ Silent d action

/-- All that has happened is lawful, and whenever nobody counts, what is left of a count is told by the removals. -/
structure Kept (t : Trace (Model.memberSet α) R (SetOperation α)) : Prop where
  lawful : Lawful (d.law (conduct R d)) t
  even : ∀ past place, past <+: t → (World.after past).holders place .removals = none →
    Trace.CountsDown past place

/-- The call holds the lock, `n` removals have been counted, and so much is left of the count. -/
structure Standing (n left : Nat) (t : Trace (Model.memberSet α) R (SetOperation α)) : Prop extends
    Counting d me t where
  removals : t.removals me.place = n
  remaining : t.removalsLeft me.place = left

end Definitions

variable {d : Deployment (Model.memberSet α)} {me : Caller (SetOperation α)} {n left : Nat}
  {t t' past : Trace (Model.memberSet α) R (SetOperation α)} {e : Event (Model.memberSet α) R (SetOperation α)}

theorem thrift_iff {action : Action (Model.memberSet α) R} (apart : ¬action.Counts) : thrift R d past me action ↔
    ((World.after past).holders me.place .removals = some me.call → Trace.CountsDown past me.place ∧
      removalsBeforeCompaction ≤ Trace.removals past me.place ∧ Silent d action) := by
  cases action with
  | touch x => cases x <;> first | exact Iff.rfl | exact absurd trivial apart
  | _ => exact Iff.rfl

theorem Kept.of_le (kept : Kept d t') (le : t <+: t') : Kept d t :=
  ⟨kept.lawful.of_le le, fun past place before => kept.even past place (before.trans le)⟩

namespace Standing

theorem passed (standing : Standing d me n left t)
    (passed : Passed me (Deed.Within fun action => ¬action.Counts) t t') (lawful : Lawful (d.law (conduct R d)) t') :
    Standing d me n left t' := by
  obtain ⟨more, rfl, own⟩ := passed
  induction more using List.reverseRecOn with
  | nil => rwa [List.append_nil]
  | append_singleton more e ih =>
    rw [← List.append_assoc] at lawful ⊢
    obtain ⟨before, fits, obeys⟩ := lawful.of_concat
    have standing := ih (fun e' member => own e' (List.mem_append_left _ member)) before
    have own := own e (List.mem_append_right _ (List.mem_singleton_self e))
    have still : e.caller.place = me.place → ¬e.deed.Ticks := by
      by_cases mine : e.caller.call = me.call
      · exact fun _ => Deed.not_ticks_of_within (own mine)
      · exact Trace.not_ticks_of_held lawful standing.held mine
    have held : (World.after (t ++ more ++ [e])).holders me.place .removals = some me.call := by
      rw [World.after_concat]
      by_cases mine : e.caller.call = me.call
      · rw [World.note_holders_of_leaves _ (Deed.leaves_of_not_counts (own mine))]
        exact standing.held
      · exact ((World.locked_after _).keeps standing.held mine fits obeys.guarded).1
    obtain ⟨removals, remaining⟩ := Trace.counter_concat (t := t ++ more) still
    exact ⟨⟨lawful, held⟩, removals.trans standing.removals, remaining.trans standing.remaining⟩

theorem idled (standing : Standing d me n left t) (idled : Idled me t t')
    (lawful : Lawful (d.law (conduct R d)) t') : Standing d me n left t' := standing.passed idled.of_idled lawful

theorem of_locked (kept : Kept d (t ++ [⟨me, .acted (.touch .lockRemovals) ()⟩])) :
    Standing d me (t.removals me.place + 1) (removalsBeforeCompaction - t.removals me.place)
      (t ++ [⟨me, .acted (.touch .lockRemovals) ()⟩]) := by
  have enabled : ((World.after t).memories me.place).removalsLocked = false := kept.lawful.of_concat.2.1.1
  have free : (World.after t).holders me.place .removals = none := by
    rwa [((World.locked_after t) me.place).2, Option.isSome_eq_false_iff, Option.isNone_iff_eq_none] at enabled
  refine ⟨⟨kept.lawful, World.holders_taken t me (x := .lockRemovals) () rfl⟩, Trace.removals_concat rfl, ?_⟩
  rw [← kept.even t me.place (List.prefix_append _ _) free, Trace.removalsLeft, World.memories_touched]
  rfl

theorem looked (standing : Standing d me n left t) (idled : Idled me t past) {answer : Nat}
    (lawful : Lawful (d.law (conduct R d)) (past ++ [⟨me, .acted (.touch .removalsLeft) answer⟩])) :
    answer = left ∧ Standing d me n left (past ++ [⟨me, .acted (.touch .removalsLeft) answer⟩]) := by
  have counting := standing.toCounting.went ((idled.step ⟨by rintro ⟨⟩, by rintro ⟨⟩⟩).went lawful)
  have standing := standing.idled idled lawful.of_concat.1
  have told : answer = Trace.removalsLeft past me.place := lawful.of_concat.2.1.2
  have still : me.place = me.place → ¬(Deed.acted (.touch .removalsLeft) answer : Deed (Model.memberSet α) R).Ticks :=
    fun _ => id
  obtain ⟨removals, remaining⟩ := Trace.counter_concat (t := past) (e := ⟨me, _⟩) still
  exact ⟨told.trans standing.remaining, counting, removals.trans standing.removals,
    remaining.trans standing.remaining⟩

theorem set (standing : Standing d me n left t) (idled : Idled me t past) {new : Nat}
    (lawful : Lawful (d.law (conduct R d)) (past ++ [⟨me, .acted (.touch (.setRemovalsLeft new)) ()⟩])) :
    Standing d me (if new = removalsBeforeCompaction then 0 else n) new
      (past ++ [⟨me, .acted (.touch (.setRemovalsLeft new)) ()⟩]) := by
  refine ⟨standing.toCounting.went ((idled.step ⟨by rintro ⟨⟩, by rintro ⟨⟩⟩).went lawful), ?_, ?_⟩
  · rw [Trace.removals_concat rfl, ← (standing.idled idled lawful.of_concat.1).removals]
    rfl
  · rw [Trace.removalsLeft, World.memories_touched]
    rfl

theorem ticked (standing : Standing d me (n + 1) (removalsBeforeCompaction - n) t) (idled : Idled me t past)
    {left : Nat} {past' : Trace (Model.memberSet α) R (SetOperation α)}
    (idled' : Idled me (past ++ [⟨me, .acted (.touch .removalsLeft) left⟩]) past')
    (lawful : Lawful (d.law (conduct R d)) (past' ++ [⟨me, .acted (.touch (.setRemovalsLeft (left - 1))) ()⟩])) :
    left = removalsBeforeCompaction - n ∧ Standing d me (n + 1) (removalsBeforeCompaction - (n + 1))
      (past' ++ [⟨me, .acted (.touch (.setRemovalsLeft (left - 1))) ()⟩]) ∧
      Passed me (Deed.Within Action.Counts) t (past' ++ [⟨me, .acted (.touch (.setRemovalsLeft (left - 1))) ()⟩]) := by
  obtain ⟨rfl, standing⟩ := standing.looked idled (lawful.of_concat.1.of_le idled'.le)
  have standing := standing.set idled' lawful
  have less : removalsBeforeCompaction - n - 1 ≠ removalsBeforeCompaction := by
    unfold removalsBeforeCompaction
    omega
  rw [if_neg less] at standing
  exact ⟨rfl, standing, (idled.step trivial).trans (idled'.step trivial)⟩

end Standing

section Section

variable (sound : d.Sound)

include sound

theorem compact_apart (place : Nat) : (compact (d.replica place) : Attempt (Model.memberSet α) R Unit).Confined
    (fun action => ¬action.Counts ∧ Silent d action) fun _ => True := by
  refine (compact_confined (d.replica place)).mono ?_ fun _ => id
  refine fun action writing => ⟨writing.not_counts, fun answer => ?_⟩
  have within : (Deed.acted action answer : Deed (Model.memberSet α) R).Within _ := writing
  exact Deployment.lands?_of_within sound.roundTrips within

theorem Standing.compacted (standing : Standing d me n left t) {result : Except CoreError Unit}
    (compacts : (compact (d.replica me.place)).run.Leads me t result t') (lawful : Lawful (d.law (conduct R d)) t') :
    Standing d me n left t' :=
  standing.passed (compacts.passed ((compact_apart sound me.place).mono (fun _ => And.left) fun _ => id)) lawful

theorem countRemoval_leads (standing : Standing d me (n + 1) (removalsBeforeCompaction - n) t)
    {result : Except CoreError Unit}
    (leads : (countRemoval (d.replica me.place)).run.Leads me t result t')
    (lawful : Lawful (d.law (conduct R d)) t') :
    Settled d me t result t' ∧ ∃ m, Standing d me m (removalsBeforeCompaction - m) t' := by
  unfold countRemoval at leads
  obtain ⟨past₁, left, idled₁, leads⟩ := Attempt.leads_touch_bind leads
  obtain ⟨past₂, _, idled₂, leads⟩ := Attempt.leads_touch_bind leads
  obtain ⟨rfl, standing₂, counts⟩ := standing.ticked idled₁ idled₂ (lawful.of_le leads.le)
  by_cases last : removalsBeforeCompaction - n - 1 = 0
  · rw [if_pos last] at leads
    have enough : removalsBeforeCompaction ≤ t.removals me.place := by
      rw [standing.removals]
      omega
    rcases Attempt.leads_bind leads with ⟨_, t₃, compacts, leads⟩ | ⟨cause, compacts, rfl⟩
    · obtain ⟨past₄, _, idled₄, rfl, rfl⟩ := Attempt.leads_touch leads
      have standing₃ := standing₂.compacted sound compacts (lawful.of_concat.1.of_le idled₄.le)
      exact ⟨.compacted t₃ past₄ ⟨enough, _, counts, compacts⟩ idled₄, 0, standing₃.set idled₄ lawful⟩
    · exact ⟨.failed cause t' ⟨enough, _, counts, compacts⟩, n + 1, standing₂.compacted sound compacts lawful⟩
  · rw [if_neg last] at leads
    cases leads
    refine ⟨.few _ ?_ counts, n + 1, standing₂⟩
    rw [standing.removals]
    omega

theorem countRemoval_minds (entered : Counted d me t)
    (standing : Standing d me (n + 1) (removalsBeforeCompaction - n) t) :
    (countRemoval (d.replica me.place)).Minds (Kept d) (thrift R d) me t := by
  unfold countRemoval
  refine .touch_bind (fun _ _ _ => trivial) fun past₁ left idled₁ => ?_
  refine .touch_bind (fun past idled kept => ?_) fun past₂ _ idled₂ => ?_
  · obtain ⟨rfl, _⟩ := standing.looked idled₁ (kept.lawful.of_le idled.le)
    intro back
    unfold removalsBeforeCompaction at back
    omega
  refine .of_fine (fun le kept => kept.of_le le) fun kept => ?_
  obtain ⟨rfl, standing₂, counts⟩ := standing.ticked idled₁ idled₂ kept.lawful
  by_cases last : removalsBeforeCompaction - n - 1 = 0
  · rw [if_pos last]
    have enough : removalsBeforeCompaction ≤ n + 1 := by omega
    refine Attempt.Minds.bind (.of_passed (compact_apart sound me.place) fun past action passed kept within => ?_)
      fun _ t₃ compacts => .touch fun past idled kept _ => ?_
    · have standing := standing₂.passed (passed.mono fun _ within => within.mono fun _ => And.left) kept.lawful
      refine (thrift_iff within.1).mpr fun _ => ⟨?_, ?_, within.2⟩
      · rw [Trace.CountsDown, standing.removals, standing.remaining]
      · rwa [standing.removals]
    · have standing₃ := (standing₂.compacted sound compacts (kept.lawful.of_le idled.le)).idled idled kept.lawful
      exact ⟨by rwa [standing₃.removals], t, t₃, entered, ⟨by rwa [standing.removals], _, counts, compacts⟩, idled⟩
  · rw [if_neg last]
    trivial

theorem settle_minds {value : α} (removes : me.operation = .remove value)
    {began : Trace (Model.memberSet α) R (SetOperation α)}
    (changes : (change (d.replica me.place) (.remove value)).run.Leads me (began ++ [⟨me, .called⟩]) (.ok ()) t) :
    (settle (d.replica me.place)).Minds (Kept d) (thrift R d) me t := by
  have counted : ∀ past, Idled me t past → Counted d me (past ++ [⟨me, .acted (.touch .lockRemovals) ()⟩]) :=
    fun past idled => .intro value removes began t past changes idled
  unfold settle
  refine .touch_bind (fun past idled _ => counted past idled) fun past _ idled => ?_
  refine .of_fine (fun le kept => kept.of_le le) fun kept => ?_
  have standing := Standing.of_locked kept
  refine Attempt.Minds.bind_lift (countRemoval_minds sound (counted past idled) standing) fun result t₂ counts => ?_
  refine .touch_bind (fun past' idled' kept' => ?_) fun _ _ _ => by cases result <;> trivial
  obtain ⟨settled, m, standing'⟩ := countRemoval_leads sound standing counts (kept'.lawful.of_le idled'.le)
  have standing' := standing'.idled idled' kept'.lawful
  refine ⟨?_, _, result, t₂, counted past idled, settled, idled'⟩
  rw [Trace.CountsDown, standing'.removals, standing'.remaining]

end Section

theorem change_apart (place : Nat) (wanted : SetUpdate α) :
    (change (d.replica place) wanted : Attempt (Model.memberSet α) R Unit).Confined (fun action => ¬action.Counts)
      fun _ => True :=
  (d.replica place).updateBy_confined (fun _ (writing : Action.OfWriting _ _ (fun _ => True) _) => writing.not_counts)
    fun _ => trivial

theorem program_apart (place : Nat) {operation : SetOperation α} (other : ∀ value, operation ≠ .remove value) :
    (program d place operation : Attempt (Model.memberSet α) R _).Confined (fun action => ¬action.Counts)
      fun _ => True := by
  have writes : ∀ {β : Type} {kind : (Model.memberSet α).Record → Prop} {x : Attempt (Model.memberSet α) R β},
      x.Writing (d.replica place).client kind → x.Confined (fun action => ¬action.Counts) fun _ => True :=
    fun writing => writing.mono (fun _ writing => writing.not_counts) fun _ => id
  have reads : ∀ {β : Type} {x : Attempt (Model.memberSet α) R β}, x.Confined Action.OfReading (fun _ => True) →
      x.Confined (fun action => ¬action.Counts) fun _ => True :=
    fun reading => reading.mono (fun _ reads => (Action.OfWriting.reads reads : Action.OfWriting d.segment d.codec
      (fun _ => True) _).not_counts) fun _ => id
  have copies : ((d.replica place).getRevisionedState : Attempt (Model.memberSet α) R _).Confined
      (fun action => ¬action.Counts) fun _ => True :=
    reads ((d.replica place).getRevisionedState_confined.mono (fun _ => id) fun _ _ => trivial)
  cases operation with
  | remove value => exact absurd rfl (other value)
  | add value =>
    rw [program_of_update? d place rfl]
    exact .bind (change_apart place _) fun _ => .bind (.pure ()) fun _ => .pure _
  | clear =>
    rw [program_of_update? d place rfl]
    exact .bind (change_apart place _) fun _ => .bind (writes (compact_confined _)) fun _ => .pure _
  | contains | currentValues | currentSize =>
    rw [program_of_reading? d place rfl]
    exact .bind (.bind copies fun _ => .pure _) fun _ => .pure _
  | openOrCreate =>
    have establishes : ((d.replica place).establishIfAbsent .empty : Attempt (Model.memberSet α) R Bool).Writing
      (d.replica place).client fun _ => True := (d.replica place).establishIfAbsent_writing trivial
    have creates : ((d.client place).establish : Attempt (Model.memberSet α) R Unit).Confined
      (fun action => ¬action.Counts) fun _ => True := .bind (.ask id fun _ => trivial) fun _ => .pure ()
    exact .bind (.bind creates fun _ => writes establishes) fun _ => .pure _
  | update =>
    refine .bind (reads (.locked (.inr trivial) (.inr trivial) ?_)) fun _ => .pure _
    exact (d.replica place).catchUp_confined.mono (fun _ => .inl) fun _ _ => trivial
  | close => exact .bind (.touch id) fun _ => .pure _

theorem program_minds (sound : d.Sound) (fresh : ∀ e ∈ past, e.caller.call ≠ me.call) :
    (program d me.place me.operation).Minds (Kept d) (thrift R d) me (past ++ [⟨me, .called⟩]) := by
  have unheld : (World.after (past ++ [⟨me, .called⟩])).holders me.place .removals ≠ some me.call := by
    intro holds
    obtain ⟨e, member, mine, _, acted⟩ := World.acted_of_holds holds
    rcases List.mem_append.mp member with early | last
    · exact fresh e early mine
    · rw [List.mem_singleton.mp last] at acted
      exact acted rfl
  have apart : ∀ {β : Type} {x : Attempt (Model.memberSet α) R β},
      x.Confined (fun action => ¬action.Counts) (fun _ => True) →
      x.Minds (Kept d) (thrift R d) me (past ++ [⟨me, .called⟩]) :=
    fun confined => .of_passed confined fun _ _ passed _ within => (thrift_iff within).mpr fun held =>
      absurd held (passed.unheld (fun _ => Deed.leaves_of_not_counts) unheld)
  by_cases removes : ∃ value, me.operation = .remove value
  · obtain ⟨value, removes⟩ := removes
    rw [program_of_update? d me.place (congrArg SetOperation.update? removes)]
    refine .bind (apart (change_apart me.place _)) fun _ t₁ changes => ?_
    exact .bind (settle_minds sound removes changes) fun _ _ _ => trivial
  · exact apart (program_apart me.place fun value same => removes ⟨value, same⟩)

theorem settle_leads (sound : d.Sound) {value : α} (removes : me.operation = .remove value)
    {began : Trace (Model.memberSet α) R (SetOperation α)}
    (changes : (change (d.replica me.place) (.remove value)).run.Leads me (began ++ [⟨me, .called⟩]) (.ok ()) t)
    {result : Except CoreError Unit} (leads : (settle (d.replica me.place)).run.Leads me t result t')
    (kept : Kept d t') : ∃ entered t₁ past, Counted d me entered ∧ Settled d me entered result t₁ ∧ Idled me t₁ past ∧
      t' = past ++ [⟨me, .acted (.touch .unlockRemovals) ()⟩] := by
  unfold settle at leads
  obtain ⟨past, _, idled, leads⟩ := Attempt.leads_touch_bind leads
  obtain ⟨counted, t₁, counts, leads⟩ := Attempt.leads_lift_bind leads
  obtain ⟨past', _, idled', leads⟩ := Attempt.leads_touch_bind leads
  have before : past' <+: t' := (List.prefix_append _ _).trans leads.le
  have standing := Standing.of_locked (kept.of_le (counts.le.trans (idled'.le.trans before)))
  obtain ⟨settled, _⟩ := countRemoval_leads sound standing counts (kept.lawful.of_le (idled'.le.trans before))
  have entered : Counted d me (past ++ [⟨me, .acted (.touch .lockRemovals) ()⟩]) :=
    .intro value removes began t past changes idled
  cases counted <;> cases leads <;> exact ⟨_, t₁, past', entered, settled, idled', rfl⟩

section Definitions

variable (d : Deployment (Model.memberSet α)) (s : System (Model.memberSet α) R (SetOperation α) (SetResult α))

/-- How a call that was to remove a value has come to its result. -/
inductive Ended (me : Caller (SetOperation α)) : Except CoreError (SetResult α) → Prop
  | uncounted (value : α) (removes : me.operation = .remove value)
    (began t : Trace (Model.memberSet α) R (SetOperation α)) (cause : CoreError)
    (changes : (change (d.replica me.place) (.remove value)).run.Leads me (began ++ [⟨me, .called⟩]) (.error cause) t)
    (apart : Passed me (Deed.Within fun action => ¬action.Counts) (began ++ [⟨me, .called⟩]) s.trace) :
    Ended me (.error cause)
  | counted (t t' past : Trace (Model.memberSet α) R (SetOperation α)) (result : Except CoreError Unit)
    (entered : Counted d me t) (settled : Settled d me t result t') (idled : Idled me t' past)
    (left : Idled me (past ++ [⟨me, .acted (.touch .unlockRemovals) ()⟩]) s.trace) :
    Ended me (result.map fun _ => .nothing)

/-- What removals do in a run. -/
structure Thrifty : Prop where
  /-- A removal counts itself once its update has succeeded. -/
  counted : ∀ past e, past ++ [e] <+: s.trace → e.deed.isRemoval = true → Counted d e.caller (past ++ [e])
  /-- What is left of the count when nobody counts is told by the removals since it was last set back. -/
  even : ∀ past place, past <+: s.trace → (World.after past).holders place .removals = none →
    Trace.CountsDown past place
  /-- Whatever else a call does between counting itself and giving the count back comes after enough removals, and
  leaves the members as they are. -/
  attempts : ∀ t past e, Counted d e.caller t → Passed e.caller (Deed.Leaves .removals) t past →
    past ++ [e] <+: s.trace → e.deed.Within Action.Counts ∨
      removalsBeforeCompaction ≤ Trace.removals past e.caller.place ∧
        d.elements (d.log (past ++ [e])) = d.elements (d.log past)
  /-- Whoever gives the count back has compacted the set if there were enough removals, and only then. -/
  settled : ∀ past e answer, past ++ [e] <+: s.trace → e.deed = .acted (.touch .unlockRemovals) answer →
    ∃ t result t', Counted d e.caller t ∧ Settled d e.caller t result t' ∧ Idled e.caller t' past
  /-- The count is set back by nobody but a call that has just compacted the set. -/
  renewed : ∀ past e, past ++ [e] <+: s.trace → e.deed.Renews →
    ∃ t t', Counted d e.caller t ∧ Attempted d e.caller t (.ok ()) t' ∧ Idled e.caller t' past
  /-- From one time that the count is set back to the next one, enough removals count themselves. -/
  spaced : ∀ past e between e', past ++ [e] ++ between ++ [e'] <+: s.trace → e.deed.Renews → e'.deed.Renews →
    e.caller.place = e'.caller.place →
    removalsBeforeCompaction ≤ between.countP fun e'' =>
      decide (e''.caller.place = e'.caller.place) && e''.deed.isRemoval
  /-- Once a compaction has failed, there are enough removals for each one that counts itself, until the count is set
  back. -/
  retried : ∀ me t cause t' more e, Attempted d me t (.error cause) t' → t ++ more ++ [e] <+: s.trace →
    (∀ e' ∈ more, e'.caller.place = me.place → ¬e'.deed.Renews) → e.deed.isRemoval = true →
    e.caller.place = me.place →
    Counted d e.caller (t ++ more ++ [e]) ∧
      removalsBeforeCompaction ≤ Trace.removals (t ++ more ++ [e]) e.caller.place
  /-- A removal that returns has counted itself, unless its update has failed. -/
  ended : ∀ (me : Caller (SetOperation α)) value result, me.operation = .remove value → s.Returned me result →
    result ≠ .error .taskFailed → Ended d s me result
  /-- Readers are shown the members at an instant of their own, whatever has become of the compactions before it. -/
  reads : ∀ (me : Caller (SetOperation α)) shown result, me.operation.reading? = some shown →
    s.Returned me (.ok result) →
    ∃ now, s.trace.Amid me now ∧ me.operation.Answers (d.elements (d.log now)) result

end Definitions

section Runs

variable {s : System (Model.memberSet α) R (SetOperation α) (SetResult α)} (sound : d.Sound)
  (reachable : s.Reachable (program d))

include sound reachable

theorem minded_of_reachable : s.Minded (Kept d) (thrift R d) :=
  System.minded_of_reachable (fun _ _ fresh => program_minds sound fresh) reachable

theorem kept_of_reachable (le : past <+: s.trace) : Kept d past := by
  induction past using List.reverseRecOn with
  | nil =>
    refine ⟨.nil, fun past place none _ => ?_⟩
    obtain rfl := List.prefix_nil.mp none
    rfl
  | append_singleton past e ih =>
    have kept := ih ((List.prefix_append _ _).trans le)
    have lawful := (secure_of_reachable reachable).lawful.of_le le
    refine ⟨lawful, fun front place within free => ?_⟩
    rcases List.prefix_concat_iff.mp within with rfl | early
    · cases held : (World.after past).holders place .removals with
      | none =>
        have still : e.caller.place = place → ¬e.deed.Ticks := by
          rintro rfl
          refine Trace.not_ticks_of_stranger lawful (by rw [held]; exact nofun) fun answer locks => ?_
          obtain ⟨caller, deed⟩ := e
          obtain rfl : deed = .acted (.touch .lockRemovals) answer := locks
          rw [World.holders_taken past caller (x := .lockRemovals) answer rfl] at free
          cases free
        obtain ⟨removals, remaining⟩ := Trace.counter_concat (t := past) still
        rw [Trace.CountsDown, removals, remaining]
        exact kept.even past place (List.prefix_refl _) held
      | some holder =>
        obtain ⟨rfl, rfl, gives⟩ := System.gives_of_free reachable le lawful.of_concat.2.2.guarded held free
        obtain ⟨action, of, owed⟩ := (minded_of_reachable sound reachable).done past e le
          (by rcases gives with gaveUp | ⟨_, _, acted, _⟩ <;> simp [*]) kept
        obtain ⟨caller, deed⟩ := e
        -- A call that gives up the lock, or gives it back, has left the count as it owes to.
        have left : Trace.CountsDown past caller.place ∧ ¬deed.Ticks := by
          rcases gives with gaveUp | ⟨x, answer, acted, gives⟩
          · obtain rfl : deed = .gaveUp := gaveUp
            cases of with
            | gaveUp ends => cases action <;> first | exact ⟨(owed held).1, id⟩ | cases ends
          · obtain rfl : deed = .acted (.touch x) answer := acted
            cases of
            cases x <;> cases gives
            exact ⟨owed.1, id⟩
        obtain ⟨removals, remaining⟩ := Trace.counter_concat (t := past) (e := ⟨caller, deed⟩) fun _ => left.2
        rw [Trace.CountsDown, removals, remaining]
        exact left.1
    · exact kept.even front place early free

variable {e : Event (Model.memberSet α) R (SetOperation α)} (le : past ++ [e] <+: s.trace)

include le

theorem thrift_of_reachable {action : Action (Model.memberSet α) R} {answer : action.Answer}
    (acted : e.deed = .acted action answer) : thrift R d past e.caller action :=
  (minded_of_reachable sound reachable).owed le acted
    (kept_of_reachable sound reachable ((List.prefix_append _ _).trans le))

theorem attempts_of_reachable (held : (World.after past).holders e.caller.place .removals = some e.caller.call) :
    e.deed.Within Action.Counts ∨ removalsBeforeCompaction ≤ Trace.removals past e.caller.place ∧
      d.elements (d.log (past ++ [e])) = d.elements (d.log past) := by
  obtain ⟨action, of, owed⟩ := (minded_of_reachable sound reachable).done past e le
    (System.ne_called_of_holds reachable le held)
    (kept_of_reachable sound reachable ((List.prefix_append _ _).trans le))
  by_cases counts : action.Counts
  · left
    generalize e.deed = deed at of
    cases of with
    | acted | failed => exact counts
    | gaveUp ends => cases action <;> first | exact ends.elim | exact counts.elim
  · right
    obtain ⟨_, enough, silent⟩ := (thrift_iff counts).mp owed held
    have unlanded : d.lands? e.deed = none := by
      generalize e.deed = deed at of
      cases of with
      | acted answer => exact silent answer
      | failed | gaveUp => rfl
    refine ⟨enough, ?_⟩
    cases transition sound reachable le with
    | still _ same => exact same
    | snapshot _ _ _ _ same => exact same
    | changed wanted _ lands => cases unlanded.symm.trans lands

end Runs

section Reached

variable {s : System (Model.memberSet α) R (SetOperation α) (SetResult α)}

theorem ended_of_returned (sound : d.Sound) (reachable : s.Reachable (program d)) {value : α}
    (removes : me.operation = .remove value) {result : Except CoreError (SetResult α)}
    (returned : s.Returned me result) (own : result ≠ .error .taskFailed) : Ended d s me result := by
  obtain ⟨began, t, _, _, idled, leads⟩ := System.leads_of_returned reachable returned own
  rw [program_of_update? d me.place (congrArg SetOperation.update? removes)] at leads
  rcases Attempt.leads_bind leads with ⟨_, t₁, changes, leads⟩ | ⟨cause, changes, rfl⟩
  · have kept := kept_of_reachable sound reachable idled.le
    rcases Attempt.leads_bind leads with ⟨_, t₂, settles, leads⟩ | ⟨cause, settles, rfl⟩
    · cases leads
      obtain ⟨entered, t₃, past, counted, settled, idled', rfl⟩ := settle_leads sound removes changes settles kept
      exact .counted entered t₃ past _ counted settled idled' idled
    · obtain ⟨entered, t₃, past, counted, settled, idled', rfl⟩ := settle_leads sound removes changes settles kept
      exact .counted entered t₃ past _ counted settled idled' idled
  · exact .uncounted value removes began t cause changes
      ((changes.passed (change_apart me.place _)).trans idled.of_idled)

/-- Every fifth removal compacts a set, and so does each one after it until a compaction has succeeded. -/
theorem removals_compact (updates : d.updates.RoundTrips) (snapshots : d.snapshots.RoundTrips)
    (reachable : s.Reachable (program d)) : Thrifty d s := by
  have sound : d.Sound := ⟨updates, snapshots, Model.memberSet_positional⟩
  have lawful := (secure_of_reachable reachable).lawful
  have counted : ∀ past e, past ++ [e] <+: s.trace → e.deed.isRemoval = true → Counted d e.caller (past ++ [e]) := by
    intro past e le removal
    obtain ⟨caller, deed⟩ := e
    obtain rfl : deed = .acted (.touch .lockRemovals) () := Deed.eq_of_isRemoval removal
    exact thrift_of_reachable sound reachable le rfl
  have renewed : ∀ past e, past ++ [e] <+: s.trace → e.deed.Renews →
      removalsBeforeCompaction ≤ Trace.removals past e.caller.place ∧
        ∃ t t', Counted d e.caller t ∧ Attempted d e.caller t (.ok ()) t' ∧ Idled e.caller t' past :=
    fun past e le renews => thrift_of_reachable sound reachable le (Deed.eq_of_renews renews) rfl
  refine ⟨counted, ?_, ?_, ?_, fun past e le renews => (renewed past e le renews).2, ?_, ?_, ?_, ?_⟩
  · exact fun past place le free => (kept_of_reachable sound reachable le).even past place (List.prefix_refl _) free
  · rintro t past e ⟨value, removes, began, t₁, before, changes, idled⟩ passed le
    refine attempts_of_reachable sound reachable le ?_
    exact (passed.went (lawful.of_le ((List.prefix_append _ _).trans le))).leaves
      (World.holders_taken before e.caller (x := .lockRemovals) () rfl)
  · exact fun past e answer le gives => (thrift_of_reachable sound reachable le gives).2
  · intro past e between e' le renews renews' here
    have enough := (renewed _ e' le renews').1
    have back : Trace.removals (past ++ [e]) e'.caller.place = 0 := by
      rw [Trace.removals_concat here, Deed.eq_of_renews renews]
      rfl
    have counts := Trace.removals_append_le (past ++ [e]) between e'.caller.place
    omega
  · intro me t cause t' more e attempted le keeps removal here
    refine ⟨counted _ e le removal, attempted.enough.trans ?_⟩
    rw [here, List.append_assoc]
    refine Trace.le_removals_append t fun e' member => ?_
    rcases List.mem_append.mp member with member | member
    · exact keeps e' member
    · rw [List.mem_singleton.mp member, Deed.eq_of_isRemoval removal]
      exact fun _ => id
  · exact fun me value result removes returned own => ended_of_returned sound reachable removes returned own
  · exact fun me shown result reads returned => shown_of_returned sound reachable returned reads

end Reached

/-- The fifth removal of what is no member is asked for by a sixth call, since one of them has failed before it was
counted. It fails to truncate the log once its snapshot has landed and the mark has moved, and the next removal
compacts the set again. -/
def interrupted : List (Move (SetOperation UInt8)) := List.flatten [
  Move.run ⟨0, 0, .openOrCreate⟩ 10,
  Move.run ⟨1, 0, .add 1⟩ 15,
  Move.run ⟨2, 0, .remove 9⟩ 12,
  Move.run ⟨3, 0, .remove 9⟩ 3, [.fail 3 (.transport "lost" true)], Move.steps 3 2,
  Move.run ⟨4, 0, .remove 9⟩ 12,
  Move.run ⟨5, 0, .remove 9⟩ 12,
  Move.run ⟨6, 0, .remove 9⟩ 12,
  Move.run ⟨7, 0, .remove 9⟩ 31, [.fail 7 (.transport "lost" true)], Move.steps 7 1,
  Move.run ⟨8, 1, .currentValues⟩ 20,
  Move.run ⟨9, 0, .remove 9⟩ 40]

def refused (place : Nat) (operation : SetOperation UInt8) (cause : CoreError) :
    Call (Model.memberSet UInt8) Unit (SetOperation UInt8) (SetResult UInt8) → Bool
  | ⟨⟨_, here, operation'⟩, .done (.error cause')⟩ =>
    decide (here = place ∧ operation' = operation ∧ cause' = cause)
  | _ => false

theorem returned_of_refused (schedule : List (Move (SetOperation UInt8))) {id place : Nat}
    {operation : SetOperation UInt8} {cause : CoreError}
    (checked : ((playOctets schedule).calls id).any (refused place operation cause) = true) :
    (playOctets schedule).Returned ⟨id, place, operation⟩ (.error cause) := by
  refine System.returned_of_any (reachable_playOctets schedule) _ (fun call checked => ?_) checked
  unfold refused at checked
  split at checked
  · obtain ⟨here, rfl, rfl⟩ := of_decide_eq_true checked
    exact ⟨here, rfl, rfl⟩
  · cases checked

theorem interrupted_compacts : ofOctets.updates.RoundTrips ∧ ofOctets.snapshots.RoundTrips ∧
    (playOctets interrupted).Reachable (program ofOctets) ∧ Thrifty ofOctets (playOctets interrupted) ∧
    (playOctets interrupted).Returned ⟨3, 0, .remove 9⟩ (.error (.service (.transport "lost" true))) ∧
    (playOctets interrupted).Returned ⟨6, 0, .remove 9⟩ (.ok .nothing) ∧
    (playOctets interrupted).Returned ⟨7, 0, .remove 9⟩ (.error (.service (.transport "lost" true))) ∧
    (playOctets interrupted).Returned ⟨8, 1, .currentValues⟩ (.ok (.members (.ofList [1]))) ∧
    (playOctets interrupted).Returned ⟨9, 0, .remove 9⟩ (.ok .nothing) ∧
    (playOctets interrupted).trace.removals 0 = 0 := by
  have reachable := reachable_playOctets interrupted
  refine ⟨updateOctets_roundTrips, memberOctets_roundTrips, reachable,
    removals_compact updateOctets_roundTrips memberOctets_roundTrips reachable, ?_, ?_, ?_, ?_, ?_, by decide +kernel⟩
  · exact returned_of_refused interrupted (by decide +kernel)
  · exact returned_of_answered interrupted (by decide +kernel)
  · exact returned_of_refused interrupted (by decide +kernel)
  · exact returned_of_answered interrupted (by decide +kernel)
  · exact returned_of_answered interrupted (by decide +kernel)

end ReplicatedSet

end LogReplica
