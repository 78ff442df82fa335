import LogReplica.Proofs.Concurrency.System
import LogReplica.Proofs.Segment.Log
import Mathlib.Data.List.Induction

namespace LogReplica

variable {M : Model} {R O : Type}

namespace World

@[simp] theorem after_concat (past : Trace M R O) (e : Event M R O) :
    World.after (past ++ [e]) = (World.after past).note e := by
  simp only [World.after, List.foldl_append, List.foldl_cons, List.foldl_nil]

theorem memories_touched (past : Trace M R O) (me : Caller O) {x : Touch M.State} (answer : x.Answer) :
    (World.after (past ++ [⟨me, .acted (.touch x) answer⟩])).memories me.place =
      (x.run ((World.after past).memories me.place)).2 := by
  rw [after_concat]
  exact Function.update_self _ _ _

theorem holders_taken (past : Trace M R O) (me : Caller O) {x : Touch M.State} (answer : x.Answer) {lock : Lock}
    (takes : x.takes? = some lock) :
    (World.after (past ++ [⟨me, .acted (.touch x) answer⟩])).holders me.place lock = some me.call := by
  rw [after_concat]
  exact if_pos ⟨rfl, takes⟩

theorem holders_locked (past : Trace M R O) (me : Caller O) (answer : Unit) :
    (World.after (past ++ [⟨me, .acted (.touch .lockCache) answer⟩])).holders me.place .cache = some me.call :=
  holders_taken past me (x := .lockCache) answer rfl

theorem holders_unlocked (past : Trace M R O) (me : Caller O) (answer : Unit) :
    (World.after (past ++ [⟨me, .acted (.touch .unlockCache) answer⟩])).holders me.place .cache = none := by
  rw [after_concat]
  refine (if_neg ?_).trans (if_pos ⟨rfl, rfl⟩)
  rintro ⟨_, ⟨⟩⟩

def Locked (w : World M) : Prop :=
  ∀ place, ((w.memories place).cacheLocked = (w.holders place .cache).isSome) ∧
    ((w.memories place).removalsLocked = (w.holders place .removals).isSome)

end World

/-- What a lock guards in a memory is the same. -/
def Lock.Kept {S : Type} (m m' : Memory S) : Lock → Prop
  | cache => m'.cache = m.cache
  | removals => m'.removalsLeft = m.removalsLeft

/-- A step that needs a lock is made by the call that holds it. -/
def Action.Guarded (w : World M) (caller : Caller O) : Action M R → Prop
  | .touch t => ∀ lock, t.needs? = some lock → w.holders caller.place lock = some caller.call
  | _ => True

/-- What a caller may do, given what has happened. -/
abbrev Law (M : Model) (R O : Type) := Trace M R O → Caller O → Action M R → Prop

def Event.Obeys (law : Law M R O) (past : Trace M R O) (e : Event M R O) : Prop :=
  match e.deed with
  | .acted action _ => action.Guarded (World.after past) e.caller ∧ law past e.caller action
  | _ => True

theorem Event.Obeys.guarded {law : Law M R O} {past : Trace M R O} {e : Event M R O} (obeys : e.Obeys law past)
    (action : Action M R) (answer : action.Answer) (deed : e.deed = .acted action answer) :
    action.Guarded (World.after past) e.caller := by
  simp only [Event.Obeys, deed] at obeys
  exact obeys.1

inductive Lawful (law : Law M R O) : Trace M R O → Prop
  | nil : Lawful law []
  | concat {past : Trace M R O} {e : Event M R O} (lawful : Lawful law past)
    (fits : e.Fits (World.after past)) (obeys : e.Obeys law past) : Lawful law (past ++ [e])

/-- The entry that an event adds to a segment. -/
def Event.landed? (segment : SegmentId) (e : Event M R O) : Option Entry :=
  match e.deed with
  | .acted (.ask named (.append _ data)) (.ok (.appended offset endOffset)) =>
    if named = segment then some ⟨offset, endOffset, data⟩ else none
  | _ => none

namespace Trace

/-- All entries that a segment has ever had. -/
def history (segment : SegmentId) (t : Trace M R O) : List Entry := t.filterMap (Event.landed? segment)

def buffer (segment : SegmentId) (t : Trace M R O) : Framed := (World.after t).store.buffer segment

def oldest (segment : SegmentId) (t : Trace M R O) : Nat := (buffer segment t).start

def mark (segment : SegmentId) (t : Trace M R O) : Option Int := (World.after t).store.mark segment

def cache (t : Trace M R O) (place : Nat) : Option (Revisioned M.State) := ((World.after t).memories place).cache

variable (segment : SegmentId)

@[simp] theorem history_append (t more : Trace M R O) :
    history segment (t ++ more) = history segment t ++ history segment more := List.filterMap_append

theorem history_concat (past : Trace M R O) (e : Event M R O) :
    history segment (past ++ [e]) = history segment past ++ (e.landed? segment).toList := by
  rw [history_append]
  cases landed : e.landed? segment <;> simp [history, landed]

theorem history_le {t t' : Trace M R O} (le : t <+: t') : history segment t <+: history segment t' := by
  obtain ⟨more, rfl⟩ := le
  rw [history_append]
  exact List.prefix_append _ _

end Trace

theorem Trace.cache_concat (past : Trace M R O) (e : Event M R O) (place : Nat) :
    Trace.cache (past ++ [e]) place = past.cache place ∨
      ∃ slot answer, e.caller.place = place ∧ e.deed = .acted (.touch (.remember slot)) answer ∧
        Trace.cache (past ++ [e]) place = slot := by
  obtain ⟨caller, deed⟩ := e
  rw [cache, World.after_concat]
  cases deed with
  | called | failed | gaveUp => exact .inl rfl
  | acted action answer =>
    cases action with
    | ask | generate | summarize => exact .inl rfl
    | abort => exact nomatch answer
    | touch x =>
      simp only [World.note, World.touch]
      by_cases here : place = caller.place
      · subst here
        rw [Function.update_self]
        cases x <;> first | exact .inl rfl | exact .inr ⟨_, _, rfl, rfl, rfl⟩
      · rw [Function.update_of_ne here]
        exact .inl rfl

/-- A deed that leaves a segment as it is. -/
def Deed.Quiet (segment : SegmentId) : Deed M R → Prop
  | .acted (.ask named (.append _ _)) (.ok (.appended _ _)) => named ≠ segment
  | .acted (.ask named (.compareAndSetAttribute _ _ _)) (.ok true) => named ≠ segment
  | .acted (.ask named (.truncateBefore _)) (.ok _) => named ≠ segment
  | _ => True

/-- A deed that moves neither the mark of a segment nor its oldest position. -/
def Deed.Steady (segment : SegmentId) : Deed M R → Prop
  | .acted (.ask named (.compareAndSetAttribute _ _ _)) (.ok true) => named ≠ segment
  | .acted (.ask named (.truncateBefore _)) (.ok _) => named ≠ segment
  | _ => True

theorem Deed.Quiet.steady {segment : SegmentId} {deed : Deed M R} (quiet : deed.Quiet segment) :
    deed.Steady segment := by
  unfold Deed.Steady
  split
  · exact quiet
  · exact quiet
  · trivial

/-- A deed that changes neither a segment nor the cache, and takes or gives back no lock. -/
def Deed.Looks : Deed M R → Prop
  | .acted (.ask _ request) _ => request.Passive
  | .acted (.touch .isClosed) _ | .acted (.touch .cached) _ | .acted (.touch (.tally _)) _
  | .acted (.touch (.sleep _)) _ | .failed .. => True
  | _ => False

/-- A deed that changes no segment and takes or gives back no lock. -/
def Deed.Tends : Deed M R → Prop
  | .acted (.touch (.remember _)) _ => True
  | deed => deed.Looks

/-- A deed that changes neither a segment nor a cache. -/
def Deed.Spares (segment : SegmentId) (deed : Deed M R) : Prop :=
  deed.Quiet segment ∧ ∀ slot answer, deed ≠ .acted (.touch (.remember slot)) answer

def Deed.Retains : Deed M R → Prop
  | .called | .gaveUp => False
  | .acted (.touch t) _ => t.takes? = none ∧ t.gives? = none
  | _ => True

def Deed.Leaves (lock : Lock) : Deed M R → Prop
  | .called | .gaveUp => False
  | .acted (.touch t) _ => t.takes? ≠ some lock ∧ t.gives? ≠ some lock
  | _ => True

theorem Deed.Retains.leaves {deed : Deed M R} (retains : deed.Retains) (lock : Lock) : deed.Leaves lock := by
  cases deed with
  | called | gaveUp => exact retains
  | failed => trivial
  | acted action answer =>
    cases action with
    | touch t =>
      obtain ⟨takes, gives⟩ := retains
      exact ⟨by rw [takes]; exact nofun, by rw [gives]; exact nofun⟩
    | _ => trivial

theorem Deed.Tends.retains {deed : Deed M R} (tends : deed.Tends) : deed.Retains := by
  cases deed with
  | called | gaveUp => exact tends.elim
  | failed => trivial
  | acted action answer =>
    cases action with
    | ask => trivial
    | generate | summarize => trivial
    | abort => exact nomatch answer
    | touch t => cases t <;> first | exact tends.elim | exact ⟨rfl, rfl⟩

theorem Deed.Looks.tends {deed : Deed M R} (looks : deed.Looks) : deed.Tends := by
  unfold Deed.Tends
  split
  · trivial
  · exact looks

theorem Deed.Tends.quiet {deed : Deed M R} (tends : deed.Tends) (segment : SegmentId) : deed.Quiet segment := by
  cases deed with
  | called => trivial
  | failed => trivial
  | gaveUp => trivial
  | acted action answer =>
    cases action with
    | ask segment request =>
      cases request with
      | append | compareAndSetAttribute | truncateBefore => exact tends.elim
      | createSegment | readAt | tailOffset | oldestOffset | getAttribute => trivial
    | touch => trivial
    | generate => trivial
    | summarize => trivial
    | abort => exact nomatch answer

theorem Deed.Looks.spares {deed : Deed M R} (looks : deed.Looks) (segment : SegmentId) : deed.Spares segment := by
  refine ⟨looks.tends.quiet segment, ?_⟩
  rintro slot answer rfl
  exact looks

namespace World

variable {w : World M}

theorem Locked.touch (locked : w.Locked) (caller : Caller O) (t : Touch M.State) : (w.touch caller t).Locked := by
  intro place
  by_cases here : place = caller.place
  · subst here
    cases t <;>
      simp [World.touch, Touch.run, Touch.takes?, Touch.gives?, locked caller.place]
  · simp [World.touch, here, locked place]

theorem Locked.release (locked : w.Locked) (call : Nat) : (w.release call).Locked := by
  have freed : ∀ (flag : Bool) (holder : Option Nat), flag = holder.isSome →
      (flag && holder != some call) = (if holder = some call then none else holder).isSome := by
    rintro _ holder rfl
    cases holder with
    | none => rfl
    | some other => by_cases same : other = call <;> simp [same]
  intro place
  exact ⟨freed _ _ (locked place).1, freed _ _ (locked place).2⟩

theorem Locked.note (locked : w.Locked) (e : Event M R O) : (w.note e).Locked := by
  obtain ⟨caller, deed⟩ := e
  cases deed with
  | called | failed => exact locked
  | gaveUp => exact locked.release caller.call
  | acted action answer =>
    cases action with
    | touch t => exact locked.touch caller t
    | ask | generate | summarize => exact locked
    | abort => exact nomatch answer

theorem locked_after (t : Trace M R O) : (World.after t).Locked := by
  induction t using List.reverseRecOn with
  | nil => exact fun _ => ⟨rfl, rfl⟩
  | append_singleton past e ih =>
    rw [World.after_concat]
    exact ih.note e

theorem Locked.keeps (locked : w.Locked) {me : Caller O} {lock : Lock}
    (holds : w.holders me.place lock = some me.call) {e : Event M R O} (other : e.caller.call ≠ me.call)
    (fits : e.Fits w) (guarded : ∀ action answer, e.deed = .acted action answer → action.Guarded w e.caller) :
    (w.note e).holders me.place lock = some me.call ∧
      lock.Kept (w.memories me.place) ((w.note e).memories me.place) := by
  have self : lock.Kept (w.memories me.place) (w.memories me.place) := by cases lock <;> rfl
  obtain ⟨caller, deed⟩ := e
  have stranger : some caller.call ≠ some me.call := fun same => other (Option.some.inj same)
  cases deed with
  | called | failed => exact ⟨holds, self⟩
  | gaveUp =>
    refine ⟨?_, by cases lock <;> rfl⟩
    show (if _ then none else w.holders me.place lock) = _
    rw [holds, if_neg stranger.symm]
  | acted action answer =>
    cases action with
    | ask | generate | summarize => exact ⟨holds, self⟩
    | abort => exact nomatch answer
    | touch t =>
      have guarded := guarded (.touch t) answer rfl
      by_cases here : me.place = caller.place
      · have taken : t.takes? ≠ some lock := by
          intro takes
          have free := fits.1
          have flags := locked caller.place
          rw [here] at holds
          cases t <;> cases takes <;> simp_all [Touch.Enabled]
        have used : t.needs? ≠ some lock := by
          intro needs
          have mine := guarded lock needs
          rw [here] at holds
          exact stranger (mine.symm.trans holds)
        have given : t.gives? ≠ some lock := by
          intro gives
          apply used
          cases t <;> cases gives <;> rfl
        refine ⟨?_, ?_⟩
        · show (if _ then _ else if _ then _ else w.holders me.place lock) = _
          rw [if_neg (fun both => taken both.2), if_neg (fun both => given both.2), holds]
        · simp only [World.note, World.touch, here, Function.update_self]
          cases t <;> cases lock <;> first | rfl | exact absurd rfl used
      · refine ⟨?_, ?_⟩
        · show (if _ then _ else if _ then _ else w.holders me.place lock) = _
          rw [if_neg (fun both => here both.1), if_neg (fun both => here both.1), holds]
        · simpa only [World.note, World.touch, Function.update_of_ne here] using self

theorem note_holders_of_leaves (w : World M) {e : Event M R O} {lock : Lock} (leaves : e.deed.Leaves lock)
    (place : Nat) : (w.note e).holders place lock = w.holders place lock := by
  obtain ⟨caller, deed⟩ := e
  cases deed with
  | called | gaveUp => exact leaves.elim
  | failed => rfl
  | acted action answer =>
    cases action with
    | ask | generate | summarize => rfl
    | abort => exact nomatch answer
    | touch t =>
      obtain ⟨takes, gives⟩ := leaves
      simp [World.note, World.touch, takes, gives]

theorem note_kept_of_looks (w : World M) {e : Event M R O} (looks : e.deed.Looks) (lock : Lock) (place : Nat) :
    lock.Kept (w.memories place) ((w.note e).memories place) := by
  have self : lock.Kept (w.memories place) (w.memories place) := by cases lock <;> rfl
  obtain ⟨caller, deed⟩ := e
  cases deed with
  | called | gaveUp => exact looks.elim
  | failed => exact self
  | acted action answer =>
    cases action with
    | ask => exact self
    | generate | summarize => exact looks.elim
    | abort => exact nomatch answer
    | touch t =>
      simp only [World.note, World.touch]
      by_cases here : place = caller.place
      · subst here
        rw [Function.update_self]
        cases t <;> first | exact looks.elim | (cases lock <;> rfl)
      · rw [Function.update_of_ne here]
        exact self

end World

theorem World.closed_note (w : World M) (e : Event M R O) {place : Nat} (closed : (w.memories place).closed = true) :
    ((w.note e).memories place).closed = true := by
  obtain ⟨caller, deed⟩ := e
  cases deed with
  | called | failed | gaveUp => exact closed
  | acted action answer =>
    cases action with
    | ask | generate | summarize => exact closed
    | abort => exact nomatch answer
    | touch t =>
      by_cases here : place = caller.place
      · subst here
        simp only [World.note, World.touch, Function.update_self]
        cases t <;> first | exact closed | rfl
      · simpa only [World.note, World.touch, Function.update_of_ne here] using closed

theorem Trace.open_of_le {t t' : Trace M R O} {place : Nat} (le : t <+: t')
    (opened : ((World.after t').memories place).closed = false) : ((World.after t).memories place).closed = false := by
  obtain ⟨more, rfl⟩ := le
  induction more using List.reverseRecOn with
  | nil => rwa [List.append_nil] at opened
  | append_singleton more e ih =>
    rw [← List.append_assoc, World.after_concat] at opened
    refine ih (Bool.eq_false_iff.mpr fun closed => ?_)
    rw [World.closed_note _ e closed] at opened
    cases opened

/-- What an event does to a segment whose log is `log`. -/
inductive Event.Effect (segment : SegmentId) (log : List Entry) (w : World M) (e : Event M R O) : Prop
  | landed (expected : Option Nat) (entry : Entry)
    (deed : e.deed = .acted (.ask segment (.append expected entry.data))
      (.ok (.appended entry.offset entry.endOffset)))
    (begins : entry.offset = ending 0 log) (wanted : ∀ tail, expected = some tail → tail = ending 0 log)
    (logs : (w.note e).store.Logs segment (log ++ [entry]))
    (start : ((w.note e).store.buffer segment).start = (w.store.buffer segment).start)
    (mark : (w.note e).store.mark segment = w.store.mark segment)
  | swapped (key : AttributeKey) (expected new : Option Int)
    (deed : e.deed = .acted (.ask segment (.compareAndSetAttribute key expected new)) (.ok true))
    (found : (w.store.buffer segment).attributes.get? key = expected)
    (logs : (w.note e).store.Logs segment log)
    (start : ((w.note e).store.buffer segment).start = (w.store.buffer segment).start)
    (mark : (w.note e).store.mark segment = if key = .mark then new else w.store.mark segment)
  | truncated (offset : Nat) (deed : e.deed = .acted (.ask segment (.truncateBefore offset)) (.ok ()))
    (logs : (w.note e).store.Logs segment log)
    (start : ((w.note e).store.buffer segment).start = max (w.store.buffer segment).start offset)
    (mark : (w.note e).store.mark segment = w.store.mark segment)
  | still (quiet : e.deed.Quiet segment)
    (same : (w.note e).store.buffer segment = w.store.buffer segment)

namespace Event

variable {segment : SegmentId} {log : List Entry} {w : World M} {e : Event M R O}

theorem landed?_of_quiet (quiet : e.deed.Quiet segment) : e.landed? segment = none := by
  obtain ⟨caller, deed⟩ := e
  unfold landed?
  split
  · rename_i same
    rw [show deed = _ from same] at quiet
    exact if_neg quiet
  · rfl

theorem Fits.effect (fits : e.Fits w) (logs : w.store.Logs segment log) : e.Effect segment log w := by
  obtain ⟨caller, deed⟩ := e
  cases deed with
  | called | failed | gaveUp => exact .still trivial rfl
  | acted action answer =>
    cases action with
    | touch | generate | summarize => exact .still trivial rfl
    | abort => exact nomatch answer
    | ask named request =>
      have reply : answer = (Store.serve named request w.store).1 := fits
      by_cases here : named = segment
      · subst here
        cases request with
        | createSegment | readAt | tailOffset | oldestOffset | getAttribute =>
          exact .still trivial (Store.buffer_serve_of_passive _ trivial)
        | append expected data =>
          rcases logs.append expected data with ⟨entry, lands⟩ | ⟨refused, same⟩
          · have deed : answer = .ok (.appended entry.offset entry.endOffset) := reply.trans lands.reply
            refine .landed expected entry ?_ lands.begins lands.wanted lands.logs lands.start lands.mark
            rw [deed, lands.payload]
          · refine .still ?_ same
            rcases answer with cause | ⟨offset, endOffset⟩ | tail
            · trivial
            · exact absurd reply.symm (refused offset endOffset)
            · trivial
        | compareAndSetAttribute key expected new =>
          obtain ⟨logs', start, ⟨done, found, mark⟩ | ⟨other, same⟩⟩ := logs.compareAndSetAttribute key expected new
          · exact .swapped key expected new (by rw [reply, done]) found logs' start mark
          · refine .still ?_ same
            rcases answer with cause | swapped | swapped
            · trivial
            · trivial
            · exact absurd reply.symm other
        | truncateBefore offset =>
          obtain ⟨logs', mark, ⟨done, start⟩ | ⟨other, same⟩⟩ := logs.truncateBefore offset
          · exact .truncated offset (by rw [reply, done]) logs' start mark
          · refine .still ?_ same
            rcases answer with cause | done
            · trivial
            · exact absurd reply.symm other
      · refine .still ?_ (Store.buffer_serve_of_ne here request)
        show Deed.Quiet segment (.acted (.ask named request) answer)
        unfold Deed.Quiet
        split <;> first | trivial | (rename_i same; cases same; exact here)

theorem Effect.logs (effect : e.Effect segment log w) (logs : w.store.Logs segment log) :
    (w.note e).store.Logs segment (log ++ (e.landed? segment).toList) := by
  cases effect with
  | landed expected entry deed begins wanted logs' start mark => simpa [landed?, deed] using logs'
  | swapped key expected new deed found logs' start mark => simpa [landed?, deed] using logs'
  | truncated offset deed logs' start mark => simpa [landed?, deed] using logs'
  | still quiet same =>
    rw [landed?_of_quiet quiet, Option.toList_none, List.append_nil]
    exact logs.of_buffer_eq same

end Event

/-- Each event was possible when it happened. -/
def Trace.Possible (t : Trace M R O) : Prop := ∀ past e after, t = past ++ e :: after → e.Fits (World.after past)

namespace Trace.Possible

variable {t past : Trace M R O} {e : Event M R O}

theorem of_concat (possible : Trace.Possible (past ++ [e])) : past.Possible ∧ e.Fits (World.after past) :=
  ⟨fun before x after split => possible before x (after ++ [e]) (by simp [split]), possible past e [] rfl⟩

theorem concat (possible : past.Possible) (fits : e.Fits (World.after past)) : Trace.Possible (past ++ [e]) := by
  intro before x after split
  induction after using List.reverseRecOn with
  | nil =>
    obtain ⟨rfl, last⟩ := List.append_inj' split rfl
    cases last
    exact fits
  | append_singleton after last _ =>
    rw [← List.cons_append, ← List.append_assoc] at split
    exact possible before x after (List.append_inj' split rfl).1

theorem of_le (possible : t.Possible) (le : past <+: t) : past.Possible := by
  obtain ⟨more, rfl⟩ := le
  exact fun before x after split => possible before x (after ++ more) (by simp [split])

theorem logs (possible : t.Possible) (segment : SegmentId) :
    (World.after t).store.Logs segment (Trace.history segment t) := by
  induction t using List.reverseRecOn with
  | nil => exact Store.logs_empty segment
  | append_singleton past e ih =>
    obtain ⟨before, fits⟩ := possible.of_concat
    rw [World.after_concat, Trace.history_concat]
    exact (fits.effect (ih before)).logs (ih before)

end Trace.Possible

namespace Lawful

variable {law : Law M R O} {t past : Trace M R O} {e : Event M R O}

theorem of_concat (lawful : Lawful law (past ++ [e])) :
    Lawful law past ∧ e.Fits (World.after past) ∧ e.Obeys law past := by
  generalize whole : past ++ [e] = t at lawful
  cases lawful with
  | nil => exact absurd whole (by simp)
  | concat lawful fits obeys =>
    obtain ⟨rfl, last⟩ := List.append_inj' whole rfl
    cases last
    exact ⟨lawful, fits, obeys⟩

theorem of_le {front : Trace M R O} (lawful : Lawful law t) (le : front <+: t) : Lawful law front := by
  induction lawful with
  | nil =>
    rw [List.prefix_nil.mp le]
    exact .nil
  | concat lawful fits obeys ih =>
    rcases List.prefix_concat_iff.mp le with rfl | short
    · exact .concat lawful fits obeys
    · exact ih short

theorem possible (lawful : Lawful law t) : t.Possible := by
  induction lawful with
  | nil => exact fun past e after split => by simp at split
  | concat lawful fits obeys ih => exact ih.concat fits

theorem logs (lawful : Lawful law t) (segment : SegmentId) :
    (World.after t).store.Logs segment (Trace.history segment t) := lawful.possible.logs segment

theorem effect (lawful : Lawful law (past ++ [e])) (segment : SegmentId) :
    e.Effect segment (Trace.history segment past) (World.after past) :=
  lawful.of_concat.2.1.effect (lawful.of_concat.1.logs segment)

theorem append_of_landed {segment : SegmentId} {entry : Entry} (lawful : Lawful law (past ++ [e]))
    (landed : e.landed? segment = some entry) : ∃ expected,
      e.deed = .acted (.ask segment (.append expected entry.data)) (.ok (.appended entry.offset entry.endOffset)) ∧
      entry.offset = ending 0 (Trace.history segment past) ∧ ∀ tail, expected = some tail → tail = entry.offset := by
  cases lawful.effect segment with
  | landed expected entry' deed begins wanted =>
    have same : e.landed? segment = some entry' := by simp [Event.landed?, deed]
    obtain rfl := Option.some.inj (landed.symm.trans same)
    exact ⟨expected, deed, begins, fun tail here => (wanted tail here).trans begins.symm⟩
  | swapped key expected new deed => simp [Event.landed?, deed] at landed
  | truncated offset deed => simp [Event.landed?, deed] at landed
  | still quiet =>
    rw [Event.landed?_of_quiet quiet] at landed
    cases landed

theorem still_of_quiet (lawful : Lawful law (past ++ [e])) (segment : SegmentId) (quiet : e.deed.Quiet segment) :
    Trace.history segment (past ++ [e]) = Trace.history segment past ∧
      Trace.buffer segment (past ++ [e]) = Trace.buffer segment past := by
  rw [Trace.history_concat, Event.landed?_of_quiet quiet, Trace.buffer, World.after_concat]
  refine ⟨List.append_nil _, ?_⟩
  cases lawful.effect segment with
  | landed expected entry deed => rw [deed] at quiet; exact absurd rfl quiet
  | swapped key expected new deed => rw [deed] at quiet; exact absurd rfl quiet
  | truncated offset deed => rw [deed] at quiet; exact absurd rfl quiet
  | still _ same => exact same

theorem unmoved_of_steady (lawful : Lawful law (past ++ [e])) (segment : SegmentId) (steady : e.deed.Steady segment) :
    Trace.mark segment (past ++ [e]) = Trace.mark segment past ∧
      Trace.oldest segment (past ++ [e]) = Trace.oldest segment past := by
  rw [Trace.mark, Trace.oldest, Trace.buffer, World.after_concat]
  cases lawful.effect segment with
  | landed expected entry deed begins wanted logs start mark => exact ⟨mark, start⟩
  | swapped key expected new deed => rw [deed] at steady; exact absurd rfl steady
  | truncated offset deed => rw [deed] at steady; exact absurd rfl steady
  | still _ same => exact ⟨congrArg (fun f : Framed => f.attributes.get? .mark) same, congrArg Framed.start same⟩

end Lawful

/-- From `t` to `t'` a call has done only what is allowed, among whatever others did. -/
structure Went (law : Law M R O) (me : Caller O) (allowed : Deed M R → Prop) (t t' : Trace M R O) : Prop where
  grows : ∃ more, t' = t ++ more ∧ ∀ e ∈ more, e.caller.call = me.call → allowed e.deed
  lawful : Lawful law t'

abbrev Waited (law : Law M R O) (me : Caller O) : (t t' : Trace M R O) → Prop := Went law me fun _ => False

namespace Went

variable {law : Law M R O} {me : Caller O} {allowed wider : Deed M R → Prop} {t t' t'' : Trace M R O}

theorem refl (lawful : Lawful law t) : Went law me allowed t t := ⟨⟨[], by simp⟩, lawful⟩

theorem trans (first : Went law me allowed t t') (second : Went law me allowed t' t'') :
    Went law me allowed t t'' := by
  obtain ⟨⟨more, rfl, own⟩, _⟩ := first
  obtain ⟨⟨more', rfl, own'⟩, lawful⟩ := second
  refine ⟨⟨more ++ more', List.append_assoc _ _ _, ?_⟩, lawful⟩
  intro e member
  rcases List.mem_append.mp member with member | member
  · exact own e member
  · exact own' e member

theorem mono (went : Went law me allowed t t') (le : ∀ deed, allowed deed → wider deed) :
    Went law me wider t t' := by
  obtain ⟨⟨more, rfl, own⟩, lawful⟩ := went
  exact ⟨⟨more, rfl, fun e member mine => le _ (own e member mine)⟩, lawful⟩

theorem of_waited (waited : Waited law me t t') : Went law me allowed t t' := waited.mono fun _ => False.elim

theorem tends (went : Went law me Deed.Looks t t') : Went law me Deed.Tends t t' := went.mono fun _ => Deed.Looks.tends

theorem steady {segment : SegmentId} (went : Went law me (Deed.Quiet segment) t t') :
    Went law me (Deed.Steady segment) t t' := went.mono fun _ => Deed.Quiet.steady

theorem quiet (went : Went law me Deed.Tends t t') (segment : SegmentId) : Went law me (Deed.Quiet segment) t t' :=
  went.mono fun _ tends => tends.quiet segment

theorem spares (went : Went law me Deed.Looks t t') (segment : SegmentId) : Went law me (Deed.Spares segment) t t' :=
  went.mono fun _ looks => looks.spares segment

theorem spared {segment : SegmentId} (went : Went law me (Deed.Spares segment) t t') :
    Went law me (Deed.Quiet segment) t t' := went.mono fun _ spares => spares.1

theorem concat (went : Went law me allowed t t') {deed : Deed M R} (fine : allowed deed)
    (lawful : Lawful law (t' ++ [⟨me, deed⟩])) : Went law me allowed t (t' ++ [⟨me, deed⟩]) := by
  refine went.trans ⟨⟨[⟨me, deed⟩], rfl, ?_⟩, lawful⟩
  intro e member _
  rw [List.mem_singleton.mp member]
  exact fine

theorem step (waited : Waited law me t t') {deed : Deed M R} (fine : allowed deed)
    (lawful : Lawful law (t' ++ [⟨me, deed⟩])) : Went law me allowed t (t' ++ [⟨me, deed⟩]) :=
  waited.of_waited.concat fine lawful

theorem le (went : Went law me allowed t t') : t <+: t' := by
  obtain ⟨⟨more, rfl, _⟩, _⟩ := went
  exact List.prefix_append _ _

theorem between (went : Went law me allowed t t') (since : t <+: t'') (le : t'' <+: t') :
    Went law me allowed t t'' := by
  obtain ⟨⟨more, rfl, own⟩, lawful⟩ := went
  obtain ⟨first, rfl⟩ := since
  refine ⟨⟨first, rfl, fun e member => own e ?_⟩, lawful.of_le le⟩
  exact ((List.prefix_append_right_inj t).mp le).subset member

theorem leaves {lock : Lock} (went : Went law me (Deed.Leaves lock) t t')
    (held : (World.after t).holders me.place lock = some me.call) :
    (World.after t').holders me.place lock = some me.call := by
  obtain ⟨⟨more, rfl, own⟩, lawful⟩ := went
  induction more using List.reverseRecOn with
  | nil => rwa [List.append_nil]
  | append_singleton more e ih =>
    rw [← List.append_assoc] at lawful ⊢
    obtain ⟨before, fits, obeys⟩ := lawful.of_concat
    have still := ih (fun e member => own e (List.mem_append_left _ member)) before
    rw [World.after_concat]
    by_cases mine : e.caller.call = me.call
    · rw [World.note_holders_of_leaves _ (own e (List.mem_append_right _ (List.mem_singleton_self e)) mine)]
      exact still
    · exact ((World.locked_after _).keeps still mine fits obeys.guarded).1

theorem retains (went : Went law me Deed.Retains t t') {lock : Lock}
    (held : (World.after t).holders me.place lock = some me.call) :
    (World.after t').holders me.place lock = some me.call :=
  (went.mono fun _ retains => retains.leaves lock).leaves held

theorem holds (went : Went law me Deed.Tends t t') {lock : Lock}
    (held : (World.after t).holders me.place lock = some me.call) :
    (World.after t').holders me.place lock = some me.call :=
  (went.mono fun _ => Deed.Tends.retains).retains held

theorem kept (went : Went law me Deed.Looks t t') {lock : Lock}
    (held : (World.after t).holders me.place lock = some me.call) :
    lock.Kept ((World.after t).memories me.place) ((World.after t').memories me.place) := by
  obtain ⟨⟨more, rfl, own⟩, lawful⟩ := went
  induction more using List.reverseRecOn with
  | nil =>
    rw [List.append_nil]
    cases lock <;> rfl
  | append_singleton more e ih =>
    rw [← List.append_assoc] at lawful ⊢
    obtain ⟨before, fits, obeys⟩ := lawful.of_concat
    have own' := fun e member => own e (List.mem_append_left [_] member)
    have kept := ih own' before
    have last : lock.Kept ((World.after (t ++ more)).memories me.place)
        ((World.after (t ++ more ++ [e])).memories me.place) := by
      rw [World.after_concat]
      by_cases mine : e.caller.call = me.call
      · exact World.note_kept_of_looks _
          (own e (List.mem_append_right _ (List.mem_singleton_self e)) mine) lock me.place
      · have tended : Went law me Deed.Tends t (t ++ more) :=
          ⟨⟨more, rfl, fun e member mine => (own' e member mine).tends⟩, before⟩
        exact ((World.locked_after _).keeps (tended.holds held) mine fits obeys.guarded).2
    cases lock with
    | cache => exact last.trans kept
    | removals => exact last.trans kept

theorem cache_eq (went : Went law me Deed.Looks t t')
    (held : (World.after t).holders me.place .cache = some me.call) : t'.cache me.place = t.cache me.place :=
  went.kept held

end Went

end LogReplica
