import LogReplica.Model.Counter
import LogReplica.Proofs.Concurrency.Alone
import LogReplica.Proofs.Replica.Reading
import LogReplica.Proofs.Segment.Refinement

namespace LogReplica

namespace Solo

variable {M : Model} {R α β : Type} (generate : M.State → List M.Update × R) (summarize : M.State → M.Snapshot)

def play (p : Procedure M R α) (s : Solo Store M.State) : Option α × Solo Store M.State :=
  p.evaluate (perform Store.server generate summarize) s

theorem play_step (action : Action M R) (next : action.Answer → Procedure M R α) (s : Solo Store M.State) :
    play generate summarize (.step action next) s =
      match play generate summarize (.perform action) s with
      | (some answer, s) => play generate summarize (next answer) s
      | (none, s) => (none, s) := by
  cases action <;> rfl

theorem play_bind (p : Procedure M R α) (f : α → Procedure M R β) (s : Solo Store M.State) :
    play generate summarize (p >>= f) s =
      match play generate summarize p s with
      | (some a, s) => play generate summarize (f a) s
      | (none, s) => (none, s) := by
  simp only [play, Procedure.evaluate_bind]
  rcases Procedure.evaluate _ p s with ⟨_ | a, s⟩ <;> rfl

theorem play_attempt (call : Attempt M R α) (f : α → Attempt M R β) (s : Solo Store M.State) :
    play generate summarize (call >>= f).run s =
      match play generate summarize call.run s with
      | (some (.ok a), s) => play generate summarize (f a).run s
      | (some (.error cause), s) => (some (.error cause), s)
      | (none, s) => (none, s) := by
  simp only [play, Procedure.evaluate_attempt]
  rcases Procedure.evaluate _ call.run s with ⟨_ | _ | a, s⟩ <;> rfl

theorem play_of_ok {call : Attempt M R α} {s s' : Solo Store M.State} {a : α}
    (played : play generate summarize call.run s = (some (.ok a), s')) (f : α → Attempt M R β) :
    play generate summarize (call >>= f).run s = play generate summarize (f a).run s' :=
  Procedure.evaluate_of_ok _ played f

theorem play_ask (segment : SegmentId) (q : Request) (s : Solo Store M.State) :
    play generate summarize (Attempt.ask segment q : Attempt M R _).run s =
      (some ((Store.serve segment q s.service).1.mapError .ofSegment),
        { s with service := (Store.serve segment q s.service).2 }) := by
  have served : play generate summarize (.perform (.ask segment q) : Procedure M R _) s =
    (some (Store.serve segment q s.service).1, { s with service := (Store.serve segment q s.service).2 }) := rfl
  show play generate summarize (.perform (.ask segment q) >>= _) s = _
  rw [play_bind, served]
  cases (Store.serve segment q s.service).1 <;> rfl

theorem play_ask_of_same {segment : SegmentId} {q : Request} {s : Solo Store M.State}
    (same : (Store.serve segment q s.service).2 = s.service) :
    play generate summarize (Attempt.ask segment q : Attempt M R _).run s =
      (some ((Store.serve segment q s.service).1.mapError .ofSegment), s) := by
  rw [play_ask, same]

theorem run_eq_play (call : Attempt M R α) (s : Solo Store M.State) :
    run Store.server generate summarize call s =
      ((play generate summarize call.run s).1.getD (.error .taskFailed), (play generate summarize call.run s).2) := rfl

section Lift

variable {p : Procedure M R α} {s s' : Solo Store M.State} {a : α} (played : play generate summarize p s = (some a, s'))

include played

theorem play_lift : play generate summarize (ExceptT.lift p : Attempt M R α).run s = (some (.ok a), s') :=
  Procedure.evaluate_lift _ played

theorem run_lift : run Store.server generate summarize (ExceptT.lift p) s = (.ok a, s') := by
  rw [run_eq_play, play_lift generate summarize played]
  rfl

end Lift

end Solo

theorem Apart.append {log more : List Entry} {offset : Nat} (apart : Apart log offset)
    (chain : Contiguous 0 (log ++ more)) (inside : offset < ending 0 log) : Apart (log ++ more) offset := by
  intro before front same
  rcases List.prefix_or_prefix_of_prefix front (List.prefix_append log more) with within | ⟨beyond, rfl⟩
  · exact apart before within same
  · have le := (chain.of_le front).right.le_ending
    rw [← ending_append] at le
    omega

namespace Store

variable {store : Store} {segment : SegmentId}

theorem serve_readAt (offset budget : Nat) : (Store.serve segment (.readAt offset budget) store).2 = store :=
  within_snd_of_same fun _ _ => rfl

theorem serve_tailOffset : (Store.serve segment .tailOffset store).2 = store :=
  within_snd_of_same fun _ _ => rfl

theorem serve_oldestOffset : (Store.serve segment .oldestOffset store).2 = store :=
  within_snd_of_same fun _ _ => rfl

theorem Logs.start_le_serve {log : List Entry} (logs : store.Logs segment log) (other : SegmentId) (q : Request) :
    (store.buffer segment).start ≤ ((Store.serve other q store).2.buffer segment).start := by
  by_cases away : other = segment
  · subst away
    cases q with
    | createSegment | readAt | tailOffset | oldestOffset | getAttribute =>
      rw [buffer_serve_of_passive]
      trivial
    | append expected data =>
      rcases logs.append expected data with ⟨e, lands⟩ | ⟨_, same⟩
      · rw [lands.start]
      · rw [same]
    | compareAndSetAttribute key expected new => rw [(logs.compareAndSetAttribute key expected new).2.1]
    | truncateBefore offset =>
      rcases (logs.truncateBefore offset).2.2 with ⟨_, start⟩ | ⟨_, same⟩
      · rw [start]
        exact Nat.le_max_left _ _
      · rw [same]
  · rw [buffer_serve_of_ne away q]

theorem Logs.readAt_of_apart {log : List Entry} (logs : store.Logs segment log)
    (present : (store.get? segment).isSome = true) {offset : Nat} (apart : Apart log offset) (budget : Nat) :
    (Store.serve segment (.readAt offset budget) store).1 = .error (
      if offset < (store.buffer segment).start then .truncated segment offset (store.buffer segment).start
      else .invalidOffset segment offset (store.buffer segment).tail) := by
  cases reply : (Store.serve segment (.readAt offset budget) store).1 with
  | ok entries =>
    obtain ⟨before, after, split, ends, _⟩ := logs.readAt reply
    exact absurd ends (apart before ⟨entries ++ after, by rw [split, List.append_assoc]⟩)
  | error cause =>
    obtain ⟨_, kept, _, _, keeps⟩ := logs.kept
    simp only [Store.serve, within_fst, if_pos present] at reply
    rcases keeps.readAt_error reply with ⟨rfl, low⟩ | ⟨rfl, high, _⟩
    · rw [if_pos low]
    · rw [if_neg (Nat.not_lt.mpr high)]

structure Later (segment : SegmentId) (log : List Entry) (store store' : Store) : Prop where
  logs : ∃ more, store'.Logs segment (log ++ more)
  present : (store'.get? segment).isSome = true
  start : (store.buffer segment).start ≤ (store'.buffer segment).start

theorem Logs.later {log more : List Entry} (logs : store.Logs segment (log ++ more))
    (present : (store.get? segment).isSome = true) (requests : List (SegmentId × Request)) :
    Later segment log store (LogReplica.transcript Store.serve requests store).2 := by
  induction requests generalizing store more with
  | nil => exact ⟨⟨more, logs⟩, present, Nat.le_refl _⟩
  | cons request rest ih =>
    obtain ⟨other, q⟩ := request
    have grown := logs.serve other q
    rw [List.append_assoc] at grown
    have rest := ih grown (present_serve present other q)
    exact ⟨rest.logs, rest.present, Nat.le_trans (logs.start_le_serve other q) rest.start⟩

end Store

theorem Contiguous.prefix_of_lt {start : Nat} {left right front : List Entry} (chain : Contiguous start (left ++ right))
    (le : front <+: left ++ right) (low : ∀ e ∈ front, e.offset < ending start left) : front <+: left := by
  rcases List.prefix_or_prefix_of_prefix le (List.prefix_append left right) with within | ⟨beyond, rfl⟩
  · exact within
  · cases beyond with
    | nil => simp
    | cons e beyond =>
      have begins := (chain.of_le le).offset_eq
      have := low e (by simp)
      omega

namespace Reader

variable {T : Type} {M : Model} {R : Type} (generate : M.State → List M.Update × R) (summarize : M.State → M.Snapshot)

/-- What a reader gives on a store, and what is then left of it. -/
def answer (r : Reader T) (store : Store) : Pulled T × Reader T :=
  if r.finished then (.finished, r)
  else if !r.buffer.isEmpty then r.pop
  else if r.endOffset ≤ r.nextOffset then (.finished, { r with finished := true })
  else
    match (Store.serve r.client.segment (.readAt r.nextOffset r.client.readBuffer) store).1 with
    | .ok entries => (r.filled entries).pop
    | .error cause => (.failed (.ofSegment cause), { r with finished := true })

theorem play_next (r : Reader T) (s : Solo Store M.State) :
    Solo.play generate summarize r.next s = (some (r.answer s.service), s) := by
  unfold next answer
  split
  · rfl
  split
  · rfl
  split
  · rfl
  have asked : Solo.play generate summarize (refill r : Attempt M R _).run s =
      (some (((Store.serve r.client.segment (.readAt r.nextOffset r.client.readBuffer) s.service).1.mapError
        .ofSegment).map r.filled), s) := by
    rw [refill, Solo.play_attempt, Solo.play_ask_of_same _ _ (Store.serve_readAt _ _)]
    cases (Store.serve r.client.segment (.readAt r.nextOffset r.client.readBuffer) s.service).1 <;> rfl
  rw [Solo.play_bind, asked]
  cases (Store.serve r.client.segment (.readAt r.nextOffset r.client.readBuffer) s.service).1 <;> rfl

/-- What the pulls of these entries give, counted on from `ordinal`, if `last` is given after them: a record for each,
or word that no ordinal is left for it, until one has no value. -/
def items (c : Client T) (last : List (Pulled T)) : (ordinal : Nat) → List Entry → List (Pulled T)
  | _, [] => last
  | ordinal, e :: rest =>
    match c.codec.decode e.data with
    | .error cause => [.failed (.encoding cause)]
    | .ok value =>
      (if ordinal + 1 < Revision.eventLimit then .record ⟨c.segment, e.endOffset, ordinal + 1⟩ value else .uncounted) ::
        items c last (ordinal + 1) rest

def padded (n : Nat) (given : List (Pulled T)) : List (Pulled T) := (given ++ List.replicate n Pulled.finished).take n

theorem padded_cons (n : Nat) (first : Pulled T) (rest : List (Pulled T)) :
    padded (n + 1) (first :: rest) = first :: padded n rest := by
  simp only [padded, List.cons_append, List.take_succ_cons, List.replicate_succ', ← List.append_assoc]
  rw [List.take_append_of_le_length]
  simp

theorem padded_nil (n : Nat) : padded n ([] : List (Pulled T)) = List.replicate n Pulled.finished := by
  simp [padded]

/-- The reader has begun when `log` was all there was, and the entries that it has not fetched are `ahead`. Its
ordinal is as good as `ordinal`, also when there is none after it. -/
structure Goes (r : Reader T) (c : Client T) (log : List Entry) (ordinal : Nat) (ahead : List Entry) : Prop where
  client : r.client = c
  numbered : Revision.nextEvent? r.ordinal = Revision.nextEvent? ordinal
  fetched : ∃ before, log = before ++ ahead ∧ ending 0 before = r.nextOffset
  limit : r.endOffset = ending 0 log

/-- What was given is the item of `e`, and the reader goes on unless this has no value. -/
inductive Gives (r : Reader T) (c : Client T) (log : List Entry) (ordinal : Nat) (ahead : List Entry) (e : Entry)
    (given : Pulled T) : Prop
  | goesOn (going : r.finished = false) (goes : r.Goes c log (ordinal + 1) ahead)
    (item : ∀ last rest, items c last ordinal (e :: rest) = given :: items c last (ordinal + 1) rest)
  | ended (finished : r.finished = true) (goes : r.Goes c log ordinal ahead)
    (item : ∀ last rest, items c last ordinal (e :: rest) = [given])

variable {r : Reader T} {c : Client T} {log ahead : List Entry} {ordinal : Nat} {store : Store}

namespace Goes

theorem nextOffset_of_cons {e : Entry} {rest : List Entry} (goes : r.Goes c log ordinal (e :: rest))
    (chain : Contiguous 0 log) : r.nextOffset = e.offset ∧ r.nextOffset < r.endOffset := by
  obtain ⟨before, rfl, ends⟩ := goes.fetched
  have begins := chain.offset_eq
  have inside := chain.right.lt_ending (List.cons_ne_nil _ _)
  rw [goes.limit, ending_append]
  omega

theorem ahead_eq_nil_iff (goes : r.Goes c log ordinal ahead) (chain : Contiguous 0 log) :
    ahead = [] ↔ r.endOffset ≤ r.nextOffset := by
  cases ahead with
  | nil =>
    obtain ⟨before, rfl, ends⟩ := goes.fetched
    simp [goes.limit, ends]
  | cons e rest =>
    have inside := (goes.nextOffset_of_cons chain).2
    simp only [List.cons_ne_nil, false_iff]
    omega

theorem start_le_nextOffset {e : Entry} {rest : List Entry} {start : Nat} (goes : r.Goes c log ordinal ahead)
    (chain : Contiguous 0 log) (pending : r.buffer ++ ahead = e :: rest)
    (kept : ¬(r.nextOffset < r.endOffset ∧ r.nextOffset < start)) (empty : r.buffer = []) : start ≤ r.nextOffset := by
  rw [empty, List.nil_append] at pending
  subst pending
  exact Nat.le_of_not_lt (not_and.mp kept (goes.nextOffset_of_cons chain).2)

theorem pop {e : Entry} {buffer : List Entry} (goes : r.Goes c log ordinal ahead) (going : r.finished = false)
    (filled : r.buffer = e :: buffer) :
    ∃ given r', r.pop = (given, r') ∧ r'.buffer = buffer ∧ r'.Gives c log ordinal ahead e given := by
  obtain ⟨rfl, numbered, fetched, limit⟩ := goes
  simp only [Reader.pop, filled]
  cases decoded : r.client.codec.decode e.data with
  | error cause =>
    exact ⟨_, _, rfl, rfl, .ended rfl ⟨rfl, numbered, fetched, limit⟩ fun _ _ => by rw [items, decoded]⟩
  | ok value =>
    by_cases counted : ordinal + 1 < Revision.eventLimit
    · have next : Revision.nextEvent? ordinal = some (ordinal + 1) := if_pos counted
      rw [next] at numbered
      simp only [numbered]
      refine ⟨_, _, rfl, rfl, .goesOn going ⟨rfl, rfl, fetched, limit⟩ fun _ _ => ?_⟩
      simp only [items, decoded, if_pos counted]
    · have next : Revision.nextEvent? ordinal = none := if_neg counted
      have after : Revision.nextEvent? (ordinal + 1) = none := if_neg (by omega)
      rw [next] at numbered
      simp only [numbered]
      refine ⟨_, _, rfl, rfl, .goesOn going ⟨rfl, numbered.trans after.symm, fetched, limit⟩ fun _ _ => ?_⟩
      simp only [items, decoded, if_neg counted]

theorem filled {entries more : List Entry} (goes : r.Goes c log ordinal ahead) (some : ahead ≠ [])
    (logs : store.Logs c.segment (log ++ more)) {budget : Nat}
    (reply : (Store.serve c.segment (.readAt r.nextOffset budget) store).1 = .ok entries) :
    ∃ e got rest, ahead = e :: (got ++ rest) ∧ (r.filled entries).buffer = e :: got ∧
      (r.filled entries).Goes c log ordinal rest := by
  obtain ⟨before, split, ends⟩ := goes.fetched
  obtain ⟨front, after, whole, starts, nonempty⟩ := logs.readAt reply
  have chain := logs.chain
  -- what is read begins where the reader has stopped
  have same : front = before := by
    apply chain.prefix_eq _ _ (starts.trans ends.symm)
    · exact ⟨entries ++ after, by rw [whole, List.append_assoc]⟩
    · exact ⟨ahead ++ more, by rw [split, List.append_assoc]⟩
  subst same
  have joined : log ++ more = front ++ (ahead ++ more) := by rw [split, List.append_assoc]
  have read : ahead ++ more = entries ++ after :=
    List.append_cancel_left (joined.symm.trans (whole.trans (List.append_assoc _ _ _)))
  rw [joined] at chain
  have inside : r.nextOffset < r.endOffset := by
    obtain ⟨e, rest, rfl⟩ := List.exists_cons_of_ne_nil some
    exact (goes.nextOffset_of_cons logs.chain.left).2
  have tail : ending 0 (log ++ more) ≠ r.nextOffset := by
    have le := logs.chain.right.le_ending
    rw [← ending_append, ← goes.limit] at le
    omega
  have following : Contiguous r.nextOffset (entries ++ after) := read ▸ ends ▸ chain.right
  obtain ⟨e, got, taken, _⟩ := Deployment.takeWhile_entries following.left (nonempty tail.symm) inside
  have kept : e :: got <+: ahead ++ more :=
    read ▸ (taken ▸ List.takeWhile_prefix _).trans (List.prefix_append entries after)
  have low : ∀ other ∈ e :: got, other.offset < ending r.nextOffset ahead := by
    intro other member
    rw [← taken] at member
    have before := of_decide_eq_true (List.all_eq_true.mp List.all_takeWhile other member)
    rwa [goes.limit, split, ending_append, ends] at before
  obtain ⟨rest, rfl⟩ := (read ▸ following).prefix_of_lt kept low
  refine ⟨e, got, rest, rfl, ?_⟩
  rw [r.filled_eq r.nextOffset taken]
  refine ⟨rfl, goes.client, goes.numbered, ⟨front ++ (e :: got), ?_, ?_⟩, goes.limit⟩
  · rw [split, List.append_assoc]
  · rw [ending_append, ends]

end Goes

theorem answer_of_finished (finished : r.finished = true) (store : Store) : r.answer store = (.finished, r) := by
  rw [answer, if_pos finished]

theorem answer_of_buffer (going : r.finished = false) (filled : r.buffer ≠ []) (store : Store) :
    r.answer store = r.pop := by
  simp [answer, going, filled]

theorem answer_of_end (going : r.finished = false) (empty : r.buffer = []) (through : r.endOffset ≤ r.nextOffset)
    (store : Store) : r.answer store = (.finished, { r with finished := true }) := by
  simp [answer, going, empty, through]

theorem answer_of_ahead (going : r.finished = false) (empty : r.buffer = []) (ahead : r.nextOffset < r.endOffset)
    (store : Store) :
    r.answer store = match (Store.serve r.client.segment (.readAt r.nextOffset r.client.readBuffer) store).1 with
      | .ok entries => (r.filled entries).pop
      | .error cause => (.failed (.ofSegment cause), { r with finished := true }) := by
  simp [answer, going, empty, Nat.not_le.mpr ahead]

theorem answer_of_refused (going : r.finished = false) (empty : r.buffer = []) (ahead : r.nextOffset < r.endOffset)
    {cause : SegmentError}
    (reply : (Store.serve r.client.segment (.readAt r.nextOffset r.client.readBuffer) store).1 = .error cause) :
    r.answer store = (.failed (.ofSegment cause), { r with finished := true }) := by
  rw [answer_of_ahead going empty ahead, reply]

theorem answer_of_dropped (going : r.finished = false) (empty : r.buffer = []) (ahead : r.nextOffset < r.endOffset)
    (present : (store.get? r.client.segment).isSome = true)
    (dropped : r.nextOffset < (store.buffer r.client.segment).start) :
    r.answer store = (.failed (.dataTruncated r.client.segment r.nextOffset (store.buffer r.client.segment).start),
      { r with finished := true }) := by
  have reply : (Store.serve r.client.segment (.readAt r.nextOffset r.client.readBuffer) store).1 =
      .error (.truncated r.client.segment r.nextOffset (store.buffer r.client.segment).start) := by
    simp only [Store.serve, Store.within_fst, if_pos present, Framed.readAt, if_pos dropped]
    rfl
  exact answer_of_refused going empty ahead reply

theorem Goes.answer_of_cons {e : Entry} {rest more : List Entry} (goes : r.Goes c log ordinal ahead)
    (going : r.finished = false) (logs : store.Logs c.segment (log ++ more))
    (present : (store.get? c.segment).isSome = true) (pending : r.buffer ++ ahead = e :: rest)
    (reached : r.buffer = [] → (store.buffer c.segment).start ≤ r.nextOffset) :
    ∃ given r' ahead', r.answer store = (given, r') ∧ r'.buffer ++ ahead' = rest ∧
      r'.Gives c log ordinal ahead' e given := by
  cases filled : r.buffer with
  | cons first buffer =>
    rw [filled, List.cons_append] at pending
    obtain ⟨rfl, rfl⟩ := List.cons.inj pending
    obtain ⟨given, r', popped, left, gives⟩ := goes.pop going filled
    refine ⟨given, r', ahead, ?_, by rw [left], gives⟩
    rw [answer_of_buffer going (by rw [filled]; exact List.cons_ne_nil _ _), popped]
  | nil =>
    rw [filled, List.nil_append] at pending
    subst pending
    obtain ⟨begins, inside⟩ := goes.nextOffset_of_cons logs.chain.left
    obtain ⟨before, split, ends⟩ := goes.fetched
    rw [answer_of_ahead going filled inside, goes.client]
    cases reply : (Store.serve c.segment (.readAt r.nextOffset c.readBuffer) store).1 with
    | ok entries =>
      obtain ⟨first, got, rest', same, buffered, goes'⟩ := goes.filled (List.cons_ne_nil _ _) logs reply
      obtain ⟨rfl, rfl⟩ := List.cons.inj same
      obtain ⟨given, r', popped, left, gives⟩ := goes'.pop going buffered
      exact ⟨given, r', rest', popped, by rw [left], gives⟩
    | error cause =>
      exfalso
      cases logs.refused reply with
      | absent _ none =>
        rw [none] at present
        cases present
      | truncated _ _ low =>
        have := reached filled
        omega
      | unreadable _ _ tail apart =>
        refine apart before ?_ ends
        exact ⟨e :: rest ++ more, by rw [split, List.append_assoc]⟩

structure Pull (T : Type) where
  reader : Reader T
  store : Store
  given : Pulled T

namespace Pull

def oldest (p : Pull T) : Nat := (p.store.buffer p.reader.client.segment).start

def tail (p : Pull T) : Nat := (p.store.buffer p.reader.client.segment).tail

/-- The next entry to fetch has been dropped. -/
def Missed (p : Pull T) : Prop := p.reader.nextOffset < p.reader.endOffset ∧ p.reader.nextOffset < p.oldest

end Pull

def pulls : List (List (SegmentId × Request)) → Reader T → Solo Store M.State → List (Pull T)
  | [], _, _ => []
  | others :: rounds, r, s =>
    let met := { s with service := (transcript Store.serve others s.service).2 }
    match Solo.run Store.server generate summarize (ExceptT.lift r.next) met with
    | (.ok (given, r'), s') => ⟨r, met.service, given⟩ :: pulls rounds r' s'
    | (.error _, _) => []

def oldestAt (taken : List (Pull T)) (i : Nat) : Nat := (taken[i]?.map Pull.oldest).getD 0

section Runs

variable {others : List (SegmentId × Request)} {rounds : List (List (SegmentId × Request))} {s : Solo Store M.State}

@[simp] theorem oldestAt_zero (p : Pull T) (taken : List (Pull T)) : oldestAt (p :: taken) 0 = p.oldest := rfl

@[simp] theorem oldestAt_succ (p : Pull T) (taken : List (Pull T)) (i : Nat) :
    oldestAt (p :: taken) (i + 1) = oldestAt taken i := rfl

theorem pulls_cons : pulls generate summarize (others :: rounds) r s =
    ⟨r, (transcript Store.serve others s.service).2, (r.answer (transcript Store.serve others s.service).2).1⟩ ::
      pulls generate summarize rounds (r.answer (transcript Store.serve others s.service).2).2
        { s with service := (transcript Store.serve others s.service).2 } := by
  rw [pulls, Solo.run_lift generate summarize (play_next generate summarize r _)]

variable (rounds) in
theorem pulls_of_finished (finished : r.finished = true) :
    (pulls generate summarize rounds r s).map Pull.given = List.replicate rounds.length .finished ∧
      ∀ p ∈ pulls generate summarize rounds r s, p.reader = r := by
  induction rounds generalizing s with
  | nil => exact ⟨rfl, nofun⟩
  | cons others rounds ih =>
    rw [pulls_cons, answer_of_finished finished]
    obtain ⟨given, readers⟩ := @ih { s with service := (transcript Store.serve others s.service).2 }
    constructor
    · rw [List.map_cons, given]
      rfl
    · intro p member
      rcases List.mem_cons.mp member with rfl | later
      · rfl
      · exact readers p later

variable (rounds) in
theorem pulls_of_ended {given : Pulled T} {r' : Reader T}
    (same : r.answer (transcript Store.serve others s.service).2 = (given, r')) (finished : r'.finished = true) :
    (pulls generate summarize (others :: rounds) r s).map Pull.given = padded (rounds.length + 1) [given] ∧
      ∀ p ∈ pulls generate summarize (others :: rounds) r s, p.reader = r ∨ p.reader = r' := by
  obtain ⟨after, readers⟩ := @pulls_of_finished _ _ _ generate summarize r' rounds
    { s with service := (transcript Store.serve others s.service).2 } finished
  rw [pulls_cons, same]
  constructor
  · rw [List.map_cons, after, padded_cons, padded_nil]
  · intro p member
    rcases List.mem_cons.mp member with rfl | later
    · exact .inl rfl
    · exact .inr (readers p later)

variable {more : List Entry}

theorem pulls_whole (goes : r.Goes c log ordinal ahead) (going : r.finished = false)
    (logs : s.service.Logs c.segment (log ++ more)) (present : (s.service.get? c.segment).isSome = true)
    (met : ∀ p ∈ pulls generate summarize rounds r s, ¬p.Missed) :
    (pulls generate summarize rounds r s).map Pull.given =
      padded rounds.length (items c [] ordinal (r.buffer ++ ahead)) := by
  induction rounds generalizing r s ordinal ahead more with
  | nil => rfl
  | cons others rounds ih =>
    obtain ⟨⟨added, logs'⟩, present', _⟩ := logs.later present others
    rw [pulls_cons] at met ⊢
    obtain ⟨first, later⟩ := List.forall_mem_cons.mp met
    rw [List.map_cons, List.length_cons]
    cases pending : r.buffer ++ ahead with
    | nil =>
      obtain ⟨empty, rfl⟩ := List.append_eq_nil_iff.mp pending
      have through := (goes.ahead_eq_nil_iff logs.chain.left).mp rfl
      rw [answer_of_end going empty through, (pulls_of_finished generate summarize rounds rfl).1, items, padded_nil]
      rfl
    | cons e rest =>
      have reached := goes.start_le_nextOffset logs.chain.left pending first
      rw [Pull.oldest, goes.client] at reached
      obtain ⟨given, r', ahead', same, left, gives⟩ := goes.answer_of_cons going logs' present' pending reached
      rw [same] at later ⊢
      cases gives with
      | goesOn going' goes' item =>
        rw [ih goes' going' logs' present' later, item, padded_cons, left]
      | ended finished goes' item =>
        rw [(pulls_of_finished generate summarize rounds finished).1, item, padded_cons, padded_nil]

variable (rounds) in
theorem pulls_dropped {e : Entry} {rest : List Entry} (goes : r.Goes c log ordinal (e :: rest))
    (going : r.finished = false) (logs : s.service.Logs c.segment (log ++ more))
    (present : (s.service.get? c.segment).isSome = true)
    (dropped : r.nextOffset < (s.service.buffer c.segment).start) :
    (pulls generate summarize rounds r s).map Pull.given =
        padded rounds.length (items c [.failed (.dataTruncated c.segment e.offset
          (oldestAt (pulls generate summarize rounds r s) r.buffer.length))] ordinal r.buffer) ∧
      ∀ p ∈ pulls generate summarize rounds r s, p.reader.nextOffset = e.offset := by
  induction rounds generalizing r s ordinal more with
  | nil => exact ⟨rfl, nofun⟩
  | cons others rounds ih =>
    obtain ⟨⟨added, logs'⟩, present', later⟩ := logs.later present others
    obtain ⟨begins, inside⟩ := goes.nextOffset_of_cons logs.chain.left
    have dropped' : r.nextOffset < ((transcript Store.serve others s.service).2.buffer c.segment).start := by omega
    cases filled : r.buffer with
    | nil =>
      have client : c = r.client := goes.client.symm
      subst client
      have given := answer_of_dropped going filled inside present' dropped'
      obtain ⟨given, readers⟩ := pulls_of_ended generate summarize rounds given rfl
      rw [pulls_cons] at given ⊢
      constructor
      · rw [given, List.length_nil, oldestAt_zero, items, begins]
        rfl
      · intro p member
        rw [← pulls_cons] at member
        rcases readers p member with same | same <;> rw [same] <;> exact begins
    | cons first buffer =>
      obtain ⟨given, r', popped, left, gives⟩ := goes.pop going filled
      have same : r.answer (transcript Store.serve others s.service).2 = (given, r') := by
        rw [answer_of_buffer going (by rw [filled]; exact List.cons_ne_nil _ _), popped]
      cases gives with
      | goesOn going' goes' item =>
        have begins' := (goes'.nextOffset_of_cons logs.chain.left).1
        obtain ⟨after, readers⟩ := ih (s := { s with service := (transcript Store.serve others s.service).2 })
          goes' going' logs' present' (begins'.trans begins.symm ▸ dropped')
        rw [pulls_cons, same]
        constructor
        · rw [List.map_cons, after, List.length_cons, item, padded_cons, left]
          rfl
        · intro p member
          rcases List.mem_cons.mp member with rfl | member
          · exact begins
          · exact readers p member
      | ended finished goes' item =>
        obtain ⟨given, readers⟩ := pulls_of_ended generate summarize rounds same finished
        rw [given, item]
        refine ⟨rfl, ?_⟩
        intro p member
        rcases readers p member with same | same <;> rw [same]
        · exact begins
        · exact (goes'.nextOffset_of_cons logs.chain.left).1

theorem pulls_cut (goes : r.Goes c log ordinal ahead) (going : r.finished = false)
    (logs : s.service.Logs c.segment (log ++ more)) (present : (s.service.get? c.segment).isSome = true)
    {p : Pull T} (member : p ∈ pulls generate summarize rounds r s) (missed : p.Missed) :
    ∃ fetched e rest, r.buffer ++ ahead = fetched ++ e :: rest ∧ p.reader.nextOffset = e.offset ∧
      (pulls generate summarize rounds r s).map Pull.given =
        padded rounds.length (items c [.failed (.dataTruncated c.segment e.offset
          (oldestAt (pulls generate summarize rounds r s) fetched.length))] ordinal fetched) := by
  induction rounds generalizing r s ordinal ahead more with
  | nil => cases member
  | cons others rounds ih =>
    obtain ⟨⟨added, logs'⟩, present', later⟩ := logs.later present others
    by_cases dropped : r.nextOffset < r.endOffset ∧
        r.nextOffset < ((transcript Store.serve others s.service).2.buffer c.segment).start
    · cases ahead with
      | nil =>
        have through := (goes.ahead_eq_nil_iff logs.chain.left).mp rfl
        omega
      | cons e rest =>
        -- what was asked before the first pull may as well have been asked long before
        have same : pulls generate summarize (others :: rounds) r s =
            pulls generate summarize ([] :: rounds) r
              { s with service := (transcript Store.serve others s.service).2 } := by
          rw [pulls_cons, pulls_cons]
          rfl
        rw [same] at member ⊢
        obtain ⟨given, readers⟩ := pulls_dropped generate summarize ([] :: rounds)
          (s := { s with service := (transcript Store.serve others s.service).2 }) goes going logs' present' dropped.2
        exact ⟨r.buffer, e, rest, rfl, readers p member, given⟩
    · have member : p ∈ pulls generate summarize rounds (r.answer (transcript Store.serve others s.service).2).2
          { s with service := (transcript Store.serve others s.service).2 } := by
        rw [pulls_cons] at member
        rcases List.mem_cons.mp member with rfl | later
        · exact absurd (goes.client ▸ missed) dropped
        · exact later
      cases pending : r.buffer ++ ahead with
      | nil =>
        obtain ⟨empty, rfl⟩ := List.append_eq_nil_iff.mp pending
        have through := (goes.ahead_eq_nil_iff logs.chain.left).mp rfl
        rw [answer_of_end going empty through] at member
        have same := (pulls_of_finished generate summarize rounds rfl).2 p member
        rw [Pull.Missed, same] at missed
        exact absurd missed.1 (Nat.not_lt.mpr through)
      | cons e rest =>
        have reached := goes.start_le_nextOffset logs.chain.left pending dropped
        obtain ⟨given, r', ahead', same, left, gives⟩ := goes.answer_of_cons going logs' present' pending reached
        rw [pulls_cons, same, List.map_cons]
        rw [same] at member
        cases gives with
        | goesOn going' goes' item =>
          obtain ⟨fetched, e', rest', split, begins, after⟩ := ih goes' going' logs' present' member
          refine ⟨e :: fetched, e', rest', by rw [← left, split, List.cons_append], begins, ?_⟩
          rw [after, List.length_cons, List.length_cons, oldestAt_succ, item, padded_cons]
        | ended finished goes' item =>
          obtain ⟨after, readers⟩ := pulls_of_finished generate summarize rounds
            (s := { s with service := (transcript Store.serve others s.service).2 }) finished
          rw [Pull.Missed, readers p member] at missed
          cases ahead' with
          | nil =>
            have through := (goes'.ahead_eq_nil_iff logs.chain.left).mp rfl
            exact absurd missed.1 (Nat.not_lt.mpr through)
          | cons e' rest' =>
            have begins := (goes'.nextOffset_of_cons logs.chain.left).1
            refine ⟨e :: r'.buffer, e', rest', by rw [← left, List.cons_append], readers p member ▸ begins, ?_⟩
            rw [after, item, List.length_cons, padded_cons, padded_nil]

theorem length_pulls : (pulls generate summarize rounds r s).length = rounds.length := by
  induction rounds generalizing r s with
  | nil => rfl
  | cons others rounds ih => rw [pulls_cons, List.length_cons, List.length_cons, ih]

theorem pulls_past (going : r.finished = false) (empty : r.buffer = []) (past : r.endOffset ≤ r.nextOffset) :
    (pulls generate summarize rounds r s).map Pull.given = padded rounds.length [] := by
  cases rounds with
  | nil => rfl
  | cons others rounds =>
    rw [(pulls_of_ended generate summarize rounds (answer_of_end going empty past _) rfl).1, List.length_cons,
      padded_cons, padded_nil, padded_nil]
    rfl

theorem pulls_inside (goes : r.client = c) (going : r.finished = false) (empty : r.buffer = [])
    (ahead : r.nextOffset < r.endOffset) (limit : r.endOffset = ending 0 log)
    (logs : s.service.Logs c.segment log) (present : (s.service.get? c.segment).isSome = true)
    (apart : Apart log r.nextOffset) {first : Pull T} {later : List (Pull T)}
    (taken : pulls generate summarize rounds r s = first :: later) :
    (first :: later).map Pull.given = padded (later.length + 1)
      [.failed (if r.nextOffset < first.oldest then .dataTruncated c.segment r.nextOffset first.oldest
        else .service (.invalidOffset c.segment r.nextOffset first.tail))] := by
  subst goes
  cases rounds with
  | nil => cases taken
  | cons others rounds =>
    obtain ⟨⟨added, logs'⟩, present', _⟩ :=
      (show s.service.Logs _ (log ++ []) by rwa [List.append_nil]).later present others
    have refused := logs'.readAt_of_apart present' (apart.append logs'.chain (limit ▸ ahead)) r.client.readBuffer
    have answered := answer_of_refused going empty ahead refused
    have count := congrArg List.length taken
    obtain ⟨given, _⟩ := pulls_of_ended generate summarize rounds answered rfl
    rw [length_pulls, List.length_cons, List.length_cons] at count
    rw [taken] at given
    rw [given, Nat.succ.inj count]
    rw [pulls_cons] at taken
    obtain ⟨rfl, _⟩ := List.cons.inj taken
    rw [apply_ite CoreError.ofSegment]
    rfl

end Runs

/-- What the pulls of a reading from `start` give, where `log` was all there was when it began. -/
structure Exact (c : Client T) (start : Revision) (log : List Entry) (rounds : List (List (SegmentId × Request)))
    (taken : List (Pull T)) : Prop where
  answered : taken.length = rounds.length
  /-- From a boundary on, all that was there is given, unless a pull finds that the next entry has been dropped. -/
  whole : ∀ before pending, log = before ++ pending → ending 0 before = start.offset → (∀ p ∈ taken, ¬p.Missed) →
    taken.map Pull.given = padded taken.length (items c [] start.event pending)
  /-- Then what comes before this entry is given, and the error. -/
  cut : ∀ before pending, log = before ++ pending → ending 0 before = start.offset → ∀ p ∈ taken, p.Missed →
    ∃ fetched e rest, pending = fetched ++ e :: rest ∧ p.reader.nextOffset = e.offset ∧
      taken.map Pull.given = padded taken.length
        (items c [.failed (.dataTruncated c.segment e.offset (oldestAt taken fetched.length))] start.event fetched)
  inside : Apart log start.offset → start.offset < ending 0 log → ∀ first later, taken = first :: later →
    taken.map Pull.given = padded taken.length
      [.failed (if start.offset < first.oldest then .dataTruncated c.segment start.offset first.oldest
        else .service (.invalidOffset c.segment start.offset first.tail))]
  past : ending 0 log ≤ start.offset → taken.map Pull.given = padded taken.length []

end Reader

namespace Client

open Reader

variable {T : Type} {M : Model} {R : Type} (generate : M.State → List M.Update × R) (summarize : M.State → M.Snapshot)

section Asking

variable {c : Client T} {s : Solo Store M.State}

theorem play_ensureOpen (opened : s.memory.closed = false) :
    Solo.play generate summarize (ensureOpen : Attempt M R Unit).run s = (some (.ok ()), s) := by
  have touched : Solo.play generate summarize (Attempt.touch .isClosed : Attempt M R Bool).run s =
    (some (.ok s.memory.closed), s) := rfl
  rw [ensureOpen, Solo.play_of_ok generate summarize touched, opened]
  rfl

variable (present : (s.service.get? c.segment).isSome = true)

include present

theorem play_oldestOffset : Solo.play generate summarize (c.ask .oldestOffset : Attempt M R Nat).run s =
    (some (.ok (s.service.buffer c.segment).start), s) := by
  rw [ask, Solo.play_ask_of_same _ _ Store.serve_oldestOffset]
  simp only [Store.serve, Store.within_fst, if_pos present]
  rfl

theorem play_tailOffset : Solo.play generate summarize (c.ask .tailOffset : Attempt M R Nat).run s =
    (some (.ok (s.service.buffer c.segment).tail), s) := by
  rw [ask, Solo.play_ask_of_same _ _ Store.serve_tailOffset]
  simp only [Store.serve, Store.within_fst, if_pos present]
  rfl

end Asking

section Reading

variable {c : Client T} {start : Revision} {s : Solo Store M.State} (own : start.segment = c.segment)
  (present : (s.service.get? c.segment).isSome = true) (opened : s.memory.closed = false)

include own present opened

theorem play_readFrom : Solo.play generate summarize (c.readFrom start : Attempt M R _).run s =
    if start.offset < (s.service.buffer c.segment).start then
      (some (.error (.dataTruncated c.segment start.offset (s.service.buffer c.segment).start)), s)
    else (some (.ok { client := c, nextOffset := start.offset, endOffset := (s.service.buffer c.segment).tail,
                      ordinal := start.event }), s) := by
  have checked : (c.checkSegment start : Attempt M R Unit) = pure () := if_pos own
  rw [readFrom, Solo.play_of_ok generate summarize (play_ensureOpen generate summarize opened),
    checked, pure_bind, Solo.play_of_ok generate summarize (play_oldestOffset generate summarize present)]
  split
  · rfl
  · rw [Solo.play_of_ok generate summarize (play_tailOffset generate summarize present)]
    rfl

theorem run_readFrom : Solo.run Store.server generate summarize (c.readFrom start) s =
    if start.offset < (s.service.buffer c.segment).start then
      (.error (.dataTruncated c.segment start.offset (s.service.buffer c.segment).start), s)
    else (.ok { client := c, nextOffset := start.offset, endOffset := (s.service.buffer c.segment).tail,
                ordinal := start.event }, s) := by
  rw [Solo.run_eq_play, play_readFrom generate summarize own present opened]
  split <;> rfl

end Reading

/-- A reading answers at once if it begins in what has been dropped, and else gives exactly what was there. -/
theorem iteration_exact {c : Client T} {start : Revision} {log : List Entry} {s : Solo Store M.State}
    (own : start.segment = c.segment) (logs : s.service.Logs c.segment log)
    (present : (s.service.get? c.segment).isSome = true) (opened : s.memory.closed = false) :
    (start.offset < (s.service.buffer c.segment).start →
      Solo.run Store.server generate summarize (c.readFrom start) s =
        (.error (.dataTruncated c.segment start.offset (s.service.buffer c.segment).start), s)) ∧
    ((s.service.buffer c.segment).start ≤ start.offset → ∃ r,
      Solo.run Store.server generate summarize (c.readFrom start) s = (.ok r, s) ∧
        ∀ rounds, Exact c start log rounds (pulls generate summarize rounds r s)) := by
  have begun := run_readFrom generate summarize own present opened
  refine ⟨fun low => by rw [begun, if_pos low], fun high => ⟨_, by rw [begun, if_neg (Nat.not_lt.mpr high)], ?_⟩⟩
  intro rounds
  have limit := logs.tail_eq
  have grown : s.service.Logs c.segment (log ++ []) := by rwa [List.append_nil]
  have goes : ∀ {before pending}, log = before ++ pending → ending 0 before = start.offset →
      Goes { client := c, nextOffset := start.offset, endOffset := (s.service.buffer c.segment).tail,
             ordinal := start.event : Reader T } c log start.event pending :=
    fun split ends => ⟨rfl, rfl, ⟨_, split, ends⟩, limit⟩
  constructor
  case answered => exact length_pulls generate summarize
  case whole =>
    intro before pending split ends met
    rw [length_pulls]
    exact pulls_whole generate summarize (goes split ends) rfl grown present met
  case cut =>
    intro before pending split ends p member missed
    rw [length_pulls]
    exact pulls_cut generate summarize (goes split ends) rfl grown present member missed
  case inside =>
    intro apart inside first later taken
    rw [taken]
    exact pulls_inside generate summarize rfl rfl rfl (limit ▸ inside) limit logs present apart taken
  case past =>
    intro past
    rw [length_pulls]
    exact pulls_past generate summarize rfl rfl (limit ▸ past)

def single : Client Bytes := ⟨⟨"scope", "stream", 0⟩, 0, Codec.raw⟩

def shelf (payloads : List Bytes) : Solo Store Int64 where
  memory := {}
  service := (transcript Store.serve ((single.segment, .createSegment) ::
    payloads.map fun data => (single.segment, .append none data)) .empty).2

/-- The second of three entries is dropped after the first one was given. -/
theorem dropping_exact :
    ∃ log r, log = [⟨0, 5, [7]⟩, ⟨5, 10, [8]⟩, ⟨10, 15, [9]⟩] ∧
      Exact single ⟨single.segment, 0, 40⟩ log [[], [(single.segment, .truncateBefore 10)], []]
        (pulls (M := .counter) (fun _ => ([], ())) id [[], [(single.segment, .truncateBefore 10)], []] r
          (shelf [[7], [8], [9]])) ∧
      (pulls (M := .counter) (fun _ => ([], ())) id [[], [(single.segment, .truncateBefore 10)], []] r
        (shelf [[7], [8], [9]])).map Pull.given =
          [.record ⟨single.segment, 5, 41⟩ [7], .failed (.dataTruncated single.segment 5 10), .finished] := by
  have logs : (shelf [[7], [8], [9]]).service.Logs single.segment [⟨0, 5, [7]⟩, ⟨5, 10, [8]⟩, ⟨10, 15, [9]⟩] :=
    (Store.logs_empty single.segment).transcript _
  have here : (⟨single.segment, 0, 40⟩ : Revision).segment = single.segment := rfl
  obtain ⟨r, begun, exact⟩ := (iteration_exact (M := .counter) (fun _ => ([], ())) id here logs rfl rfl).2
    (Nat.le_refl 0)
  cases Except.ok.inj (congrArg Prod.fst begun)
  exact ⟨_, _, rfl, exact _, rfl⟩

/-- The record after the last ordinal is not given, and the pull that would give it answers nothing. -/
theorem last_ordinal_uncounted :
    ∃ r, Solo.run Store.server (M := .counter) (fun _ => ([], ())) id
        (single.readFrom ⟨single.segment, 0, 2 ^ 64 - 1⟩) (shelf [[7]]) = (.ok r, shelf [[7]]) ∧
      (pulls (M := .counter) (fun _ => ([], ())) id [[]] r (shelf [[7]])).map Pull.given ≠
        [.record ⟨single.segment, 5, 2 ^ 64 - 1 + 1⟩ [7]] :=
  ⟨_, rfl, nofun⟩

end Client

end LogReplica
