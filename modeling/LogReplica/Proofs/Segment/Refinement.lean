import LogReplica.Proofs.Segment.Ledger
import LogReplica.Proofs.Segment.Log

namespace LogReplica

theorem findGreatest_add_one {fits : Nat → Prop} [DecidablePred fits] (first : fits 1) (n : Nat) :
    Nat.findGreatest fits (n + 1) = Nat.findGreatest (fun k => fits (k + 1)) n + 1 := by
  induction n with
  | zero => simp [first]
  | succ n ih =>
    rw [Nat.findGreatest_succ, ih, Nat.findGreatest_succ]
    split <;> rfl

namespace Framed

structure Refines (f : Framed) (l : Ledger) : Prop where
  start : f.start = l.base
  keeps : f.Keeps l.entries
  attributes : ∀ key, f.attributes.get? key = l.attributes key

theorem Keeps.gather_more {f : Framed} {before rest : List Entry} (h : f.Keeps (before ++ rest)) (budget : Nat)
    {used : Nat} (some : used ≠ 0) :
    f.gather budget (rest.map Entry.offset) used =
      .ok (rest.take (Nat.findGreatest
        (fun n => used + framedSize ((rest.take n).map Entry.data) ≤ budget) rest.length)) := by
  induction rest generalizing before used with
  | nil => rfl
  | cons e rest ih =>
    have begins := h.chain.offset_eq
    have ends := h.chain.endOffset_eq
    have h' : f.Keeps ((before ++ [e]) ++ rest) := by simpa using h
    have size : e.endOffset - e.offset = headerSize + e.data.length := by omega
    simp only [List.map_cons, gather, h.entryAt_eq, Bind.bind, Except.bind, size]
    by_cases full : budget < used + (headerSize + e.data.length)
    · rw [if_pos ⟨some, full⟩, Nat.findGreatest_eq_zero_iff.mpr]
      · rfl
      · intro n positive _
        obtain ⟨n, rfl⟩ := Nat.exists_eq_succ_of_ne_zero (Nat.ne_of_gt positive)
        simp only [List.take_succ_cons, List.map_cons, framedSize_cons]
        omega
    · rw [if_neg (fun both => full both.2), ih h' (by omega), List.length_cons, findGreatest_add_one,
        List.take_succ_cons]
      · simp only [List.take_succ_cons, List.map_cons, framedSize_cons, Nat.add_assoc]
        rfl
      · simp only [List.take_succ_cons, List.take_zero, List.map_cons, List.map_nil, framedSize_cons,
          framedSize_nil]
        omega

theorem Keeps.gather_eq_fitting {f : Framed} {before rest : List Entry} (h : f.Keeps (before ++ rest)) (budget : Nat) :
    f.gather budget (rest.map Entry.offset) 0 = .ok (Ledger.fitting budget rest) := by
  cases rest with
  | nil => rfl
  | cons e rest =>
    have begins := h.chain.offset_eq
    have ends := h.chain.endOffset_eq
    have h' : f.Keeps ((before ++ [e]) ++ rest) := by simpa using h
    have size : e.endOffset - e.offset = headerSize + e.data.length := by omega
    have positive : 0 + (headerSize + e.data.length) ≠ 0 := by simp [headerSize]
    simp only [List.map_cons, gather, h.entryAt_eq, Bind.bind, Except.bind, size]
    rw [if_neg (fun both => both.1 rfl), h'.gather_more budget positive]
    simp only [Ledger.fitting, List.length_cons]
    by_cases first : headerSize + e.data.length ≤ budget
    · rw [findGreatest_add_one (by simpa using first), Nat.max_eq_right (Nat.le_add_left _ _), List.take_succ_cons]
      simp only [List.take_succ_cons, List.map_cons, framedSize_cons, Nat.zero_add]
      rfl
    · rw [Nat.findGreatest_eq_zero_iff.mpr, Nat.findGreatest_eq_zero_iff.mpr]
      · rfl
      · intro n positive _
        obtain ⟨n, rfl⟩ := Nat.exists_eq_succ_of_ne_zero (Nat.ne_of_gt positive)
        simp only [List.take_succ_cons, List.map_cons, framedSize_cons]
        omega
      · intro n _ _
        omega

namespace Refines

variable {f : Framed} {l : Ledger}

theorem tail_eq (h : f.Refines l) : f.tail = l.tail := by
  rw [h.keeps.tail_eq, h.start, l.ending_entries]

theorem boundary (h : f.Refines l) (offset : Nat) :
    (offset = f.tail ∧ l.boundary? offset = some l.payloads.length ∧ l.entries.drop l.payloads.length = []) ∨
    (offset ≠ f.tail ∧ f.entryIndex? offset = l.boundary? offset) := by
  by_cases last : offset = f.tail
  · refine .inl ⟨last, ?_, ?_⟩
    · rw [last, h.tail_eq]
      exact Ledger.boundary?_position (Nat.le_refl _)
    · rw [← l.length_entries, List.drop_length]
  · refine .inr ⟨last, ?_⟩
    cases found : l.boundary? offset with
    | none =>
      cases indexed : f.entryIndex? offset with
      | none => rfl
      | some i =>
        obtain ⟨before, e, after, split, rfl, _⟩ := h.keeps.of_entryIndex? indexed
        have chain := h.keeps.chain
        rw [split] at chain
        have apart := Ledger.boundary?_eq_none found before (split ▸ List.prefix_append _ _)
        exact absurd chain.offset_eq.symm (h.start ▸ apart)
    | some i =>
      obtain ⟨inside, rfl⟩ := Ledger.of_boundary? found
      have short : i < l.entries.length := by
        rw [l.length_entries]
        refine Nat.lt_of_le_of_ne inside ?_
        rintro rfl
        exact last h.tail_eq.symm
      have split := (List.take_append_drop i l.entries).symm
      rw [List.drop_eq_getElem_cons short] at split
      have keeps := h.keeps
      rw [split] at keeps
      have here := keeps.entryIndex?_eq
      rw [keeps.chain.offset_eq, h.start, l.ending_take, List.length_take, Nat.min_eq_left (Nat.le_of_lt short)]
        at here
      exact here

theorem append (h : f.Refines l) (expected : Option Nat) {data : Bytes} (small : data.length < payloadLimit) :
    (f.append expected data).1 = (l.append expected data).1 ∧
      (f.append expected data).2.Refines (l.append expected data).2 := by
  simp only [Framed.append, Ledger.append, h.tail_eq]
  split
  · refine ⟨?_, h.start, ?_, h.attributes⟩
    · rw [Keeps.tail_push, ← h.tail_eq, Keeps.pushed, Nat.add_assoc]
    · have pushes := h.keeps.push small
      rw [Keeps.pushed, h.tail_eq] at pushes
      rw [l.entries_append]
      exact pushes
  · exact ⟨rfl, h⟩

theorem keeps_split (h : f.Refines l) (i : Nat) : f.Keeps (l.entries.take i ++ l.entries.drop i) := by
  rw [List.take_append_drop]
  exact h.keeps

theorem readAt (h : f.Refines l) (segment : SegmentId) (offset budget : Nat) :
    f.readAt segment offset budget = l.readAt segment offset budget := by
  simp only [Framed.readAt, Ledger.readAt, h.start]
  split
  · rfl
  · rcases h.boundary offset with ⟨last, found, empty⟩ | ⟨inner, same⟩
    · rw [if_pos last, found]
      simp only [empty]
      rfl
    · rw [if_neg inner, same]
      cases found : l.boundary? offset with
      | none => simp only [h.tail_eq]
      | some i =>
        have inside := (Ledger.of_boundary? found).1
        have suffix := (h.keeps_split i).index_suffix
        rw [List.length_take, l.length_entries, Nat.min_eq_left inside] at suffix
        simp only [suffix]
        exact (h.keeps_split i).gather_eq_fitting budget

theorem compareAndSet (h : f.Refines l) (key : AttributeKey) (expected new : Option Int) :
    (f.compareAndSet key expected new).1 = (l.compareAndSet key expected new).1 ∧
      (f.compareAndSet key expected new).2.Refines (l.compareAndSet key expected new).2 := by
  simp only [Framed.compareAndSet, Ledger.compareAndSet, h.attributes]
  split
  · refine ⟨rfl, h.start, ⟨h.keeps.chain, h.keeps.index, h.keeps.bytes, h.keeps.small⟩, ?_⟩
    intro other
    cases new with
    | some value =>
      simp only [Table.get?_insert, Function.update_apply, h.attributes, eq_comm]
    | none =>
      simp only [Table.get?_erase, Function.update_apply, h.attributes, eq_comm]
  · exact ⟨rfl, h⟩

theorem truncateBefore (h : f.Refines l) (segment : SegmentId) (offset : Nat) :
    (f.truncateBefore segment offset).1 = (l.truncateBefore segment offset).1 ∧
      (f.truncateBefore segment offset).2.Refines (l.truncateBefore segment offset).2 := by
  by_cases low : offset ≤ l.base
  · rw [Framed.truncateBefore, Ledger.truncateBefore, h.start, if_pos low, if_pos low]
    exact ⟨rfl, h⟩
  cases found : l.boundary? offset with
  | none =>
    have outside : ¬(offset = f.tail ∨ (f.entryIndex? offset).isSome) := by
      rcases h.boundary offset with ⟨_, some, _⟩ | ⟨inner, same⟩
      · rw [found] at some
        cases some
      · rw [same, found]
        exact fun either => either.elim inner Bool.false_ne_true
    rw [Framed.truncateBefore, h.start, if_neg low, if_neg outside, Ledger.truncateBefore, if_neg low, found, h.tail_eq]
    exact ⟨rfl, h⟩
  | some i =>
    obtain ⟨inside, rfl⟩ := Ledger.of_boundary? found
    have ends : ending f.start (l.entries.take i) = l.position i := by rw [h.start, l.ending_take]
    have cut := (h.keeps_split i).truncateBefore_boundary segment (by rw [ends, h.start]; exact Nat.lt_of_not_le low)
    have left := (h.keeps_split i).drop_front
    rw [ends] at cut left
    rw [cut, Ledger.truncateBefore, if_neg low, found]
    refine ⟨rfl, rfl, ?_, h.attributes⟩
    rw [l.entries_drop]
    exact left

end Refines

end Framed

namespace Store

def Refines (store : Store) (shelf : Ledger.Shelf) : Prop :=
  ∀ segment, Option.Rel Framed.Refines (store.get? segment) (shelf segment)

theorem refines_empty : Refines .empty fun _ => none := fun _ => .none

namespace Refines

variable {store : Store} {shelf : Ledger.Shelf}

theorem absent_or_present (h : store.Refines shelf) (segment : SegmentId) :
    (store.get? segment = none ∧ shelf segment = none) ∨
      ∃ f l, store.get? segment = some f ∧ shelf segment = some l ∧ f.Refines l := by
  have here := h segment
  generalize store.get? segment = stored at here ⊢
  generalize shelf segment = listed at here ⊢
  cases here with
  | none => exact .inl ⟨rfl, rfl⟩
  | some refines => exact .inr ⟨_, _, rfl, rfl, refines⟩

theorem update (h : store.Refines shelf) {store' : Store} {segment : SegmentId} {f : Framed} {l : Ledger}
    (changed : ∀ other, store'.get? other = if segment = other then some f else store.get? other)
    (refines : f.Refines l) : store'.Refines (Function.update shelf segment (some l)) := by
  intro other
  rw [changed, Function.update_apply]
  by_cases same : segment = other
  · rw [if_pos same, if_pos same.symm]
    exact .some refines
  · rw [if_neg same, if_neg (Ne.symm same)]
    exact h other

theorem within (h : store.Refines shelf) (segment : SegmentId) {α : Type}
    {run : Framed → Except SegmentError α × Framed} {run' : Ledger → Except SegmentError α × Ledger}
    (alike : ∀ {f l}, f.Refines l → (run f).1 = (run' l).1 ∧ (run f).2.Refines (run' l).2) :
    (store.within segment run).1 = (shelf.within segment run').1 ∧
      (store.within segment run).2.Refines (shelf.within segment run').2 := by
  rcases h.absent_or_present segment with ⟨stored, listed⟩ | ⟨f, l, stored, listed, refines⟩
  · simp only [Store.within, Table.visit_fst, Ledger.Shelf.within, stored, listed]
    refine ⟨rfl, fun other => ?_⟩
    rw [Table.get?_visit, stored]
    split
    · rename_i same
      rw [← same, listed]
      exact .none
    · exact h other
  · simp only [Store.within, Table.visit_fst, Ledger.Shelf.within, stored, listed]
    refine ⟨(alike refines).1, h.update (fun other => ?_) (alike refines).2⟩
    rw [Table.get?_visit, stored]
    rfl

theorem createSegment (h : store.Refines shelf) (segment : SegmentId) :
    (Store.serve segment .createSegment store).1 = (Ledger.Shelf.serve segment .createSegment shelf).1 ∧
      (Store.serve segment .createSegment store).2.Refines (Ledger.Shelf.serve segment .createSegment shelf).2 := by
  rcases h.absent_or_present segment with ⟨stored, listed⟩ | ⟨f, l, stored, listed, refines⟩
  · simp only [Store.serve, Store.createSegment, Ledger.Shelf.serve, stored, listed]
    have fresh : Framed.Refines {} {} := ⟨rfl, ⟨trivial, rfl, rfl, List.forall_mem_nil _⟩, fun _ => rfl⟩
    exact ⟨rfl, h.update (fun _ => Table.get?_insert _ _ _ _) fresh⟩
  · simp only [Store.serve, Store.createSegment, Ledger.Shelf.serve, stored, listed]
    exact ⟨rfl, h⟩

theorem serve (h : store.Refines shelf) (segment : SegmentId) (q : Request) :
    (Store.serve segment q store).1 = (Ledger.Shelf.serve segment q shelf).1 ∧
      (Store.serve segment q store).2.Refines (Ledger.Shelf.serve segment q shelf).2 := by
  cases q with
  | createSegment => exact h.createSegment segment
  | append expected data =>
    simp only [Store.serve, Ledger.Shelf.serve]
    split
    · rename_i small
      exact h.within segment fun refines =>
        ⟨congrArg _ (refines.append expected small).1, (refines.append expected small).2⟩
    · exact ⟨rfl, h⟩
  | readAt offset budget => exact h.within segment fun refines => ⟨refines.readAt segment offset budget, refines⟩
  | tailOffset => exact h.within segment fun refines => ⟨congrArg _ refines.tail_eq, refines⟩
  | oldestOffset => exact h.within segment fun refines => ⟨congrArg _ refines.start, refines⟩
  | getAttribute key => exact h.within segment fun refines => ⟨congrArg _ (refines.attributes key), refines⟩
  | compareAndSetAttribute key expected new =>
    exact h.within segment fun refines =>
      ⟨congrArg _ (refines.compareAndSet key expected new).1, (refines.compareAndSet key expected new).2⟩
  | truncateBefore offset => exact h.within segment fun refines => refines.truncateBefore segment offset

end Refines

end Store

structure Exchange where
  segment : SegmentId
  request : Request
  reply : Reply request

namespace Exchange

def entry? : Exchange → Option Entry
  | ⟨_, .append _ data, .ok (.appended offset endOffset)⟩ => some ⟨offset, endOffset, data⟩
  | _ => none

def landed (segment : SegmentId) (past : List Exchange) : List Entry :=
  past.filterMap fun exchange => if exchange.segment = segment then exchange.entry? else none

def unmade : (q : Request) → q.Answer → Prop
  | .append _ _, .conflict _ => True
  | .compareAndSetAttribute _ _ _, swapped => swapped = false
  | .createSegment, fresh => fresh = false
  | _, _ => False

def Declined (exchange : Exchange) : Prop := ∀ answer, exchange.reply = .ok answer → unmade exchange.request answer

end Exchange

/-- What a service answers to requests that are made one after another, and what it is then. -/
def transcript {σ : Type} (serve : SegmentId → (q : Request) → σ → Reply q × σ) :
    List (SegmentId × Request) → σ → List Exchange × σ
  | [], state => ([], state)
  | (segment, q) :: rest, state =>
    let served := serve segment q state
    let later := transcript serve rest served.2
    (⟨segment, q, served.1⟩ :: later.1, later.2)

theorem of_mem_transcript {σ : Type} {serve : SegmentId → (q : Request) → σ → Reply q × σ}
    {requests : List (SegmentId × Request)} {state : σ} {exchange : Exchange}
    (member : exchange ∈ (transcript serve requests state).1) :
    ∃ before, (transcript serve before state).1 <+: (transcript serve requests state).1 ∧
      exchange.reply = (serve exchange.segment exchange.request (transcript serve before state).2).1 := by
  induction requests generalizing state with
  | nil => cases member
  | cons request rest ih =>
    obtain ⟨segment, q⟩ := request
    rcases List.mem_cons.mp member with rfl | later
    · exact ⟨[], List.nil_prefix, rfl⟩
    · obtain ⟨before, front, reply⟩ := ih later
      exact ⟨(segment, q) :: before, List.cons_prefix_cons.mpr ⟨rfl, front⟩, reply⟩

namespace Store

theorem Refines.transcript {store : Store} {shelf : Ledger.Shelf} (h : store.Refines shelf)
    (requests : List (SegmentId × Request)) :
    (transcript Store.serve requests store).1 = (transcript Ledger.Shelf.serve requests shelf).1 := by
  induction requests generalizing store shelf with
  | nil => rfl
  | cons request rest ih =>
    obtain ⟨segment, q⟩ := request
    obtain ⟨same, refines⟩ := h.serve segment q
    simp only [LogReplica.transcript, same, ih refines]

section Logs

variable {store : Store} {segment : SegmentId} {log : List Entry}

theorem Logs.serve (h : store.Logs segment log) (other : SegmentId) (q : Request) :
    (Store.serve other q store).2.Logs segment
      (log ++ Exchange.landed segment [⟨other, q, (Store.serve other q store).1⟩]) := by
  by_cases away : other = segment
  · subst away
    simp only [Exchange.landed, List.filterMap_cons, List.filterMap_nil, if_pos]
    cases q with
    | createSegment | readAt | tailOffset | oldestOffset | getAttribute =>
      simp only [Exchange.entry?, List.append_nil]
      exact h.of_buffer_eq (buffer_serve_of_passive _ trivial)
    | append expected data =>
      rcases h.append expected data with ⟨e, lands⟩ | ⟨declined, same⟩
      · rw [lands.reply]
        simp only [Exchange.entry?, ← lands.payload]
        exact lands.logs
      · have nothing : Exchange.entry? ⟨other, _, (Store.serve other (.append expected data) store).1⟩ = none := by
          generalize (Store.serve other (.append expected data) store).1 = reply at declined
          match reply, declined with
          | .error _, _ => rfl
          | .ok (.conflict _), _ => rfl
          | .ok (.appended offset endOffset), declined => exact absurd rfl (declined offset endOffset)
        rw [nothing, List.append_nil]
        exact h.of_buffer_eq same
    | compareAndSetAttribute key expected new =>
      simp only [Exchange.entry?, List.append_nil]
      exact (h.compareAndSetAttribute key expected new).1
    | truncateBefore offset =>
      simp only [Exchange.entry?, List.append_nil]
      exact (h.truncateBefore offset).1
  · simp only [Exchange.landed, List.filterMap_cons, List.filterMap_nil, if_neg away, List.append_nil]
    exact h.of_buffer_eq (buffer_serve_of_ne away q)

theorem Logs.transcript (h : store.Logs segment log) (requests : List (SegmentId × Request)) :
    (transcript Store.serve requests store).2.Logs segment
      (log ++ Exchange.landed segment (transcript Store.serve requests store).1) := by
  induction requests generalizing store log with
  | nil =>
    simp only [LogReplica.transcript, Exchange.landed, List.filterMap_nil, List.append_nil]
    exact h
  | cons request rest ih =>
    obtain ⟨other, q⟩ := request
    have later := ih (h.serve other q)
    rw [List.append_assoc, Exchange.landed, Exchange.landed, ← List.filterMap_append] at later
    exact later

theorem within_of_get? {α : Type} {run : Framed → Except SegmentError α × Framed} {f : Framed}
    (found : store.get? segment = some f) : (store.within segment run).1 = (run f).1 := by
  simp only [Store.within, Table.visit_fst, found]
  rfl

theorem within_snd_of_same {α : Type} {run : Framed → Except SegmentError α × Framed}
    (same : ∀ f, store.get? segment = some f → (run f).2 = f) : (store.within segment run).2 = store := by
  obtain ⟨rows⟩ := store
  refine congrArg Table.mk ?_
  induction rows with
  | nil => rfl
  | cons row rest ih =>
    obtain ⟨name, f⟩ := row
    simp only [Table.get?, Table.find] at same
    simp only [Table.visitRows]
    split
    · rename_i here
      rw [same f (if_pos here)]
    · rename_i away
      rw [ih fun f found => same f ((if_neg away).trans found)]

theorem serve_of_declined {q : Request}
    (declined : Exchange.Declined ⟨segment, q, (Store.serve segment q store).1⟩) :
    (Store.serve segment q store).2 = store := by
  cases q with
  | readAt | tailOffset | oldestOffset | getAttribute => exact within_snd_of_same fun _ _ => rfl
  | createSegment =>
    simp only [Store.serve, Store.createSegment] at declined ⊢
    split at declined
    · rw [if_pos ‹_›]
    · cases declined true rfl
  | append expected data =>
    simp only [Store.serve] at declined ⊢
    split
    · rename_i small
      rw [if_pos small] at declined
      refine within_snd_of_same fun f found => ?_
      rw [within_of_get? found] at declined
      simp only [Framed.append] at declined ⊢
      split at declined
      · exact (declined _ rfl).elim
      · rw [if_neg ‹_›]
    · rfl
  | compareAndSetAttribute key expected new =>
    refine within_snd_of_same fun f found => ?_
    simp only [Store.serve, within_of_get? found, Framed.compareAndSet] at declined ⊢
    split at declined
    · cases declined _ rfl
    · rw [if_neg ‹_›]
  | truncateBefore offset =>
    refine within_snd_of_same fun f found => ?_
    simp only [Store.serve, within_of_get? found, Framed.truncateBefore] at declined ⊢
    split at declined
    · rw [if_pos ‹_›]
    · rename_i high
      rw [if_neg high]
      split at declined
      · exact (declined _ rfl).elim
      · rw [if_neg ‹_›]

end Logs

/-- A store that is asked anything, one request after another, is taken for a shelf of ledgers. -/
structure Faithful (requests : List (SegmentId × Request)) (past : List Exchange) (store : Store) : Prop where
  /-- The answers are those that ledgers give. -/
  answers : past = (transcript Ledger.Shelf.serve requests fun _ => none).1
  /-- What was added to a segment has one position after another, from the first byte ever written on. -/
  numbered : ∀ segment, Contiguous 0 (Exchange.landed segment past)
  /-- What is read is what was added, with its positions, also if what precedes it is dropped. -/
  original : ∀ segment offset budget entries,
    ⟨segment, .readAt offset budget, .ok entries⟩ ∈ past → entries <:+: Exchange.landed segment past
  legible : ∀ exchange ∈ past, ∀ detail, exchange.reply ≠ .error (.corrupted detail)
  /-- What is declined changes nothing, of any segment. -/
  unmoved : ∀ segment q, Exchange.Declined ⟨segment, q, (Store.serve segment q store).1⟩ →
    (Store.serve segment q store).2 = store

theorem faithful_to_ledgers (requests : List (SegmentId × Request)) :
    Faithful requests (transcript serve requests .empty).1 (transcript serve requests .empty).2 := by
  have logs : ∀ segment before, (transcript serve before .empty).2.Logs segment
      (Exchange.landed segment (transcript serve before .empty).1) := fun segment before =>
    (logs_empty segment).transcript before
  refine ⟨refines_empty.transcript requests, fun segment => (logs segment requests).chain, ?_, ?_,
    fun _ _ declined => serve_of_declined declined⟩
  · intro segment offset budget entries read
    obtain ⟨before, front, reply⟩ := of_mem_transcript read
    obtain ⟨skipped, after, split, _⟩ := (logs segment before).readAt reply.symm
    have inside : entries <:+: Exchange.landed segment (transcript serve before .empty).1 :=
      split ▸ List.infix_append skipped entries after
    exact inside.trans (front.filterMap _).isInfix
  · rintro ⟨segment, q, reply⟩ member detail corrupted
    obtain ⟨before, _, served⟩ := of_mem_transcript member
    have refusal := (logs segment before).refused (served.symm.trans corrupted)
    cases refusal

end Store

end LogReplica
