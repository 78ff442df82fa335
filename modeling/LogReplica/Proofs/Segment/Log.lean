import LogReplica.Proofs.Segment.Buffer
import LogReplica.Segment.Store

namespace LogReplica

def Request.Passive : Request → Prop
  | .append .. | .compareAndSetAttribute .. | .truncateBefore _ => False
  | _ => True

/-- No entry of a log begins at this position, and the log does not end there. -/
def Apart (log : List Entry) (offset : Nat) : Prop := ∀ before, before <+: log → ending 0 before ≠ offset

namespace Store

def buffer (store : Store) (segment : SegmentId) : Framed := (store.get? segment).getD {}

def mark (store : Store) (segment : SegmentId) : Option Int := (store.buffer segment).attributes.get? .mark

/-- The segment has had exactly the entries of `log`, of which it keeps the last ones. -/
structure Logs (store : Store) (segment : SegmentId) (log : List Entry) : Prop where
  chain : Contiguous 0 log
  kept : ∃ dropped kept, log = dropped ++ kept ∧ (store.buffer segment).start = ending 0 dropped ∧
    (store.buffer segment).Keeps kept

theorem logs_empty (segment : SegmentId) : Logs .empty segment [] := by
  refine ⟨trivial, [], [], rfl, rfl, trivial, rfl, rfl, ?_⟩
  intro e member
  cases member

section Within

variable {α : Type} (f : Framed → Except SegmentError α × Framed) (store : Store) (segment : SegmentId)

theorem within_fst : (store.within segment f).1 =
    if (store.get? segment).isSome then (f (store.buffer segment)).1 else .error (.noSuchSegment segment) := by
  simp only [within, Table.visit_fst, buffer]
  cases store.get? segment <;> rfl

theorem buffer_within (other : SegmentId) : (store.within segment f).2.buffer other =
    if segment = other ∧ (store.get? segment).isSome then (f (store.buffer segment)).2
    else store.buffer other := by
  simp only [within, buffer, Table.get?_visit]
  by_cases same : segment = other
  · subst same
    cases store.get? segment <;> simp
  · simp [same]

theorem buffer_within_of_same (same : ∀ b, (f b).2 = b) (other : SegmentId) :
    (store.within segment f).2.buffer other = store.buffer other := by
  rw [buffer_within, same]
  split
  · rename_i here
    rw [here.1]
  · rfl

end Within

variable {store : Store} {segment : SegmentId} {log : List Entry}

theorem buffer_serve_of_ne {other : SegmentId} (ne : other ≠ segment) (q : Request) :
    (Store.serve other q store).2.buffer segment = store.buffer segment := by
  have away : ∀ {α : Type} (f : Framed → Except SegmentError α × Framed),
      (store.within other f).2.buffer segment = store.buffer segment := by
    intro α f
    rw [buffer_within, if_neg (fun both => ne both.1)]
  cases q with
  | createSegment =>
    simp only [serve, Store.createSegment]
    split
    · rfl
    · simp only [buffer, Table.get?_insert, if_neg ne]
  | append expected data =>
    simp only [serve]
    split
    · exact away _
    · rfl
  | readAt | tailOffset | oldestOffset | getAttribute | compareAndSetAttribute | truncateBefore => exact away _

theorem present_serve (present : (store.get? segment).isSome = true) (other : SegmentId) (q : Request) :
    ((Store.serve other q store).2.get? segment).isSome = true := by
  have stays : ∀ {α : Type} (f : Framed → Except SegmentError α × Framed),
      ((store.within other f).2.get? segment).isSome = true := by
    intro α f
    simp only [within, Table.get?_visit]
    split
    · rename_i here
      rw [Option.isSome_map, here]
      exact present
    · exact present
  cases q with
  | createSegment =>
    simp only [serve, Store.createSegment]
    split
    · exact present
    · simp only [Table.get?_insert]
      split
      · rfl
      · exact present
  | append expected data =>
    simp only [serve]
    split
    · exact stays _
    · exact present
  | readAt | tailOffset | oldestOffset | getAttribute | compareAndSetAttribute | truncateBefore => exact stays _

theorem buffer_serve_of_passive (other : SegmentId) {q : Request} (passive : q.Passive) :
    (Store.serve other q store).2.buffer segment = store.buffer segment := by
  cases q with
  | append | compareAndSetAttribute | truncateBefore => exact passive.elim
  | createSegment =>
    simp only [serve, Store.createSegment]
    split
    · rfl
    · rename_i absent
      simp only [buffer, Table.get?_insert]
      split
      · rename_i here
        rw [← here]
        cases found : store.get? other with
        | none => rfl
        | some f => exact absurd (by rw [found]; rfl) absent
      · rfl
  | readAt | tailOffset | oldestOffset | getAttribute => exact buffer_within_of_same _ _ _ (fun _ => rfl) _

namespace Logs

theorem of_buffer_eq {store' : Store} (h : store.Logs segment log)
    (same : store'.buffer segment = store.buffer segment) : store'.Logs segment log :=
  ⟨h.chain, same ▸ h.kept⟩

theorem tail_eq (h : store.Logs segment log) : (store.buffer segment).tail = ending 0 log := by
  obtain ⟨dropped, kept, rfl, start, keeps⟩ := h.kept
  rw [keeps.tail_eq, start, ending_append]

theorem eq_nil_of_absent (h : store.Logs segment log) (none : store.get? segment = none) : log = [] := by
  have tail := h.tail_eq
  have length := h.chain.length_le
  rw [buffer, none] at tail
  have tail : 0 = ending 0 log := tail
  exact List.eq_nil_of_length_eq_zero (by omega)

theorem start_le (h : store.Logs segment log) : (store.buffer segment).start ≤ ending 0 log :=
  h.tail_eq ▸ Framed.Keeps.start_le_tail _

theorem present (h : store.Logs segment log) (written : log ≠ []) : (store.get? segment).isSome = true := by
  by_contra absent
  have tail := h.tail_eq
  rw [buffer, Option.not_isSome_iff_eq_none.mp absent] at tail
  exact absurd tail (Nat.ne_of_lt (h.chain.lt_ending written))

theorem boundary_of_kept (h : store.Logs segment log) {dropped kept before : List Entry}
    (split : log = dropped ++ kept) (front : before <+: log)
    (high : ending 0 dropped ≤ ending 0 before) : ∃ mid, before = dropped ++ mid ∧ mid <+: kept := by
  subst split
  rcases List.prefix_or_prefix_of_prefix front (List.prefix_append dropped kept) with short | ⟨mid, rfl⟩
  · obtain ⟨rest, rfl⟩ := short
    have chain : Contiguous 0 (before ++ rest) := h.chain.left
    have same : before = before ++ rest := by
      refine h.chain.prefix_eq front (List.prefix_append _ _) (Nat.le_antisymm ?_ high)
      rw [ending_append]
      exact chain.right.le_ending
    rw [List.self_eq_append_right.mp same]
    exact ⟨[], by simp, List.nil_prefix⟩
  · exact ⟨mid, rfl, (List.prefix_append_right_inj dropped).mp front⟩

theorem apart_of_kept (h : store.Logs segment log) {dropped kept : List Entry} {offset : Nat}
    (split : log = dropped ++ kept) (high : ending 0 dropped ≤ offset)
    (apart : ∀ before, before <+: kept → ending (ending 0 dropped) before ≠ offset) :
    Apart log offset := by
  intro before front same
  obtain ⟨mid, rfl, inKept⟩ := h.boundary_of_kept split front (same ▸ high)
  exact apart mid inKept (by rw [← ending_append, same])

theorem entryAt_of_start_le (h : store.Logs segment log) {e : Entry} (member : e ∈ log)
    (high : (store.buffer segment).start ≤ e.offset) :
    (store.buffer segment).entryAt e.offset = .ok e ∧ e.offset ∈ (store.buffer segment).index.toList := by
  obtain ⟨dropped, kept, rfl, start, keeps⟩ := h.kept
  have inKept : e ∈ kept := by
    refine (List.mem_append.mp member).resolve_left fun gone => ?_
    have := (h.chain.left.offsets_ascending.2 e gone).2
    omega
  obtain ⟨before, after, rfl⟩ := List.append_of_mem inKept
  refine ⟨keeps.entryAt_eq, ?_⟩
  rw [keeps.index]
  exact List.mem_map_of_mem inKept

theorem entryCount_eq (h : store.Logs segment log) {before left : List Entry} (split : log = before ++ left)
    (starts : (store.buffer segment).start = ending 0 before) (written : log ≠ []) :
    Store.entryCount segment store = .ok left.length := by
  obtain ⟨dropped, kept, whole, start, keeps⟩ := h.kept
  have same : dropped = before := h.chain.prefix_eq ⟨kept, whole.symm⟩ ⟨left, split.symm⟩ (start.symm.trans starts)
  rw [same, split] at whole
  rw [← List.append_cancel_left whole] at keeps
  have count := congrArg List.length keeps.index
  rw [List.length_map, Array.length_toList] at count
  rw [buffer] at count
  cases found : store.get? segment with
  | none => exact absurd (h.eq_nil_of_absent found) written
  | some f =>
    rw [found] at count
    rw [Store.entryCount, found, ← count]
    rfl

inductive Refusal (store : Store) (segment : SegmentId) (log : List Entry) : Request → SegmentError → Prop
  | absent (request : Request) (none : store.get? segment = none) :
    Refusal store segment log request (.noSuchSegment segment)
  | tooLarge (expected : Option Nat) (data : Bytes) (large : Framed.payloadLimit ≤ data.length) :
    Refusal store segment log (.append expected data) (.entryTooLarge data.length)
  | truncated (offset budget : Nat) (low : offset < (store.buffer segment).start) :
    Refusal store segment log (.readAt offset budget) (.truncated segment offset (store.buffer segment).start)
  | unreadable (offset budget tail : Nat) (apart : Apart log offset) :
    Refusal store segment log (.readAt offset budget) (.invalidOffset segment offset tail)
  | uncuttable (offset tail : Nat) (apart : Apart log offset) :
    Refusal store segment log (.truncateBefore offset) (.invalidOffset segment offset tail)

theorem refused (h : store.Logs segment log) {q : Request} {cause : SegmentError}
    (reply : (Store.serve segment q store).1 = .error cause) : Refusal store segment log q cause := by
  obtain ⟨dropped, kept, split, start, keeps⟩ := h.kept
  have missing : ¬(store.get? segment).isSome = true → store.get? segment = none := by
    intro absent
    cases found : store.get? segment with
    | none => rfl
    | some f => exact absurd (by rw [found]; rfl) absent
  cases q with
  | createSegment => cases reply
  | append expected data =>
    simp only [serve] at reply
    split at reply
    · rw [within_fst] at reply
      split at reply
      · cases reply
      · rename_i absent
        cases reply
        exact .absent _ (missing absent)
    · rename_i large
      cases reply
      exact .tooLarge expected data (Nat.le_of_not_lt large)
  | tailOffset | oldestOffset | getAttribute | compareAndSetAttribute =>
    simp only [serve, within_fst] at reply
    split at reply
    · cases reply
    · rename_i absent
      cases reply
      exact .absent _ (missing absent)
  | readAt position budget =>
    simp only [serve, within_fst] at reply
    split at reply
    · rcases keeps.readAt_error reply with ⟨rfl, low⟩ | ⟨rfl, high, apart⟩
      · exact .truncated position budget low
      · rw [start] at high apart
        exact .unreadable position budget _ (h.apart_of_kept split high apart)
    · rename_i absent
      cases reply
      exact .absent _ (missing absent)
  | truncateBefore position =>
    simp only [serve, within_fst] at reply
    split at reply
    · rcases keeps.truncateBefore segment position with ⟨done, _⟩ | ⟨answer, high, apart⟩
      · rw [done] at reply
        cases reply
      · rw [answer] at reply
        cases reply
        rw [start] at high apart
        exact .uncuttable position _ (h.apart_of_kept split (Nat.le_of_lt high) apart)
    · rename_i absent
      cases reply
      exact .absent _ (missing absent)

theorem tailOffset (h : store.Logs segment log) {tail : Nat}
    (reply : (Store.serve segment .tailOffset store).1 = .ok tail) : tail = ending 0 log := by
  simp only [serve, within_fst] at reply
  split at reply
  · cases reply
    exact h.tail_eq
  · cases reply

theorem conflict (h : store.Logs segment log) {expected tail : Nat} {data : Bytes}
    (reply : (Store.serve segment (.append (some expected) data) store).1 = .ok (.conflict tail)) :
    expected ≠ ending 0 log := by
  simp only [serve] at reply
  split at reply
  · rw [within_fst] at reply
    split at reply
    · simp only [Framed.append] at reply
      split at reply
      · cases reply
      · rename_i other
        intro same
        rw [← h.tail_eq] at same
        exact other (by simp [same])
    · cases reply
  · cases reply

theorem readAt (h : store.Logs segment log) {offset budget : Nat} {entries : List Entry}
    (reply : (Store.serve segment (.readAt offset budget) store).1 = .ok entries) :
    ∃ before after, log = before ++ entries ++ after ∧ ending 0 before = offset ∧
      (offset ≠ ending 0 log → entries ≠ []) := by
  obtain ⟨dropped, kept, split, start, keeps⟩ := h.kept
  simp only [serve, within_fst] at reply
  split at reply
  · obtain ⟨before, after, rfl, begins, nonempty⟩ := keeps.readAt_ok reply
    refine ⟨dropped ++ before, after, by simp [split], ?_, fun inside => nonempty (h.tail_eq ▸ inside)⟩
    rw [ending_append, ← start, begins]
  · cases reply

theorem oldestOffset {oldest : Nat} (reply : (Store.serve segment .oldestOffset store).1 = .ok oldest) :
    oldest = (store.buffer segment).start := by
  simp only [serve, within_fst] at reply
  split at reply
  · cases reply
    rfl
  · cases reply

theorem getMark {value : Option Int}
    (reply : (Store.serve segment (.getAttribute .mark) store).1 = .ok value) : value = store.mark segment := by
  simp only [serve, within_fst] at reply
  split at reply
  · cases reply
    rfl
  · cases reply

theorem unswapped {key : AttributeKey} {expected new : Option Int}
    (reply : (Store.serve segment (.compareAndSetAttribute key expected new) store).1 = .ok false) :
    (store.buffer segment).attributes.get? key ≠ expected := by
  intro same
  simp only [serve, within_fst, Framed.compareAndSet, if_pos same] at reply
  split at reply <;> cases reply

/-- A landed append: the log is longer by one entry, and all else is as it was. -/
structure Lands (store : Store) (segment : SegmentId) (log : List Entry) (expected : Option Nat) (data : Bytes)
    (e : Entry) : Prop where
  begins : e.offset = ending 0 log
  payload : e.data = data
  reply : (Store.serve segment (.append expected data) store).1 = .ok (.appended e.offset e.endOffset)
  logs : (Store.serve segment (.append expected data) store).2.Logs segment (log ++ [e])
  wanted : ∀ tail, expected = some tail → tail = ending 0 log
  start : ((Store.serve segment (.append expected data) store).2.buffer segment).start = (store.buffer segment).start
  mark : (Store.serve segment (.append expected data) store).2.mark segment = store.mark segment

theorem lands (h : store.Logs segment log) {expected : Option Nat} {data : Bytes}
    (small : data.length < Framed.payloadLimit) (present : (store.get? segment).isSome)
    (free : expected.all (· = (store.buffer segment).tail)) :
    Lands store segment log expected data (Framed.Keeps.pushed (store.buffer segment) data) := by
  obtain ⟨dropped, kept, split, start, keeps⟩ := h.kept
  have pushes := keeps.push small
  have reply : (Store.serve segment (.append expected data) store).1 =
      .ok (.appended (store.buffer segment).tail ((store.buffer segment).push data).tail) := by
    simp only [serve, if_pos small, within_fst, if_pos present, Framed.append, if_pos free]
    rfl
  have left : (Store.serve segment (.append expected data) store).2.buffer segment =
      (store.buffer segment).push data := by
    simp only [serve, if_pos small, buffer_within, present, Framed.append, if_pos free]
    rfl
  have kept' : log ++ [Framed.Keeps.pushed (store.buffer segment) data] =
      dropped ++ (kept ++ [Framed.Keeps.pushed (store.buffer segment) data]) := by
    rw [split, List.append_assoc]
  refine ⟨h.tail_eq, rfl, ?_, ⟨?_, dropped, _, kept', ?_, ?_⟩, ?_, ?_, ?_⟩
  · rw [reply, Framed.Keeps.tail_push]
    rfl
  · rw [kept', contiguous_append, ← start]
    refine ⟨?_, pushes.chain⟩
    have := h.chain
    rw [split] at this
    exact this.left
  · rw [left, ← start]
    rfl
  · rw [left]
    exact pushes
  · rintro tail rfl
    rw [← h.tail_eq]
    exact of_decide_eq_true free
  · rw [left]
    rfl
  · rw [Store.mark, left]
    rfl

theorem append (h : store.Logs segment log) (expected : Option Nat) (data : Bytes) :
    (∃ e, Lands store segment log expected data e) ∨
    ((∀ offset endOffset,
        (Store.serve segment (.append expected data) store).1 ≠ .ok (.appended offset endOffset)) ∧
      (Store.serve segment (.append expected data) store).2.buffer segment = store.buffer segment) := by
  by_cases small : data.length < Framed.payloadLimit
  · by_cases present : (store.get? segment).isSome
    · by_cases free : expected.all (· = (store.buffer segment).tail)
      · exact .inl ⟨_, h.lands small present free⟩
      · right
        simp only [serve, if_pos small, within_fst, buffer_within, if_pos present, Framed.append, if_neg free]
        exact ⟨nofun, by split <;> rfl⟩
    · right
      simp only [serve, if_pos small, within_fst, buffer_within, if_neg present]
      exact ⟨nofun, if_neg fun both => present both.2⟩
  · right
    simp only [serve, if_neg small]
    exact ⟨nofun, trivial⟩

theorem truncateBefore (h : store.Logs segment log) (offset : Nat) :
    (Store.serve segment (.truncateBefore offset) store).2.Logs segment log ∧
    (Store.serve segment (.truncateBefore offset) store).2.mark segment = store.mark segment ∧
    (((Store.serve segment (.truncateBefore offset) store).1 = .ok () ∧
        ((Store.serve segment (.truncateBefore offset) store).2.buffer segment).start =
          max (store.buffer segment).start offset) ∨
      ((Store.serve segment (.truncateBefore offset) store).1 ≠ .ok () ∧
        (Store.serve segment (.truncateBefore offset) store).2.buffer segment = store.buffer segment)) := by
  obtain ⟨dropped, kept, split, start, keeps⟩ := h.kept
  simp only [serve, within_fst]
  by_cases present : (store.get? segment).isSome
  · have left : (store.within segment (Framed.truncateBefore segment offset)).2.buffer segment =
        ((store.buffer segment).truncateBefore segment offset).2 := by
      rw [buffer_within, if_pos ⟨rfl, present⟩]
    rw [if_pos present, left]
    rcases keeps.truncateBefore segment offset with
      ⟨done, gone, rest, split', keeps', start', moved, attributes⟩ | ⟨refused, _⟩
    · refine ⟨⟨h.chain, dropped ++ gone, rest, by simp [split, split'], ?_, left ▸ keeps'⟩, ?_, .inl ⟨done, moved⟩⟩
      · rw [left, start', start, ending_append]
      · rw [Store.mark, left, attributes]
        rfl
    · rw [refused] at left ⊢
      refine ⟨h.of_buffer_eq left, ?_, .inr ⟨nofun, rfl⟩⟩
      rw [Store.mark, left]
      rfl
  · have left : (store.within segment (Framed.truncateBefore segment offset)).2.buffer segment =
        store.buffer segment := by
      rw [buffer_within, if_neg (fun both => present both.2)]
    rw [if_neg present, left]
    refine ⟨h.of_buffer_eq left, ?_, .inr ⟨nofun, rfl⟩⟩
    rw [Store.mark, left]
    rfl

theorem compareAndSetAttribute (h : store.Logs segment log) (key : AttributeKey) (expected new : Option Int) :
    (Store.serve segment (.compareAndSetAttribute key expected new) store).2.Logs segment log ∧
    ((Store.serve segment (.compareAndSetAttribute key expected new) store).2.buffer segment).start =
      (store.buffer segment).start ∧
    (((Store.serve segment (.compareAndSetAttribute key expected new) store).1 = .ok true ∧
        (store.buffer segment).attributes.get? key = expected ∧
        (Store.serve segment (.compareAndSetAttribute key expected new) store).2.mark segment =
          if key = .mark then new else store.mark segment) ∨
      ((Store.serve segment (.compareAndSetAttribute key expected new) store).1 ≠ .ok true ∧
        (Store.serve segment (.compareAndSetAttribute key expected new) store).2.buffer segment =
          store.buffer segment)) := by
  generalize served : Store.serve segment (.compareAndSetAttribute key expected new) store = outcome
  have reply : outcome.1 = if (store.get? segment).isSome then
      .ok ((store.buffer segment).compareAndSet key expected new).1 else .error (.noSuchSegment segment) := by
    rw [← served]
    exact within_fst _ _ _
  have left : outcome.2.buffer segment = if segment = segment ∧ (store.get? segment).isSome then
      ((store.buffer segment).compareAndSet key expected new).2 else store.buffer segment := by
    rw [← served]
    exact buffer_within _ _ _ _
  by_cases present : (store.get? segment).isSome
  · rw [if_pos present] at reply
    rw [if_pos ⟨rfl, present⟩] at left
    by_cases same : (store.buffer segment).attributes.get? key = expected
    · simp only [Framed.compareAndSet, if_pos same] at reply left
      obtain ⟨dropped, kept, split, start, keeps⟩ := h.kept
      refine ⟨⟨h.chain, dropped, kept, split, by rw [left, ← start], ?_⟩, by rw [left], .inl ⟨reply, same, ?_⟩⟩
      · rw [left]
        exact ⟨keeps.chain, keeps.index, keeps.bytes, keeps.small⟩
      · rw [Store.mark, left]
        cases new with
        | some value => exact Table.get?_insert _ _ _ _
        | none => exact Table.get?_erase _ _ _
    · simp only [Framed.compareAndSet, if_neg same] at reply left
      exact ⟨h.of_buffer_eq left, by rw [left], .inr ⟨by rw [reply]; nofun, left⟩⟩
  · rw [if_neg present] at reply
    rw [if_neg fun both => present both.2] at left
    exact ⟨h.of_buffer_eq left, by rw [left], .inr ⟨by rw [reply]; nofun, left⟩⟩

end Logs

end Store

end LogReplica
