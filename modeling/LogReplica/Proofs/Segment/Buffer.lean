import LogReplica.Proofs.Segment.Entries
import Mathlib.Data.List.Basic

namespace LogReplica.Framed

/-- The buffer and its index hold exactly these entries. -/
structure Keeps (f : Framed) (kept : List Entry) : Prop where
  chain : Contiguous f.start kept
  index : f.index.toList = kept.map Entry.offset
  bytes : f.bytes.toList = kept.flatMap Entry.framed
  small : ∀ e ∈ kept, e.data.length < payloadLimit

theorem bisect_sound {index : Array Nat} {position fuel low high i : Nat}
    (h : bisect index position fuel low high = some i) : index[i]? = some position := by
  induction fuel generalizing low high with
  | zero => cases h
  | succ fuel ih =>
    simp only [bisect] at h
    split at h
    · split at h
      · cases h
      · rename_i found at_middle
        split at h
        · cases h
          simp_all
        · split at h <;> exact ih h
    · cases h

theorem bisect_complete {index : Array Nat} {position fuel low high i : Nat}
    (ascending : index.toList.Pairwise (· < ·)) (at_i : index[i]? = some position)
    (above : low ≤ i) (below : i < high) (within : high ≤ index.size) (enough : high - low < fuel) :
    bisect index position fuel low high = some i := by
  have order : ∀ {j k a b : Nat}, index[j]? = some a → index[k]? = some b → j < k → a < b := by
    intro j k a b at_j at_k lt
    rw [← Array.getElem?_toList, List.getElem?_eq_some_iff] at at_j at_k
    obtain ⟨hj, rfl⟩ := at_j
    obtain ⟨hk, rfl⟩ := at_k
    exact List.pairwise_iff_getElem.mp ascending j k hj hk lt
  induction fuel generalizing low high with
  | zero => omega
  | succ fuel ih =>
    simp only [bisect, if_pos (Nat.lt_of_le_of_lt above below)]
    have inside : low + (high - low) / 2 < index.size := by omega
    have at_middle := Array.getElem?_eq_getElem inside
    generalize index[low + (high - low) / 2] = found at at_middle
    simp only [at_middle]
    rcases Nat.lt_trichotomy (low + (high - low) / 2) i with before | same | behind
    · have less := order at_middle at_i before
      rw [if_neg (Nat.ne_of_lt less), if_pos less]
      exact ih (by omega) below within (by omega)
    · rw [same, at_i] at at_middle
      cases at_middle
      simp [same]
    · have more := order at_i at_middle behind
      rw [if_neg (Nat.ne_of_gt more), if_neg (Nat.lt_asymm more)]
      exact ih above behind (by omega) (by omega)

namespace Keeps

variable {f : Framed} {kept : List Entry}

theorem tail_eq (h : f.Keeps kept) : f.tail = ending f.start kept := by
  rw [h.chain.ending_eq, ← h.bytes, Framed.tail, Array.length_toList]

theorem start_le_tail (f : Framed) : f.start ≤ f.tail := Nat.le_add_right _ _

theorem entryIndex?_eq {before after : List Entry} {e : Entry} (h : f.Keeps (before ++ e :: after)) :
    f.entryIndex? e.offset = some before.length := by
  have at_e : f.index[before.length]? = some e.offset := by
    rw [← Array.getElem?_toList, h.index]
    simp
  have inside : before.length < f.index.size := (Array.getElem?_eq_some_iff.mp at_e).1
  refine bisect_complete ?_ at_e (Nat.zero_le _) inside (Nat.le_refl _) (by omega)
  rw [h.index]
  exact h.chain.offsets_ascending.1

theorem of_entryIndex? (h : f.Keeps kept) {position i : Nat} (found : f.entryIndex? position = some i) :
    ∃ before e after, kept = before ++ e :: after ∧ e.offset = position ∧ before.length = i := by
  have at_i := bisect_sound found
  rw [← Array.getElem?_toList, h.index, List.getElem?_map, Option.map_eq_some_iff] at at_i
  obtain ⟨e, at_i, rfl⟩ := at_i
  obtain ⟨inside, rfl⟩ := List.getElem?_eq_some_iff.mp at_i
  refine ⟨kept.take i, kept[i], kept.drop (i + 1), ?_, rfl, by simp; omega⟩
  rw [← List.drop_eq_getElem_cons inside, List.take_append_drop]

theorem index_suffix {before rest : List Entry} (h : f.Keeps (before ++ rest)) :
    (f.index.extract before.length f.index.size).toList = rest.map Entry.offset := by
  have size : f.index.size = before.length + rest.length := by
    rw [← Array.length_toList, h.index, List.length_map, List.length_append]
  rw [Array.toList_extract, h.index, List.extract_eq_take_drop, List.map_append, size,
    Nat.add_sub_cancel_left]
  have skip := @List.drop_left _ (before.map Entry.offset) (rest.map Entry.offset)
  have all := @List.take_length _ (rest.map Entry.offset)
  rw [List.length_map] at skip all
  rw [skip, all]

theorem slice?_middle {bytes : Array UInt8} {left middle right : Bytes}
    (h : bytes.toList = left ++ middle ++ right) :
    slice? bytes left.length middle.length = some middle := by
  have size : bytes.size = left.length + middle.length + right.length := by
    rw [← Array.length_toList, h, List.length_append, List.length_append]
  rw [slice?, if_pos (by omega), Array.toList_extract, h, List.extract_eq_take_drop,
    List.append_assoc, List.drop_left, Nat.add_sub_cancel_left, List.take_left]

theorem entryAt_of_slices {position : Nat} {header data : Bytes}
    (atHeader : slice? f.bytes (position - f.start) headerSize = some header)
    (atData : slice? f.bytes (position - f.start + headerSize) (BigEndian.ofBytes header) = some data) :
    f.entryAt position = .ok ⟨position, position + headerSize + BigEndian.ofBytes header, data⟩ := by
  rw [entryAt, atHeader]
  simp only [atData]
  rfl

theorem entryAt_eq {before after : List Entry} {e : Entry} (h : f.Keeps (before ++ e :: after)) :
    f.entryAt e.offset = .ok e := by
  have begins := h.chain.offset_eq
  have ends := h.chain.endOffset_eq
  have skipped : e.offset - f.start = (before.flatMap Entry.framed).length := by
    rw [begins, h.chain.left.ending_eq]
    omega
  have bytes : f.bytes.toList = before.flatMap Entry.framed ++
      BigEndian.toBytes headerSize e.data.length ++ (e.data ++ after.flatMap Entry.framed) := by
    rw [h.bytes]
    simp [Entry.framed]
  have header := slice?_middle bytes
  rw [BigEndian.length_toBytes, ← skipped] at header
  rw [← List.append_assoc] at bytes
  have data := slice?_middle bytes
  have length : BigEndian.ofBytes (BigEndian.toBytes headerSize e.data.length) = e.data.length :=
    BigEndian.ofBytes_toBytes (h.small e (by simp))
  rw [List.length_append, BigEndian.length_toBytes, ← skipped] at data
  have entry := entryAt_of_slices header (by rw [length]; exact data)
  rw [length, begins, ← ends, ← begins] at entry
  exact entry

theorem gather_eq {before rest : List Entry} (h : f.Keeps (before ++ rest)) (budget used : Nat) :
    ∃ entries, f.gather budget (rest.map Entry.offset) used = .ok entries ∧ entries <+: rest ∧
      (used = 0 → rest ≠ [] → entries ≠ []) := by
  induction rest generalizing before used with
  | nil => exact ⟨[], rfl, List.nil_prefix, fun _ h => absurd rfl h⟩
  | cons e rest ih =>
    have h' : f.Keeps ((before ++ [e]) ++ rest) := by simpa using h
    obtain ⟨entries, gathered, front, _⟩ := ih h' (used + (e.endOffset - e.offset))
    simp only [List.map_cons, gather, h.entryAt_eq, Bind.bind, Except.bind]
    split
    · rename_i full
      exact ⟨[], rfl, List.nil_prefix, fun zero => absurd zero full.1⟩
    · rw [gathered]
      exact ⟨e :: entries, rfl, List.cons_prefix_cons.mpr ⟨rfl, front⟩, fun _ _ => List.cons_ne_nil _ _⟩

theorem readAt_ok (h : f.Keeps kept) {segment : SegmentId} {offset budget : Nat} {entries : List Entry}
    (read : f.readAt segment offset budget = .ok entries) :
    ∃ before after, kept = before ++ entries ++ after ∧ ending f.start before = offset ∧
      (offset ≠ f.tail → entries ≠ []) := by
  simp only [readAt] at read
  split at read
  · cases read
  · split at read
    · rename_i at_tail
      cases read
      exact ⟨kept, [], by simp, by rw [at_tail, h.tail_eq], fun other => absurd at_tail other⟩
    · cases found : f.entryIndex? offset with
      | none => simp only [found] at read; cases read
      | some first =>
        obtain ⟨before, e, after, rfl, rfl, rfl⟩ := h.of_entryIndex? found
        obtain ⟨gathered, same, ⟨after', front⟩, nonempty⟩ := h.gather_eq budget 0
        simp only [found, h.index_suffix, same] at read
        cases read
        refine ⟨before, after', by rw [List.append_assoc, front], h.chain.offset_eq.symm, ?_⟩
        exact fun _ => nonempty rfl (List.cons_ne_nil _ _)

theorem readAt_error (h : f.Keeps kept) {segment : SegmentId} {offset budget : Nat} {cause : SegmentError}
    (read : f.readAt segment offset budget = .error cause) :
    (cause = .truncated segment offset f.start ∧ offset < f.start) ∨
      (cause = .invalidOffset segment offset f.tail ∧ f.start ≤ offset ∧
        ∀ before, before <+: kept → ending f.start before ≠ offset) := by
  simp only [readAt] at read
  split at read
  · rename_i low
    cases read
    exact .inl ⟨rfl, low⟩
  · rename_i high
    split at read
    · cases read
    · rename_i inside
      cases found : f.entryIndex? offset with
      | none =>
        simp only [found] at read
        cases read
        refine .inr ⟨rfl, Nat.le_of_not_lt high, ?_⟩
        rintro before ⟨after, rfl⟩ same
        cases after with
        | nil => exact inside (by rw [h.tail_eq, ← same, List.append_nil])
        | cons e after =>
          rw [← same, ← h.chain.offset_eq, h.entryIndex?_eq] at found
          cases found
      | some first =>
        obtain ⟨before, e, after, rfl, rfl, rfl⟩ := h.of_entryIndex? found
        obtain ⟨gathered, same, _⟩ := h.gather_eq budget 0
        simp only [found, h.index_suffix, same] at read
        cases read

def pushed (f : Framed) (data : Bytes) : Entry := ⟨f.tail, f.tail + headerSize + data.length, data⟩

theorem push (h : f.Keeps kept) {data : Bytes} (small : data.length < payloadLimit) :
    (f.push data).Keeps (kept ++ [pushed f data]) := by
  constructor
  · rw [contiguous_append]
    refine ⟨h.chain, h.tail_eq, ?_, trivial⟩
    show f.tail + headerSize + data.length = ending f.start kept + headerSize + data.length
    rw [h.tail_eq]
  · simp only [Framed.push, Array.toList_push, h.index, List.map_append, List.map_cons, List.map_nil, pushed]
  · simp only [Framed.push, Array.toList_appendList, h.bytes, List.flatMap_append, List.flatMap_cons,
      List.flatMap_nil, Entry.framed, pushed, List.append_nil, List.append_assoc]
  · intro e member
    rcases List.mem_append.mp member with member | member
    · exact h.small e member
    · rw [List.mem_singleton.mp member]
      exact small

theorem tail_push (f : Framed) (data : Bytes) : (f.push data).tail = (pushed f data).endOffset := by
  simp only [Framed.push, Framed.tail, pushed, ← Array.length_toList, Array.toList_appendList,
    List.length_append, BigEndian.length_toBytes]
  omega

theorem index_filter {dropped rest : List Entry} (h : f.Keeps (dropped ++ rest)) :
    (f.index.filter (ending f.start dropped ≤ ·)).toList = rest.map Entry.offset := by
  have low : ∀ e ∈ dropped, e.offset < ending f.start dropped := fun e member =>
    (h.chain.left.offsets_ascending.2 e member).2
  have high : ∀ e ∈ rest, ending f.start dropped ≤ e.offset := fun e member =>
    (h.chain.right.offsets_ascending.2 e member).1
  rw [Array.toList_filter, h.index, List.map_append, List.filter_append]
  rw [List.filter_eq_nil_iff.mpr, List.filter_eq_self.mpr, List.nil_append]
  · intro offset member
    obtain ⟨e, inRest, rfl⟩ := List.mem_map.mp member
    exact decide_eq_true (high e inRest)
  · intro offset member
    obtain ⟨e, inDropped, rfl⟩ := List.mem_map.mp member
    have := low e inDropped
    simp only [decide_eq_true_eq]
    omega

theorem drop_front {dropped rest : List Entry} (h : f.Keeps (dropped ++ rest)) :
    Framed.Keeps { f with
      start := ending f.start dropped
      bytes := f.bytes.extract (ending f.start dropped - f.start) f.bytes.size
      index := f.index.filter (ending f.start dropped ≤ ·) } rest := by
  have skipped : ending f.start dropped - f.start = (dropped.flatMap Entry.framed).length := by
    rw [h.chain.left.ending_eq]
    omega
  have size : f.bytes.size = (dropped.flatMap Entry.framed).length + (rest.flatMap Entry.framed).length := by
    rw [← Array.length_toList, h.bytes, List.flatMap_append, List.length_append]
  constructor
  · exact h.chain.right
  · exact h.index_filter
  · show (f.bytes.extract _ _).toList = _
    rw [Array.toList_extract, h.bytes, skipped, size, List.flatMap_append, List.extract_eq_take_drop,
      Nat.add_sub_cancel_left, List.drop_left, List.take_length]
  · exact fun e member => h.small e (List.mem_append_right _ member)

theorem truncateBefore_boundary {dropped rest : List Entry} (h : f.Keeps (dropped ++ rest))
    (segment : SegmentId) (low : f.start < ending f.start dropped) :
    f.truncateBefore segment (ending f.start dropped) = (.ok (), { f with
      start := ending f.start dropped
      bytes := f.bytes.extract (ending f.start dropped - f.start) f.bytes.size
      index := f.index.filter (ending f.start dropped ≤ ·) }) := by
  have boundary : ending f.start dropped = f.tail ∨ (f.entryIndex? (ending f.start dropped)).isSome := by
    cases rest with
    | nil =>
      left
      rw [h.tail_eq, List.append_nil]
    | cons e rest =>
      right
      rw [← h.chain.offset_eq, h.entryIndex?_eq]
      rfl
  rw [Framed.truncateBefore, if_neg (Nat.not_le.mpr low), if_pos boundary]
  rfl

def Advanced (f : Framed) (kept : List Entry) (offset : Nat) (f' : Framed) : Prop :=
  ∃ dropped rest, kept = dropped ++ rest ∧ f'.Keeps rest ∧ f'.start = ending f.start dropped ∧
    f'.start = max f.start offset ∧ f'.attributes = f.attributes

theorem truncateBefore (h : f.Keeps kept) (segment : SegmentId) (offset : Nat) :
    ((f.truncateBefore segment offset).1 = .ok () ∧
      Advanced f kept offset (f.truncateBefore segment offset).2) ∨
    (f.truncateBefore segment offset = (.error (.invalidOffset segment offset f.tail), f) ∧
      f.start < offset ∧ ∀ before, before <+: kept → ending f.start before ≠ offset) := by
  by_cases low : offset ≤ f.start
  · have reply : f.truncateBefore segment offset = (.ok (), f) := by
      rw [Framed.truncateBefore, if_pos low]
      rfl
    rw [reply]
    exact .inl ⟨rfl, [], kept, rfl, h, rfl, (Nat.max_eq_left low).symm, rfl⟩
  have high : f.start < offset := Nat.lt_of_not_le low
  by_cases boundary : ∃ before, before <+: kept ∧ ending f.start before = offset
  · obtain ⟨dropped, ⟨rest, rfl⟩, rfl⟩ := boundary
    rw [h.truncateBefore_boundary segment high]
    exact .inl ⟨rfl, dropped, rest, rfl, h.drop_front, rfl, (Nat.max_eq_right (Nat.le_of_lt high)).symm, rfl⟩
  · have apart : ∀ before, before <+: kept → ending f.start before ≠ offset :=
      fun before front same => boundary ⟨before, front, same⟩
    refine .inr ⟨?_, high, apart⟩
    -- The check in the buffer is for the tail or an index, which together are the ends of its fronts.
    have inside : offset ≠ f.tail := fun same => apart kept (List.prefix_refl _) (by rw [← h.tail_eq, same])
    have missing : ¬(offset = f.tail ∨ (f.entryIndex? offset).isSome) := by
      rintro (same | some)
      · exact inside same
      · obtain ⟨first, found⟩ := Option.isSome_iff_exists.mp some
        obtain ⟨before, e, after, rfl, begins, _⟩ := h.of_entryIndex? found
        exact apart before (List.prefix_append _ _) (begins ▸ h.chain.offset_eq.symm)
    rw [Framed.truncateBefore, if_neg low, if_neg missing]
    rfl

end Keeps

end LogReplica.Framed
