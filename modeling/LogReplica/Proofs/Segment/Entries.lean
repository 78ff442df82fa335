import LogReplica.Segment.Framed

namespace LogReplica

def Entry.framed (e : Entry) : Bytes := BigEndian.toBytes Framed.headerSize e.data.length ++ e.data

/-- Entries without a gap between them, of which the first begins at `start`. -/
def Contiguous : (start : Nat) → List Entry → Prop
  | _, [] => True
  | start, e :: rest =>
    e.offset = start ∧ e.endOffset = start + Framed.headerSize + e.data.length ∧ Contiguous e.endOffset rest

/-- Where the last one of some entries ends; `start` if there are none. -/
def ending : (start : Nat) → List Entry → Nat
  | start, [] => start
  | _, e :: rest => ending e.endOffset rest

@[simp] theorem ending_nil (start : Nat) : ending start [] = start := rfl

@[simp] theorem ending_cons (start : Nat) (e : Entry) (rest : List Entry) :
    ending start (e :: rest) = ending e.endOffset rest := rfl

@[simp] theorem ending_append (start : Nat) (left right : List Entry) :
    ending start (left ++ right) = ending (ending start left) right := by
  induction left generalizing start with
  | nil => rfl
  | cons e rest ih => exact ih e.endOffset

theorem ending_eq_of_getLast? (start : Nat) {entries : List Entry} {last : Entry}
    (h : entries.getLast? = some last) : ending start entries = last.endOffset := by
  rw [List.getLast?_eq_some_iff] at h
  obtain ⟨before, rfl⟩ := h
  simp

@[simp] theorem Entry.length_framed (e : Entry) : e.framed.length = Framed.headerSize + e.data.length := by
  simp [Entry.framed]

theorem contiguous_append (start : Nat) (left right : List Entry) :
    Contiguous start (left ++ right) ↔ Contiguous start left ∧ Contiguous (ending start left) right := by
  induction left generalizing start with
  | nil => simp [Contiguous]
  | cons e rest ih => simp only [List.cons_append, Contiguous, ih, ending_cons, and_assoc]

namespace Contiguous

variable {start : Nat} {entries : List Entry}

theorem left {left right : List Entry} (h : Contiguous start (left ++ right)) : Contiguous start left :=
  ((contiguous_append start left right).mp h).1

theorem right {left right : List Entry} (h : Contiguous start (left ++ right)) :
    Contiguous (ending start left) right :=
  ((contiguous_append start left right).mp h).2

theorem of_le {front : List Entry} (h : Contiguous start entries) (le : front <+: entries) :
    Contiguous start front := by
  obtain ⟨rest, rfl⟩ := le
  exact h.left

theorem ending_eq (h : Contiguous start entries) :
    ending start entries = start + (entries.flatMap Entry.framed).length := by
  induction entries generalizing start with
  | nil => rfl
  | cons e rest ih =>
    obtain ⟨_, ends, tail⟩ := h
    rw [ending_cons, ih tail, ends]
    simp only [List.flatMap_cons, List.length_append, Entry.length_framed]
    omega

theorem le_ending (h : Contiguous start entries) : start ≤ ending start entries := by
  rw [h.ending_eq]
  omega

theorem lt_ending (h : Contiguous start entries) (nonempty : entries ≠ []) :
    start < ending start entries := by
  cases entries with
  | nil => exact absurd rfl nonempty
  | cons e rest =>
    obtain ⟨_, ends, tail⟩ := h
    have := tail.le_ending
    rw [ending_cons]
    simp only [Framed.headerSize] at ends
    omega

theorem length_le (h : Contiguous start entries) : start + entries.length ≤ ending start entries := by
  induction entries generalizing start with
  | nil => simp
  | cons e rest ih =>
    obtain ⟨_, ends, tail⟩ := h
    have := ih tail
    simp only [Framed.headerSize] at ends
    simp only [List.length_cons, ending_cons]
    omega

theorem prefix_eq {left right : List Entry} (h : Contiguous start entries)
    (hl : left <+: entries) (hr : right <+: entries) (same : ending start left = ending start right) :
    left = right := by
  induction entries generalizing start left right with
  | nil => rw [List.prefix_nil.mp hl, List.prefix_nil.mp hr]
  | cons e rest ih =>
    have grows : ∀ {front : List Entry}, front <+: rest → start < ending start (e :: front) := fun le =>
      lt_ending (h.of_le (List.cons_prefix_cons.mpr ⟨rfl, le⟩)) (List.cons_ne_nil _ _)
    rcases List.prefix_cons_iff.mp hl with rfl | ⟨left, rfl, inLeft⟩ <;>
      rcases List.prefix_cons_iff.mp hr with rfl | ⟨right, rfl, inRight⟩
    · rfl
    · exact absurd same (Nat.ne_of_lt (grows inRight))
    · exact absurd same.symm (Nat.ne_of_lt (grows inLeft))
    · rw [ih h.2.2 inLeft inRight same]

theorem split_eq {before after before' after' : List Entry} {e e' : Entry}
    (h : Contiguous start (before ++ e :: after)) (other : before ++ e :: after = before' ++ e' :: after')
    (same : ending start before = ending start before') : before = before' ∧ e = e' ∧ after = after' := by
  have hb : before = before' :=
    h.prefix_eq (List.prefix_append _ _) (other ▸ List.prefix_append _ _) same
  subst hb
  have := List.append_cancel_left other
  exact ⟨rfl, List.cons.inj this⟩

theorem offset_eq {before after : List Entry} {e : Entry} (h : Contiguous start (before ++ e :: after)) :
    e.offset = ending start before :=
  h.right.1

theorem endOffset_eq {before after : List Entry} {e : Entry} (h : Contiguous start (before ++ e :: after)) :
    e.endOffset = ending start before + Framed.headerSize + e.data.length :=
  h.right.2.1

theorem offsets_ascending (h : Contiguous start entries) :
    (entries.map Entry.offset).Pairwise (· < ·) ∧
      ∀ e ∈ entries, start ≤ e.offset ∧ e.offset < ending start entries := by
  induction entries generalizing start with
  | nil => simp
  | cons e rest ih =>
    obtain ⟨begins, ends, tail⟩ := h
    obtain ⟨ascending, within⟩ := ih tail
    have low : e.offset < e.endOffset := by simp only [Framed.headerSize] at ends; omega
    have high := tail.le_ending
    refine ⟨?_, ?_⟩
    · rw [List.map_cons, List.pairwise_cons]
      refine ⟨?_, ascending⟩
      intro offset member
      obtain ⟨other, inRest, rfl⟩ := List.mem_map.mp member
      have := (within other inRest).1
      omega
    · intro other member
      rw [ending_cons]
      rcases List.mem_cons.mp member with rfl | inRest
      · omega
      · have := within other inRest
        omega

theorem exists_front {e : Entry} (h : Contiguous start entries) (member : e ∈ entries) :
    ∃ before, before <+: entries ∧ ending start before = e.offset := by
  obtain ⟨before, after, rfl⟩ := List.append_of_mem member
  exact ⟨before, List.prefix_append _ _, h.offset_eq.symm⟩

theorem eq_of_offset_eq {e e' : Entry} (h : Contiguous start entries) (member : e ∈ entries) (member' : e' ∈ entries)
    (same : e.offset = e'.offset) : e = e' := by
  obtain ⟨before, after, rfl⟩ := List.append_of_mem member
  obtain ⟨before', after', split⟩ := List.append_of_mem member'
  have begins : e'.offset = ending start before' := (split ▸ h).offset_eq
  exact (h.split_eq split (h.offset_eq.symm.trans (same.trans begins))).2.1

end Contiguous

end LogReplica
