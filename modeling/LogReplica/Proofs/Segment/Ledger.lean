import LogReplica.Proofs.Segment.Entries
import LogReplica.Segment.Service
import Mathlib.Algebra.GroupWithZero.Nat
import Mathlib.Data.List.Basic
import Mathlib.Data.Nat.Find
import Mathlib.Logic.Function.Basic

namespace LogReplica

def framedSize (payloads : List Bytes) : Nat := (payloads.map fun data => Framed.headerSize + data.length).sum

@[simp] theorem framedSize_nil : framedSize [] = 0 := rfl

@[simp] theorem framedSize_cons (data : Bytes) (rest : List Bytes) :
    framedSize (data :: rest) = Framed.headerSize + data.length + framedSize rest := rfl

structure Ledger where
  /-- Where the first retained payload begins. -/
  base : Nat := 0
  payloads : List Bytes := []
  attributes : AttributeKey → Option Int := fun _ => none

namespace Ledger

def position (l : Ledger) (i : Nat) : Nat := l.base + framedSize (l.payloads.take i)

def tail (l : Ledger) : Nat := l.position l.payloads.length

def entries (l : Ledger) : List Entry :=
  l.payloads.mapIdx fun i data => ⟨l.position i, l.position (i + 1), data⟩

/-- The number of payloads before a position, if an entry begins there or the segment ends there. -/
def boundary? (l : Ledger) (offset : Nat) : Option Nat :=
  (List.range (l.payloads.length + 1)).find? (l.position · = offset)

def fitting (budget : Nat) (entries : List Entry) : List Entry :=
  let fits n := framedSize ((entries.take n).map Entry.data) ≤ budget
  entries.take (max 1 (Nat.findGreatest fits entries.length))

def append (expected : Option Nat) (data : Bytes) (l : Ledger) : AppendOutcome × Ledger :=
  if expected.all (· = l.tail) then
    (.appended l.tail (l.tail + (Framed.headerSize + data.length)), { l with payloads := l.payloads ++ [data] })
  else (.conflict l.tail, l)

def readAt (segment : SegmentId) (l : Ledger) (offset budget : Nat) : Except SegmentError (List Entry) :=
  if offset < l.base then throw (.truncated segment offset l.base)
  else
    match l.boundary? offset with
    | none => throw (.invalidOffset segment offset l.tail)
    | some i => pure (fitting budget (l.entries.drop i))

def compareAndSet (key : AttributeKey) (expected new : Option Int) (l : Ledger) : Bool × Ledger :=
  if l.attributes key = expected then
    (true, { l with attributes := Function.update l.attributes key new })
  else (false, l)

def truncateBefore (segment : SegmentId) (offset : Nat) (l : Ledger) : Except SegmentError Unit × Ledger :=
  if offset ≤ l.base then (pure (), l)
  else
    match l.boundary? offset with
    | none => (throw (.invalidOffset segment offset l.tail), l)
    | some i => (pure (), { l with base := offset, payloads := l.payloads.drop i })

abbrev Shelf := SegmentId → Option Ledger

namespace Shelf

def within {α : Type} (segment : SegmentId) (f : Ledger → Except SegmentError α × Ledger) (shelf : Shelf) :
    Except SegmentError α × Shelf :=
  match shelf segment with
  | none => (throw (.noSuchSegment segment), shelf)
  | some l => ((f l).1, Function.update shelf segment (some (f l).2))

def serve (segment : SegmentId) : (q : Request) → Shelf → Reply q × Shelf
  | .createSegment, shelf =>
    if (shelf segment).isSome then (pure false, shelf)
    else (pure true, Function.update shelf segment (some {}))
  | .append expected data, shelf =>
    if data.length < Framed.payloadLimit then
      shelf.within segment fun l => ((pure (l.append expected data).1), (l.append expected data).2)
    else (throw (.entryTooLarge data.length), shelf)
  | .readAt offset budget, shelf => shelf.within segment fun l => (l.readAt segment offset budget, l)
  | .tailOffset, shelf => shelf.within segment fun l => (pure l.tail, l)
  | .oldestOffset, shelf => shelf.within segment fun l => (pure l.base, l)
  | .getAttribute key, shelf => shelf.within segment fun l => (pure (l.attributes key), l)
  | .compareAndSetAttribute key expected new, shelf =>
    shelf.within segment fun l => (pure (l.compareAndSet key expected new).1, (l.compareAndSet key expected new).2)
  | .truncateBefore offset, shelf => shelf.within segment (Ledger.truncateBefore segment offset)

end Shelf

theorem position_cons (base : Nat) (data : Bytes) (rest : List Bytes) (held : AttributeKey → Option Int) (i : Nat) :
    position ⟨base, data :: rest, held⟩ (i + 1) =
      position ⟨base + (Framed.headerSize + data.length), rest, held⟩ i := by
  simp only [position, List.take_succ_cons, framedSize_cons]
  omega

@[simp] theorem position_zero (l : Ledger) : l.position 0 = l.base := rfl

theorem entries_cons (base : Nat) (data : Bytes) (rest : List Bytes) (held : AttributeKey → Option Int) :
    entries ⟨base, data :: rest, held⟩ =
      ⟨base, base + (Framed.headerSize + data.length), data⟩ ::
        entries ⟨base + (Framed.headerSize + data.length), rest, held⟩ := by
  simp only [entries, List.mapIdx_cons, position_cons, position_zero]

@[simp] theorem length_entries (l : Ledger) : l.entries.length = l.payloads.length := List.length_mapIdx

theorem chain (l : Ledger) : Contiguous l.base l.entries := by
  obtain ⟨base, payloads, held⟩ := l
  induction payloads generalizing base with
  | nil => trivial
  | cons data rest ih =>
    rw [entries_cons]
    exact ⟨rfl, (Nat.add_assoc _ _ _).symm, ih _⟩

theorem ending_take (l : Ledger) (i : Nat) : ending l.base (l.entries.take i) = l.position i := by
  obtain ⟨base, payloads, held⟩ := l
  induction payloads generalizing base i with
  | nil => simp [entries, position]
  | cons data rest ih =>
    cases i with
    | zero => rfl
    | succ i =>
      rw [entries_cons, List.take_succ_cons, ending_cons, position_cons]
      exact ih i _

theorem ending_entries (l : Ledger) : ending l.base l.entries = l.tail := by
  rw [tail, ← ending_take, ← length_entries, List.take_length]

theorem entries_drop (l : Ledger) (i : Nat) :
    entries ⟨l.position i, l.payloads.drop i, l.attributes⟩ = l.entries.drop i := by
  obtain ⟨base, payloads, held⟩ := l
  induction payloads generalizing base i with
  | nil => simp [entries]
  | cons data rest ih =>
    cases i with
    | zero => rfl
    | succ i =>
      rw [entries_cons, List.drop_succ_cons, List.drop_succ_cons, position_cons]
      exact ih i _

theorem entries_append (l : Ledger) (data : Bytes) :
    entries { l with payloads := l.payloads ++ [data] } =
      l.entries ++ [⟨l.tail, l.tail + Framed.headerSize + data.length, data⟩] := by
  obtain ⟨base, payloads, held⟩ := l
  induction payloads generalizing base with
  | nil => simp [entries, tail, position, Nat.add_assoc]
  | cons first rest ih =>
    have later := ih (base + (Framed.headerSize + first.length))
    simp only [tail, List.length_cons, position_cons, List.cons_append, entries_cons] at later ⊢
    rw [later]

theorem position_lt {l : Ledger} {i j : Nat} (lt : i < j) (le : j ≤ l.payloads.length) :
    l.position i < l.position j := by
  have split : l.entries.take j = l.entries.take i ++ (l.entries.take j).drop i := by
    conv_lhs => rw [← List.take_append_drop i (l.entries.take j)]
    rw [List.take_take, Nat.min_eq_left (Nat.le_of_lt lt)]
  have chain : Contiguous l.base (l.entries.take j) := l.chain.of_le (List.take_prefix _ _)
  rw [split] at chain
  rw [← ending_take, ← ending_take, split, ending_append]
  refine chain.right.lt_ending (List.ne_nil_of_length_pos ?_)
  simp only [List.length_drop, List.length_take, length_entries]
  omega

theorem position_inj {l : Ledger} {i j : Nat} (hi : i ≤ l.payloads.length) (hj : j ≤ l.payloads.length)
    (same : l.position i = l.position j) : i = j := by
  rcases Nat.lt_trichotomy i j with lt | eq | gt
  · exact absurd same (Nat.ne_of_lt (position_lt lt hj))
  · exact eq
  · exact absurd same.symm (Nat.ne_of_lt (position_lt gt hi))

theorem of_boundary? {l : Ledger} {offset i : Nat} (found : l.boundary? offset = some i) :
    i ≤ l.payloads.length ∧ l.position i = offset := by
  have inside := List.mem_of_find?_eq_some found
  have here := List.find?_some found
  exact ⟨Nat.le_of_lt_succ (List.mem_range.mp inside), of_decide_eq_true here⟩

theorem boundary?_position {l : Ledger} {i : Nat} (inside : i ≤ l.payloads.length) :
    l.boundary? (l.position i) = some i := by
  cases found : l.boundary? (l.position i) with
  | none =>
    have apart := List.find?_eq_none.mp found i (List.mem_range.mpr (Nat.lt_succ_of_le inside))
    exact absurd (decide_eq_true rfl) apart
  | some j =>
    obtain ⟨inside', same⟩ := of_boundary? found
    rw [position_inj inside' inside same]

theorem boundary?_eq_none {l : Ledger} {offset : Nat} (none : l.boundary? offset = .none) :
    ∀ before, before <+: l.entries → ending l.base before ≠ offset := by
  rintro before front rfl
  have short := front.length_le
  rw [length_entries] at short
  have found := boundary?_position short
  rw [← ending_take, ← List.prefix_iff_eq_take.mp front, none] at found
  cases found

end Ledger

end LogReplica
