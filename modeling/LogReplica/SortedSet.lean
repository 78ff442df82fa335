namespace LogReplica

structure SortedSet (α : Type) [Ord α] where
  toList : List α
  ascending : toList.Pairwise (fun a b => compare a b = .lt)

namespace SortedSet

variable {α : Type} [Ord α]

@[ext] theorem ext_toList {s t : SortedSet α} (h : s.toList = t.toList) : s = t := by
  cases s; cases t; cases h; rfl

def empty : SortedSet α := ⟨[], .nil⟩

def size (s : SortedSet α) : Nat := s.toList.length

def isEmpty (s : SortedSet α) : Bool := s.toList.isEmpty

def contains (s : SortedSet α) (a : α) : Bool := s.toList.any (fun b => compare a b == .eq)

def insertSorted (a : α) : List α → List α
  | [] => [a]
  | b :: rest =>
    match compare a b with
    | .lt => a :: b :: rest
    | .eq => b :: rest
    | .gt => b :: insertSorted a rest

theorem mem_insertSorted [Std.LawfulEqOrd α] {a x : α} {l : List α} : x ∈ insertSorted a l ↔ x = a ∨ x ∈ l := by
  induction l with
  | nil => simp [insertSorted]
  | cons b rest ih =>
    unfold insertSorted
    split
    · simp
    · rename_i h
      have : a = b := Std.LawfulEqOrd.eq_of_compare h
      simp [this]
    · simp only [List.mem_cons, ih]
      constructor
      · rintro (h | h | h) <;> simp [h]
      · rintro (h | h | h) <;> simp [h]

theorem ascending_insertSorted [Std.TransOrd α] [Std.LawfulEqOrd α] {a : α} {l : List α}
    (h : l.Pairwise (fun a b => compare a b = .lt)) :
    (insertSorted a l).Pairwise (fun a b => compare a b = .lt) := by
  induction l with
  | nil => simp [insertSorted]
  | cons b rest ih =>
    rw [List.pairwise_cons] at h
    unfold insertSorted
    split
    · rename_i hab
      refine List.pairwise_cons.mpr ⟨?_, List.pairwise_cons.mpr h⟩
      intro c hc
      rcases List.mem_cons.mp hc with rfl | hc
      · exact hab
      · exact Std.TransCmp.lt_trans hab (h.1 c hc)
    · exact List.pairwise_cons.mpr h
    · rename_i hab
      refine List.pairwise_cons.mpr ⟨?_, ih h.2⟩
      intro c hc
      rcases mem_insertSorted.mp hc with rfl | hc
      · exact Std.OrientedCmp.gt_iff_lt.mp hab
      · exact h.1 c hc

def insert [Std.TransOrd α] [Std.LawfulEqOrd α] (s : SortedSet α) (a : α) : SortedSet α :=
  ⟨insertSorted a s.toList, ascending_insertSorted s.ascending⟩

def erase (s : SortedSet α) (a : α) : SortedSet α :=
  ⟨s.toList.filter (fun b => compare a b != .eq), s.ascending.filter _⟩

def ofList [Std.TransOrd α] [Std.LawfulEqOrd α] (as : List α) : SortedSet α := as.foldl insert empty

theorem contains_iff [Std.LawfulEqOrd α] {s : SortedSet α} {a : α} : s.contains a = true ↔ a ∈ s.toList := by
  simp only [contains, List.any_eq_true, beq_iff_eq]
  constructor
  · rintro ⟨b, hb, h⟩
    rwa [Std.LawfulEqOrd.eq_of_compare h]
  · exact fun h => ⟨a, h, Std.ReflCmp.compare_self⟩

theorem mem_insert [Std.TransOrd α] [Std.LawfulEqOrd α] {s : SortedSet α} {a x : α} :
    x ∈ (s.insert a).toList ↔ x = a ∨ x ∈ s.toList :=
  mem_insertSorted

theorem mem_erase [Std.LawfulEqOrd α] {s : SortedSet α} {a x : α} : x ∈ (s.erase a).toList ↔ x ≠ a ∧ x ∈ s.toList := by
  simp only [erase, List.mem_filter, bne_iff_ne, ne_eq]
  constructor
  · rintro ⟨h, hne⟩
    exact ⟨fun he => hne (he ▸ Std.ReflCmp.compare_self), h⟩
  · rintro ⟨hne, h⟩
    exact ⟨h, fun he => hne (Std.LawfulEqOrd.eq_of_compare he).symm⟩

end SortedSet

end LogReplica
