import LogReplica.Proofs.Replica.Deployment
import LogReplica.ReplicatedSet
import Mathlib.Data.Set.Card

namespace LogReplica

variable {α : Type}

namespace SetUpdate

def change : SetUpdate α → Set α → Set α
  | add value, s => insert value s
  | remove value, s => s \ {value}
  | clear, _ => ∅

/-- The set is the way already that the update would make it. -/
def Done : SetUpdate α → Set α → Prop
  | add value, s => value ∈ s
  | remove value, s => value ∉ s
  | clear, s => s = ∅

theorem done_change (update : SetUpdate α) (s : Set α) : update.Done (update.change s) := by
  cases update with
  | add value => exact Set.mem_insert value s
  | remove value => exact fun member => member.2 rfl
  | clear => rfl

end SetUpdate

namespace SortedSet

variable [Ord α] {s t : SortedSet α} {a : α}

instance decidableEq [DecidableEq α] : DecidableEq (SortedSet α) := fun s t =>
  decidable_of_iff (s.toList = t.toList) ⟨ext_toList, congrArg toList⟩

def elements (s : SortedSet α) : Set α := {a | a ∈ s.toList}

@[simp] theorem mem_elements : a ∈ s.elements ↔ a ∈ s.toList := Iff.rfl

@[simp] theorem elements_empty : (empty : SortedSet α).elements = ∅ := Set.eq_empty_of_forall_notMem fun _ => nofun

@[simp] theorem elements_erase [Std.LawfulEqOrd α] (s : SortedSet α) (a : α) :
    (s.erase a).elements = s.elements \ {a} := Set.ext fun _ => mem_erase.trans and_comm

theorem isEmpty_iff : s.isEmpty = true ↔ s.elements = ∅ := by
  rw [isEmpty, List.isEmpty_iff, List.eq_nil_iff_forall_not_mem, Set.eq_empty_iff_forall_notMem]
  rfl

variable [Std.TransOrd α]

theorem nodup (s : SortedSet α) : s.toList.Nodup := by
  refine s.ascending.imp fun {a b} lt same => ?_
  rw [same, Std.ReflOrd.compare_self] at lt
  cases lt

theorem encard_elements (s : SortedSet α) : s.elements.encard = s.size := by
  classical
  rw [elements, ← List.coe_toFinset, Set.encard_coe_eq_coe_finsetCard, List.toFinset_card_of_nodup s.nodup, size]

theorem eq_of_elements_eq (same : s.elements = t.elements) : s = t := by
  refine ext_toList (List.Perm.eq_of_pairwise ?_ s.ascending t.ascending ?_)
  · intro a b _ _ lt gt
    rw [Std.OrientedOrd.eq_swap, gt] at lt
    cases lt
  · exact (List.perm_ext_iff_of_nodup s.nodup t.nodup).mpr fun a => Set.ext_iff.mp same a

variable [Std.LawfulEqOrd α]

@[simp] theorem elements_insert (s : SortedSet α) (a : α) : (s.insert a).elements = Insert.insert a s.elements :=
  Set.ext fun _ => mem_insert

theorem elements_foldl_insert (as : List α) (s : SortedSet α) :
    (as.foldl insert s).elements = s.elements ∪ {a | a ∈ as} := by
  induction as generalizing s with
  | nil => simp
  | cons a as ih =>
    rw [List.foldl_cons, ih, elements_insert]
    ext b
    simp only [Set.mem_union, Set.mem_insert_iff, Set.mem_ofPred_eq, List.mem_cons]
    tauto

theorem ofList_toList (s : SortedSet α) : ofList s.toList = s := by
  refine eq_of_elements_eq ?_
  rw [ofList, elements_foldl_insert, elements_empty, Set.empty_union]
  rfl

end SortedSet

variable [Ord α] [Std.TransOrd α] [Std.LawfulEqOrd α]

namespace SetUpdate

theorem elements_apply (update : SetUpdate α) (s : MemberSet α) :
    (update.apply s).members.elements = update.change s.members.elements := by
  cases update with
  | add value => exact s.members.elements_insert value
  | remove value => exact s.members.elements_erase value
  | clear => exact SortedSet.elements_empty

theorem name_apply (update : SetUpdate α) (s : MemberSet α) : (update.apply s).name = s.name := by
  cases update <;> rfl

theorem name_foldUpdates (batch : List (SetUpdate α)) (s : MemberSet α) (revision : Revision) :
    (Record.foldUpdates (M := Model.memberSet α) batch s revision).name = s.name := by
  induction batch generalizing s with
  | nil => rfl
  | cons update batch ih => exact Eq.trans (ih _) (update.name_apply s)

end SetUpdate

theorem Model.memberSet_positional : (Model.memberSet α).Positional :=
  ⟨fun _ _ _ _ _ => rfl, fun _ _ _ _ _ => rfl⟩

namespace ReplicatedSet

def proposal : SetUpdate α → MemberSet α → List (SetUpdate α)
  | .add value => addition value
  | .remove value => removal value
  | .clear => clearance

omit [Std.TransOrd α] in
theorem proposal_cases (update : SetUpdate α) (s : MemberSet α) :
    update.Done s.members.elements ∧ proposal update s = [] ∨
      ¬update.Done s.members.elements ∧ proposal update s = [update] := by
  cases update with
  | add value =>
    rw [SetUpdate.Done, SortedSet.mem_elements, ← SortedSet.contains_iff]
    by_cases member : s.members.contains value = true
    · exact .inl ⟨member, if_pos member⟩
    · exact .inr ⟨member, if_neg member⟩
  | remove value =>
    rw [SetUpdate.Done, SortedSet.mem_elements, ← SortedSet.contains_iff, not_not]
    by_cases member : s.members.contains value = true
    · exact .inr ⟨member, if_pos member⟩
    · exact .inl ⟨member, if_neg member⟩
  | clear =>
    rw [SetUpdate.Done, ← SortedSet.isEmpty_iff]
    by_cases empty : s.members.isEmpty = true
    · exact .inl ⟨empty, if_pos empty⟩
    · exact .inr ⟨empty, if_neg empty⟩

end ReplicatedSet

namespace Deployment

variable {d : Deployment (Model.memberSet α)} {log : List Entry} {e : Entry} {s : MemberSet α}

/-- The set that a log stands for. Before it begins there are no members. -/
def elements (d : Deployment (Model.memberSet α)) (log : List Entry) : Set α :=
  (d.fold log).elim ∅ fun s => s.members.elements

theorem elements_of_fold (folded : d.fold log = some s) : d.elements log = s.members.elements := by
  rw [elements, folded]
  rfl

theorem elements_snapshot {members : SortedSet α} (decoded : d.codec.decode e.data = .ok (.init members)) :
    d.elements (log ++ [e]) = members.elements := by
  rw [elements, fold_concat, advance_snapshot decoded]
  rfl

theorem elements_update {update : SetUpdate α} (folded : d.fold log = some s)
    (decoded : d.codec.decode e.data = .ok (.updates [update])) :
    d.elements (log ++ [e]) = update.change (d.elements log) := by
  rw [elements_of_fold folded, elements, fold_concat, advance_batch decoded, folded]
  exact update.elements_apply s

theorem name_of_fold (folded : d.fold log = some s) : s.name = d.name := by
  induction log using List.reverseRecOn generalizing s with
  | nil => cases folded
  | append_singleton log e ih =>
    rw [fold_concat] at folded
    cases decoded : d.codec.decode e.data with
    | error cause => simp only [advance, decoded] at folded; cases folded
    | ok record =>
      cases record with
      | init members =>
        rw [advance_snapshot decoded] at folded
        cases folded
        rfl
      | updates batch =>
        rw [advance_batch decoded, Option.map_eq_some_iff] at folded
        obtain ⟨earlier, folded, rfl⟩ := folded
        exact (SetUpdate.name_foldUpdates batch earlier _).trans (ih folded)

end Deployment

end LogReplica
