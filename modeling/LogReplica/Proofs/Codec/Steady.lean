import LogReplica.Codec.Cbor

namespace LogReplica

variable {σ α β : Type}

/-- What is read from an input is read from each longer one, and all that was added is left. -/
def Steady (read : List σ → Option (α × List σ)) : Prop :=
  ∀ input a rest, read input = some (a, rest) → ∀ more, read (input ++ more) = some (a, rest ++ more)

def SteadyInside (read : List σ → Option (α × List σ)) : Prop :=
  ∀ input a rest, read input = some (a, rest) → rest ≠ [] → ∀ more, read (input ++ more) = some (a, rest ++ more)

namespace Steady

variable {read : List σ → Option (α × List σ)}

theorem eq_none_of_cut (steady : Steady read) {front cut : List σ} {a : α} (full : read (front ++ cut) = some (a, []))
    (some : cut ≠ []) : read front = none := by
  cases early : read front with
  | none => rfl
  | some found =>
    obtain ⟨b, rest⟩ := found
    have longer := steady front b rest early cut
    rw [full, Option.some.injEq, Prod.mk.injEq] at longer
    exact absurd (List.append_eq_nil_iff.mp longer.2.symm).2 some

theorem map (steady : Steady read) (f : α → β) :
    Steady fun input => (read input).map fun found => (f found.1, found.2) := by
  intro input b left found more
  obtain ⟨⟨a, middle⟩, first, same⟩ := Option.map_eq_some_iff.mp found
  cases same
  simp only [steady input a middle first more, Option.map_some]

theorem inside (steady : Steady read) : SteadyInside read := fun input a rest found _ => steady input a rest found

end Steady

theorem SteadyInside.map {read : List σ → Option (α × List σ)} (steady : SteadyInside read) (f : α → β) :
    SteadyInside fun input => (read input).map fun found => (f found.1, found.2) := by
  intro input b left found some more
  obtain ⟨⟨a, middle⟩, first, same⟩ := Option.map_eq_some_iff.mp found
  cases same
  simp only [steady input a middle first some more, Option.map_some]

namespace Cbor

theorem take?_steady (n : Nat) : Steady (take? n) := by
  intro input part rest taken more
  simp only [take?, Option.ite_none_right_eq_some, Option.some.injEq, Prod.mk.injEq] at taken ⊢
  obtain ⟨full, rfl, rfl⟩ := taken
  have within : n ≤ input.length := by
    rw [List.length_take] at full
    omega
  rw [List.take_append_of_le_length within, List.drop_append_of_le_length within]
  exact ⟨full, rfl, rfl⟩

namespace Head

theorem readArgument_steady (minor : Nat) : Steady (readArgument minor) := by
  intro input argument rest found more
  unfold readArgument at found ⊢
  by_cases short : minor < 24
  · rw [if_pos short] at found ⊢
    cases found
    rfl
  rw [if_neg short] at found ⊢
  by_cases open_ : minor = 31
  · rw [if_pos open_] at found ⊢
    cases found
    rfl
  rw [if_neg open_] at found ⊢
  cases width : argumentWidth? minor with
  | none =>
    rw [width] at found
    cases found
  | some n =>
    rw [width] at found
    exact (take?_steady n).map (fun part => some (BigEndian.ofBytes part)) input argument rest found more

theorem read_steady : Steady read := by
  intro input head rest found more
  cases input with
  | nil => cases found
  | cons first tail =>
    simp only [read, List.cons_append] at found ⊢
    cases taken : readArgument (first.toNat % 32) tail with
    | none =>
      rw [taken] at found
      cases found
    | some argued =>
      obtain ⟨argument, left⟩ := argued
      rw [taken] at found
      rw [readArgument_steady _ tail argument left taken more]
      dsimp only at found ⊢
      split at found <;> cases found <;> simp_all

theorem readArgument_none {minor : Nat} {input left : Bytes} (found : readArgument minor input = some (none, left)) :
    minor = 31 := by
  unfold readArgument at found
  by_cases short : minor < 24
  · rw [if_pos short] at found
    cases found
  rw [if_neg short] at found
  by_cases open_ : minor = 31
  · exact open_
  rw [if_neg open_] at found
  cases width : argumentWidth? minor with
  | none =>
    rw [width] at found
    cases found
  | some n =>
    rw [width] at found
    obtain ⟨taken, _, same⟩ := Option.map_eq_some_iff.mp found
    cases same

theorem read_stop_of_append {input more left : Bytes} (nonempty : input ≠ [])
    (stops : read (input ++ more) = some (.stop, left)) : read input = some (.stop, input.tail) := by
  cases input with
  | nil => exact absurd rfl nonempty
  | cons first tail =>
    simp only [read, List.cons_append] at stops
    cases taken : readArgument (first.toNat % 32) (tail ++ more) with
    | none =>
      rw [taken] at stops
      cases stops
    | some argued =>
      obtain ⟨argument, rest⟩ := argued
      rw [taken] at stops
      dsimp only at stops
      split at stops <;> cases stops
      rename_i major
      have minor := readArgument_none taken
      simp only [read, readArgument, minor, major, List.tail_cons]
      rfl

end Head

theorem untagged_append {fuel fuel' : Nat} (le : fuel ≤ fuel') {input rest : Bytes} {head : Head}
    (found : untagged fuel input = some (head, rest)) (more : Bytes) :
    untagged fuel' (input ++ more) = some (head, rest ++ more) := by
  induction fuel generalizing fuel' input with
  | zero => cases found
  | succ fuel ih =>
    obtain ⟨fuel', rfl⟩ := Nat.exists_eq_add_one.mpr (Nat.lt_of_lt_of_le fuel.succ_pos le)
    simp only [untagged] at found ⊢
    cases first : Head.read input with
    | none =>
      rw [first] at found
      cases found
    | some read =>
      obtain ⟨head', left⟩ := read
      rw [first] at found
      rw [Head.read_steady input head' left first more]
      cases head' with
      | tag n => exact ih (Nat.le_of_succ_le_succ le) found
      | _ =>
        cases found
        rfl

theorem readHead_steady : Steady readHead := by
  intro input head rest found more
  simp only [readHead] at found ⊢
  cases first : Head.read input with
  | none =>
    rw [first] at found
    cases found
  | some read =>
    obtain ⟨head', left⟩ := read
    rw [first] at found
    rw [Head.read_steady input head' left first more]
    have longer : left.length ≤ (left ++ more).length := by
      rw [List.length_append]
      omega
    cases head' with
    | tag n => exact untagged_append longer found more
    | _ =>
      cases found
      rfl

theorem numberHead_append {fuel fuel' : Nat} (le : fuel ≤ fuel') {input rest : Bytes} {head : Head}
    (found : numberHead fuel input = some (head, rest)) (more : Bytes) :
    numberHead fuel' (input ++ more) = some (head, rest ++ more) := by
  induction fuel generalizing fuel' input with
  | zero => cases found
  | succ fuel ih =>
    obtain ⟨fuel', rfl⟩ := Nat.exists_eq_add_one.mpr (Nat.lt_of_lt_of_le fuel.succ_pos le)
    simp only [numberHead] at found ⊢
    cases first : Head.read input with
    | none =>
      rw [first] at found
      cases found
    | some read =>
      obtain ⟨head', left⟩ := read
      rw [first] at found
      rw [Head.read_steady input head' left first more]
      split at found
      · cases found
        rename_i same
        cases same
        rfl
      · cases found
        rename_i same
        cases same
        rfl
      · rename_i other other' same
        cases same
        simp only
        exact ih (Nat.le_of_succ_le_succ le) found
      · rename_i other
        cases found
        cases head <;> first | rfl | exact absurd rfl (other _ _)

theorem pieces_append {length? : Head → Option (Option Nat)} {fuel fuel' open_ : Nat} (le : fuel ≤ fuel')
    {input rest : Bytes} {parts : List Bytes} (found : pieces length? fuel open_ input = some (parts, rest))
    (more : Bytes) : pieces length? fuel' open_ (input ++ more) = some (parts, rest ++ more) := by
  induction fuel generalizing fuel' open_ input parts with
  | zero => cases found
  | succ fuel ih =>
    obtain ⟨fuel', rfl⟩ := Nat.exists_eq_add_one.mpr (Nat.lt_of_lt_of_le fuel.succ_pos le)
    have le := Nat.le_of_succ_le_succ le
    simp only [pieces, Option.bind_eq_bind] at found ⊢
    obtain ⟨⟨head, left⟩, first, found⟩ := Option.bind_eq_some_iff.mp found
    rw [Head.read_steady input head left first more, Option.bind_some]
    dsimp only at found ⊢
    split at found
    · by_cases last : open_ ≤ 1
      · rw [if_pos last] at found ⊢
        cases found
        rfl
      · rw [if_neg last] at found ⊢
        exact ih le found
    · exact ih le found
    · obtain ⟨⟨part, left'⟩, second, found⟩ := Option.bind_eq_some_iff.mp found
      obtain ⟨⟨others, left''⟩, third, same⟩ := Option.bind_eq_some_iff.mp found
      cases same
      simp only [take?_steady _ _ _ _ second more, Option.bind_some, ih le third]
    · cases found

theorem contents_steady (length? : Head → Option (Option Nat)) (length : Option Nat) :
    Steady (contents length? length) := by
  intro input parts rest found more
  cases length with
  | some n => exact (take?_steady n).map (fun piece => [piece]) input parts rest found more
  | none =>
    refine pieces_append ?_ found more
    rw [List.length_append]
    omega

theorem readMagnitude_steady : Steady readMagnitude := by
  intro input n rest found more
  simp only [readMagnitude, Option.bind_eq_bind, Option.bind_eq_some_iff, Prod.exists] at found
  obtain ⟨head, left, first, length, kind, parts, left', second, found⟩ := found
  simp only [readMagnitude, Option.bind_eq_bind, Head.read_steady _ _ _ first more, Option.bind_some, kind,
    contents_steady _ _ _ _ _ second more]
  split at found
  · rename_i short
    cases found
    rw [if_pos short]
  · cases found

def integerOf : Head → Bytes → Option ((Bool × Nat) × Bytes)
  | .positive n, rest => some ((false, n), rest)
  | .negative n, rest => some ((true, n), rest)
  | .tag 2, rest => (readMagnitude rest).map fun (n, rest) => ((false, n), rest)
  | .tag 3, rest => (readMagnitude rest).map fun (n, rest) => ((true, n), rest)
  | _, _ => none

theorem integerOf_steady (head : Head) : Steady (integerOf head) := by
  intro input signed rest found more
  unfold integerOf at found ⊢
  split at found
  · cases found
    rfl
  · cases found
    rfl
  · exact readMagnitude_steady.map (fun n => (false, n)) input signed rest found more
  · exact readMagnitude_steady.map (fun n => (true, n)) input signed rest found more
  · cases found

theorem readInteger_eq (input : Bytes) : readInteger input =
    (numberHead input.length input).bind fun found => integerOf found.1 found.2 := by
  cases input with
  | nil => rfl
  | cons first tail =>
    cases read : Head.read (first :: tail) with
    | none => simp only [readInteger, read, List.length_cons, numberHead, Option.bind_eq_bind, Option.bind_none]
    | some found =>
      obtain ⟨head, rest⟩ := found
      cases head with
      | tag n =>
        simp only [readInteger, read, Option.bind_eq_bind]
        refine Option.bind_congr fun found _ => ?_
        obtain ⟨head, rest⟩ := found
        cases head with
        | tag n => rcases n with _ | _ | _ | _ | n <;> rfl
        | _ => rfl
      | _ =>
        simp only [readInteger, read, List.length_cons, numberHead, Option.bind_eq_bind, Option.bind_some]
        rfl

theorem readInteger_steady : Steady readInteger := by
  intro input signed rest found more
  rw [readInteger_eq] at found ⊢
  obtain ⟨⟨head, left⟩, first, second⟩ := Option.bind_eq_some_iff.mp found
  have longer : input.length ≤ (input ++ more).length := by
    rw [List.length_append]
    omega
  rw [numberHead_append longer first more, Option.bind_some]
  exact integerOf_steady head left signed rest second more

theorem readNatural_steady (limit : Nat) : Steady (readNatural limit) := by
  intro input n rest found more
  simp only [readNatural] at found ⊢
  cases first : readInteger input with
  | none =>
    rw [first] at found
    cases found
  | some signed =>
    obtain ⟨⟨negative, m⟩, left⟩ := signed
    rw [first] at found
    rw [readInteger_steady _ _ _ first more]
    cases negative with
    | true => cases found
    | false =>
      dsimp only at found ⊢
      split at found
      · rename_i fits
        cases found
        rw [if_pos fits]
      · cases found

theorem readText_steady : Steady readText := by
  intro input s rest found more
  simp only [readText, Option.bind_eq_bind, Option.bind_eq_some_iff, Prod.exists] at found
  obtain ⟨head, left, first, length, kind, parts, left', second, texts, decoded, same⟩ := found
  cases same
  simp only [readText, Option.bind_eq_bind, readHead_steady _ _ _ first more, Option.bind_some, kind,
    contents_steady _ _ _ _ _ second more, decoded]

theorem readCount_steady {read : Bytes → Option (α × Bytes)} (steady : Steady read) (n : Nat) :
    Steady (readCount read n) := by
  induction n with
  | zero =>
    intro input as rest found more
    cases found
    rfl
  | succ n ih =>
    intro input as rest found more
    simp only [readCount, Option.bind_eq_bind, Option.bind_eq_some_iff, Prod.exists] at found
    obtain ⟨a, left, first, others, left', second, same⟩ := found
    cases same
    simp only [readCount, Option.bind_eq_bind, steady _ _ _ first more, Option.bind_some, ih _ _ _ second more]

theorem readUntilStop_append {read : Bytes → Option (α × Bytes)} (steady : Steady read) (hungry : read [] = none)
    {fuel fuel' : Nat} (le : fuel ≤ fuel') {input rest : Bytes} {as : List α}
    (found : readUntilStop read fuel input = some (as, rest)) (more : Bytes) :
    readUntilStop read fuel' (input ++ more) = some (as, rest ++ more) := by
  induction fuel generalizing fuel' input as with
  | zero => cases found
  | succ fuel ih =>
    obtain ⟨fuel', rfl⟩ := Nat.exists_eq_add_one.mpr (Nat.lt_of_lt_of_le fuel.succ_pos le)
    have le := Nat.le_of_succ_le_succ le
    simp only [readUntilStop, Option.bind_eq_bind] at found ⊢
    split at found
    · rename_i stops
      cases found
      rw [Head.read_steady _ _ _ stops more]
    · rename_i going
      obtain ⟨⟨a, left⟩, first, found⟩ := Option.bind_eq_some_iff.mp found
      obtain ⟨⟨others, left'⟩, second, same⟩ := Option.bind_eq_some_iff.mp found
      cases same
      have nonempty : input ≠ [] := by
        rintro rfl
        rw [hungry] at first
        cases first
      have goes : ∀ left, Head.read (input ++ more) ≠ some (.stop, left) := fun left stops =>
        going _ (Head.read_stop_of_append nonempty stops)
      split
      · rename_i stops
        exact absurd stops (goes _)
      · simp only [steady _ _ _ first more, Option.bind_some, ih le second]

theorem list_steady {f : Format α} (steady : Steady f.read) (hungry : f.read [] = none) : Steady (list f).read := by
  intro input as rest found more
  simp only [list, Option.bind_eq_bind, Option.bind_eq_some_iff, Prod.exists] at found
  obtain ⟨head, left, first, found⟩ := found
  simp only [list, Option.bind_eq_bind, readHead_steady _ _ _ first more, Option.bind_some]
  cases head with
  | array length =>
    cases length with
    | some n => exact readCount_steady steady n _ _ _ found more
    | none =>
      refine readUntilStop_append steady hungry ?_ found more
      rw [List.length_append]
      omega
  | bytes length =>
    obtain ⟨⟨parts, left'⟩, second, found⟩ := Option.bind_eq_some_iff.mp found
    obtain ⟨values, known, same⟩ := Option.bind_eq_some_iff.mp found
    cases same
    simp only [contents_steady _ _ _ _ _ second more, Option.bind_some, known]
  | _ => cases found

theorem readName_steady : Steady readName := by
  intro input name rest found more
  simp only [readName, Option.bind_eq_bind, Option.bind_eq_some_iff, Prod.exists] at found
  obtain ⟨head, left, first, found⟩ := found
  simp only [readName, Option.bind_eq_bind, readHead_steady _ _ _ first more, Option.bind_some]
  split at found
  · obtain ⟨⟨part, left'⟩, second, found⟩ := Option.bind_eq_some_iff.mp found
    obtain ⟨text, decoded, same⟩ := Option.bind_eq_some_iff.mp found
    cases same
    simp only [take?_steady _ _ _ _ second more, Option.bind_some, decoded]
  · obtain ⟨⟨part, left'⟩, second, found⟩ := Option.bind_eq_some_iff.mp found
    obtain ⟨text, decoded, same⟩ := Option.bind_eq_some_iff.mp found
    cases same
    simp only [take?_steady _ _ _ _ second more, Option.bind_some, decoded]
  · cases found

theorem readCase_steady : Steady readCase := by
  intro input name rest found more
  simp only [readCase, Option.bind_eq_bind, Option.bind_eq_some_iff, Prod.exists] at found
  obtain ⟨head, left, first, found⟩ := found
  simp only [readCase, Option.bind_eq_bind, readHead_steady _ _ _ first more, Option.bind_some]
  split at found
  · exact readName_steady _ _ _ found more
  · obtain ⟨⟨part, left'⟩, second, found⟩ := Option.bind_eq_some_iff.mp found
    obtain ⟨text, decoded, same⟩ := Option.bind_eq_some_iff.mp found
    cases same
    simp only [take?_steady _ _ _ _ second more, Option.bind_some, decoded]
  · cases found

end Cbor

end LogReplica
