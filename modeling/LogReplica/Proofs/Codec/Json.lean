import LogReplica.Codec.Json
import LogReplica.Proofs.Codec.Steady

namespace LogReplica.Json

variable {α : Type}

def Ends (cs : List Char) : Prop := ∀ c ∈ cs.head?, c.isDigit = false ∧ c ≠ '.' ∧ c ≠ 'e' ∧ c ≠ 'E'

theorem ends_nil : Ends [] := by
  intro c member
  cases member

theorem ends_cons {c : Char} (other : c.isDigit = false ∧ c ≠ '.' ∧ c ≠ 'e' ∧ c ≠ 'E') (cs : List Char) :
    Ends (c :: cs) := by
  intro d member
  cases member
  exact other

def Visible (c : Char) : Prop := isBlank c = false ∧ c ≠ ']'

theorem visible_of_isDigit {c : Char} (digit : c.isDigit = true) : Visible c ∧ c ≠ '-' := by
  have other : ∀ d : Char, d.isDigit = false → c ≠ d := by
    rintro d no rfl
    rw [digit] at no
    cases no
  have blank : isBlank c = false := by
    simp [isBlank, other ' ' rfl, other '\n' rfl, other '\t' rfl, other '\r' rfl]
  exact ⟨⟨blank, other ']' rfl⟩, other '-' rfl⟩

/-- A format whose values are read back in front of whatever ends a number. -/
structure Format.Legible (f : Format α) : Prop where
  reads : ∀ a rest, Ends rest → f.read (f.write a ++ rest) = some (a, rest)
  steady : SteadyInside f.read
  hungry : f.read [] = none
  begins : ∀ a, ∃ c tail, f.write a = c :: tail ∧ Visible c

/-- A format whose values are read back in front of anything. -/
structure Format.Enclosed (f : Format α) : Prop where
  reads : ∀ a rest, f.read (f.write a ++ rest) = some (a, rest)
  steady : Steady f.read
  hungry : f.read [] = none
  begins : ∀ a, ∃ c tail, f.write a = c :: tail ∧ Visible c

theorem Format.Enclosed.legible {f : Format α} (enclosed : f.Enclosed) : f.Legible where
  reads a rest _ := enclosed.reads a rest
  steady := enclosed.steady.inside
  hungry := enclosed.hungry
  begins := enclosed.begins

theorem skipBlanks_cons {c : Char} (visible : isBlank c = false) (rest : List Char) :
    skipBlanks (c :: rest) = c :: rest := by
  simp [skipBlanks, visible]

theorem skipBlanks_append {cs rest : List Char} {c : Char} (first : skipBlanks cs = c :: rest) (more : List Char) :
    skipBlanks (cs ++ more) = c :: (rest ++ more) := by
  unfold skipBlanks at first ⊢
  rw [List.dropWhile_append, first]
  rfl

theorem expect_cons {c : Char} (visible : isBlank c = false) (rest : List Char) : expect c (c :: rest) = some rest := by
  simp [expect, skipBlanks_cons visible]

theorem expect_append {c : Char} {cs rest : List Char} (found : expect c cs = some rest) (more : List Char) :
    expect c (cs ++ more) = some (rest ++ more) := by
  unfold expect at found ⊢
  cases first : skipBlanks cs with
  | nil =>
    rw [first] at found
    cases found
  | cons d tail =>
    rw [first] at found
    rw [skipBlanks_append first]
    dsimp only at found ⊢
    split at found
    · rename_i same
      cases found
      rw [if_pos same]
    · cases found

theorem readDigits_steady : SteadyInside readDigits := by
  intro cs n rest found some more
  have left : cs.dropWhile Char.isDigit = rest := by
    unfold readDigits at found
    dsimp only at found
    split at found
    · cases found
    · split at found
      · cases found
      · cases found
        rfl
  have part : (cs.takeWhile Char.isDigit).length ≠ cs.length := by
    have whole := congrArg List.length (List.takeWhile_append_dropWhile (p := Char.isDigit) (l := cs))
    have positive := List.length_pos_iff.mpr some
    rw [List.length_append, left] at whole
    omega
  have nonempty : rest.isEmpty = false := by
    rw [List.isEmpty_eq_false_iff]
    exact some
  have head : (rest ++ more).head? = rest.head? := by
    obtain ⟨c, tail, rfl⟩ := List.exists_cons_of_ne_nil some
    rfl
  dsimp only [readDigits] at found ⊢
  rw [List.takeWhile_append, if_neg part, List.dropWhile_append, left, nonempty, if_neg Bool.false_ne_true, head]
  rw [left] at found
  split at found
  · cases found
  · split at found
    · cases found
    · rename_i written plain
      cases found
      rw [written]
      exact if_neg plain

theorem head?_toDigits {n : Nat} (positive : 0 < n) : (Nat.toDigits 10 n).head? ≠ some '0' := by
  induction n using Nat.strongRecOn with
  | _ n ih =>
    rw [Nat.toDigits_eq_if (by omega)]
    by_cases short : n < 10
    · rw [if_pos short]
      have digits : ∀ d < 10, 0 < d → [d.digitChar].head? ≠ some '0' := by decide
      exact digits n short positive
    · have high := ih (n / 10) (by omega) (by omega)
      obtain ⟨c, tail, written⟩ := List.exists_cons_of_ne_nil (Nat.toDigits_ne_nil (n := n / 10) (b := 10))
      rw [if_neg short, written]
      rw [written] at high
      exact high

theorem digitsValue_toDigits (n : Nat) : digitsValue (Nat.toDigits 10 n) = n := by
  have value := Nat.ofDigitChars_ten_toDigits (n := n)
  rw [Nat.ofDigitChars_eq_foldl] at value
  simp only [digitsValue, Nat.mul_comm _ 10]
  exact value

theorem readDigits_writeNatural (n : Nat) {rest : List Char} (ends : Ends rest) :
    readDigits (writeNatural n ++ rest) = some (n, rest) := by
  have digits : ∀ c ∈ Nat.toDigits 10 n, c.isDigit = true := fun c =>
    Nat.isDigit_of_mem_toDigits (by omega) (by omega)
  have stops : rest.takeWhile Char.isDigit = [] ∧ rest.dropWhile Char.isDigit = rest := by
    cases rest with
    | nil => exact ⟨rfl, rfl⟩
    | cons c tail =>
      have other := (ends c rfl).1
      simp [other]
  have whole : (rest.head?.any fun c => c = '.' || c = 'e' || c = 'E') = false := by
    cases rest with
    | nil => rfl
    | cons c tail =>
      obtain ⟨_, point, small, large⟩ := ends c rfl
      simp [point, small, large]
  have single : ∀ first more, Nat.toDigits 10 n = first :: more → (first = '0' && !more.isEmpty) = false := by
    intro first more written
    rcases Nat.eq_zero_or_pos n with rfl | positive
    · cases written
      rfl
    · have head := head?_toDigits positive
      rw [written, List.head?_cons] at head
      have other : first ≠ '0' := fun same => head (congrArg some same)
      simp [other]
  dsimp only [readDigits, writeNatural]
  rw [List.takeWhile_append_of_pos digits, List.dropWhile_append_of_pos digits, stops.1, stops.2, List.append_nil,
    whole]
  cases written : Nat.toDigits 10 n with
  | nil => exact absurd written Nat.toDigits_ne_nil
  | cons first more =>
    dsimp only
    rw [single first more written, ← written, digitsValue_toDigits]
    rfl

theorem readInteger_steady : SteadyInside readInteger := by
  intro cs z rest found some more
  unfold readInteger at found ⊢
  cases first : skipBlanks cs with
  | nil =>
    rw [first] at found
    cases found
  | cons c tail =>
    rw [first] at found
    rw [skipBlanks_append first]
    split at found
    · rename_i same
      cases same
      split at found
      · rename_i digits
        cases found
        simp only [readDigits_steady _ _ _ digits some more]
      · cases found
    · rename_i other
      split
      · rename_i same
        cases same
        exact absurd rfl (other _)
      · exact readDigits_steady.map Int.ofNat _ _ _ found some more

theorem readInteger_writeInteger (z : Int) {rest : List Char} (ends : Ends rest) :
    readInteger (writeInteger z ++ rest) = some (z, rest) := by
  cases z with
  | negSucc n =>
    have sign : skipBlanks ('-' :: (writeNatural (n + 1) ++ rest)) = '-' :: (writeNatural (n + 1) ++ rest) :=
      skipBlanks_cons rfl _
    simp only [readInteger, writeInteger, List.cons_append, sign, readDigits_writeNatural (n + 1) ends]
  | ofNat n =>
    have read := readDigits_writeNatural n ends
    cases written : writeNatural n with
    | nil => exact absurd written Nat.toDigits_ne_nil
    | cons c tail =>
      have digit : c.isDigit = true := Nat.isDigit_of_mem_toDigits (by omega) (by omega) (written ▸ List.mem_cons_self)
      obtain ⟨visible, unsigned⟩ := visible_of_isDigit digit
      rw [written, List.cons_append] at read
      simp only [readInteger, writeInteger, written, List.cons_append, skipBlanks_cons visible.1]
      split
      · rename_i same
        cases same
        exact absurd rfl unsigned
      · rw [read]
        rfl

theorem readRange_steady (low high : Int) : SteadyInside (readRange low high) := by
  intro cs z rest found some more
  unfold readRange at found ⊢
  cases first : readInteger cs with
  | none =>
    rw [first] at found
    cases found
  | some read =>
    obtain ⟨z', left⟩ := read
    rw [first] at found
    dsimp only at found
    split at found
    · rename_i within
      cases found
      rw [readInteger_steady _ _ _ first some more]
      dsimp only
      rw [if_pos within]
    · cases found

theorem readRange_writeInteger {low high z : Int} (within : low ≤ z ∧ z < high) {rest : List Char} (ends : Ends rest) :
    readRange low high (writeInteger z ++ rest) = some (z, rest) := by
  simp only [readRange, readInteger_writeInteger z ends, if_pos within]

theorem writeInteger_begins (z : Int) : ∃ c tail, writeInteger z = c :: tail ∧ Visible c := by
  cases z with
  | negSucc n => exact ⟨'-', _, rfl, by unfold Visible; decide⟩
  | ofNat n =>
    cases written : writeNatural n with
    | nil => exact absurd written Nat.toDigits_ne_nil
    | cons c tail =>
      have digit : c.isDigit = true := Nat.isDigit_of_mem_toDigits (by omega) (by omega) (written ▸ List.mem_cons_self)
      exact ⟨c, tail, written, (visible_of_isDigit digit).1⟩

theorem signed64_legible : signed64.Legible where
  reads n rest ends := by
    have within : -(2 ^ 63) ≤ n.toInt ∧ n.toInt < 2 ^ 63 := ⟨n.le_toInt, n.toInt_lt⟩
    simp only [signed64, readRange_writeInteger within ends, Option.map_some, Int64.ofInt_toInt]
  steady := (readRange_steady _ _).map Int64.ofInt
  hungry := rfl
  begins n := writeInteger_begins n.toInt

theorem word64_legible : word64.Legible where
  reads n rest ends := by
    have fits := n.toNat_lt
    have within : (0 : Int) ≤ n.toNat ∧ (n.toNat : Int) < 2 ^ 64 := by omega
    have read := readRange_writeInteger within ends
    show (readRange 0 (2 ^ 64) (writeInteger n.toNat ++ rest)).map _ = _
    simp only [read, Option.map_some, Int.toNat_natCast, UInt64.ofNat_toNat]
  steady := (readRange_steady _ _).map fun z => UInt64.ofNat z.toNat
  hungry := rfl
  begins n := writeInteger_begins n.toNat

theorem hex4?_control : ∀ n < 32, hex4? '0' '0' (hexDigit (n / 16)) (hexDigit n) = some n := by decide

theorem readChars_writeChar (c : Char) (rest : List Char) :
    readChars (writeChar c ++ rest) = (readChars rest).map fun read => (c :: read.1, read.2) := by
  unfold writeChar
  split
  · rfl
  · rfl
  · rfl
  · rfl
  · rfl
  · rfl
  · rfl
  · rename_i quote backslash _ _ _ _ _
    split
    · rename_i control
      have value := hex4?_control c.toNat control
      have plain : c.toNat < 0xD800 ∨ 0xE000 ≤ c.toNat := by omega
      simp only [List.cons_append, List.nil_append, readChars, value, if_pos plain, Char.ofNat_toNat]
    · rename_i visible
      have verbatim : ¬(c = '\\' ∨ c.toNat < 0x20) := by
        rintro (same | control)
        · exact backslash same
        · exact visible control
      rw [List.cons_append, List.nil_append, readChars, if_neg verbatim]
      all_goals simp_all

theorem readChars_steady : Steady readChars := by
  intro input
  fun_induction readChars input with
  | case1 rest =>
    intro cs left found more
    cases found
    rfl
  | case3 a b c d rest n value whole ih =>
    intro cs left found more
    obtain ⟨⟨others, left⟩, first, same⟩ := Option.map_eq_some_iff.mp found
    cases same
    simp only [List.cons_append, readChars, value, if_pos whole, ih _ _ first more, Option.map_some]
  | case5 a b c d n value half e f g h rest ch pair ih =>
    intro cs left found more
    obtain ⟨⟨others, left⟩, first, same⟩ := Option.map_eq_some_iff.mp found
    cases same
    simp only [List.cons_append, readChars, value, if_neg half, pair, ih _ _ first more, Option.map_some]
  | case8 c rest other ch known ih =>
    intro cs left found more
    obtain ⟨⟨others, left⟩, first, same⟩ := Option.map_eq_some_iff.mp found
    cases same
    have letter : c ≠ 'u' := by
      rintro rfl
      cases known
    rw [List.cons_append, List.cons_append, readChars, known]
    · simp only [ih _ _ first more, Option.map_some]
    · intro _ _ _ _ _ same
      exact absurd same letter
  | case10 c rest quote long escape plain ih =>
    intro cs left found more
    obtain ⟨⟨others, left⟩, first, same⟩ := Option.map_eq_some_iff.mp found
    cases same
    have verbatim : c ≠ '\\' := fun same => plain (.inl same)
    rw [List.cons_append, readChars, if_neg plain]
    · simp only [ih _ _ first more, Option.map_some]
    · exact quote
    · intro _ _ _ _ _ same
      exact absurd same verbatim
    · intro _ _ same
      exact absurd same verbatim
  | _ =>
    intro cs left found
    cases found

theorem readChars_writeText (cs rest : List Char) :
    readChars (cs.flatMap writeChar ++ '"' :: rest) = some (cs, rest) := by
  induction cs with
  | nil => rfl
  | cons c cs ih => rw [List.flatMap_cons, List.append_assoc, readChars_writeChar, ih, Option.map_some]

theorem readText_steady : Steady readText := by
  intro input s rest found more
  simp only [readText, Option.bind_eq_bind, Option.bind_eq_some_iff, Prod.exists] at found
  obtain ⟨left, opened, cs, left', read, same⟩ := found
  cases same
  simp only [readText, Option.bind_eq_bind, expect_append opened more, Option.bind_some,
    readChars_steady _ _ _ read more]

theorem readText_writeText (s : String) (rest : List Char) : readText (writeText s ++ rest) = some (s, rest) := by
  have quote : expect '"' ('"' :: (s.toList.flatMap writeChar ++ '"' :: rest)) =
      some (s.toList.flatMap writeChar ++ '"' :: rest) := expect_cons rfl _
  simp only [readText, writeText, List.cons_append, List.append_assoc, List.nil_append, quote, Option.bind_eq_bind,
    Option.bind_some, readChars_writeText, String.ofList_toList]

theorem writeText_begins (s : String) : ∃ c tail, writeText s = c :: tail ∧ Visible c :=
  ⟨'"', _, rfl, by unfold Visible; decide⟩

theorem text_enclosed : text.Enclosed where
  reads := readText_writeText
  steady := readText_steady
  hungry := rfl
  begins := writeText_begins

def writeBehind (write : α → List Char) : List α → List Char
  | [] => [']']
  | a :: as => ',' :: (write a ++ writeBehind write as)

theorem writeItems_cons (write : α → List Char) (a : α) (as : List α) :
    writeItems write (a :: as) = write a ++ writeBehind write as := by
  induction as generalizing a with
  | nil => rfl
  | cons b as ih => rw [writeItems, ih, writeBehind]

theorem writeBehind_ends (write : α → List Char) (as : List α) (rest : List Char) :
    Ends (writeBehind write as ++ rest) := by
  cases as with
  | nil => exact ends_cons (by decide) _
  | cons a as => exact ends_cons (by decide) _

theorem length_lt_writeBehind (write : α → List Char) (as : List α) : as.length < (writeBehind write as).length := by
  induction as with
  | nil => exact Nat.zero_lt_one
  | cons a as ih =>
    simp only [writeBehind, List.length_cons, List.length_append]
    omega

variable {f : Format α}

theorem readItems_writeBehind (legible : f.Legible) (as : List α) (rest : List Char) {fuel : Nat}
    (enough : as.length < fuel) : readItems f.read fuel (writeBehind f.write as ++ rest) = some (as, rest) := by
  induction as generalizing fuel with
  | nil =>
    obtain ⟨fuel, rfl⟩ := Nat.exists_eq_add_one.mpr (Nat.zero_lt_of_lt enough)
    have bracket : skipBlanks (']' :: rest) = ']' :: rest := skipBlanks_cons rfl _
    simp only [readItems, writeBehind, List.cons_append, List.nil_append, bracket]
  | cons a as ih =>
    obtain ⟨fuel, rfl⟩ := Nat.exists_eq_add_one.mpr (Nat.zero_lt_of_lt enough)
    have comma : skipBlanks (',' :: (f.write a ++ (writeBehind f.write as ++ rest))) =
        ',' :: (f.write a ++ (writeBehind f.write as ++ rest)) := skipBlanks_cons rfl _
    have first := legible.reads a _ (writeBehind_ends f.write as rest)
    simp only [readItems, writeBehind, List.cons_append, List.append_assoc, comma, first, Option.bind_eq_bind,
      Option.bind_some, ih (Nat.lt_of_succ_lt_succ enough)]

theorem list_reads (legible : f.Legible) (as : List α) (rest : List Char) :
    (list f).read ((list f).write as ++ rest) = some (as, rest) := by
  have opened : ∀ cs, expect '[' ('[' :: cs) = some cs := expect_cons rfl
  cases as with
  | nil =>
    have bracket : skipBlanks (']' :: rest) = ']' :: rest := skipBlanks_cons rfl _
    simp only [list, writeItems, List.cons_append, List.nil_append, opened, Option.bind_eq_bind, Option.bind_some,
      bracket]
  | cons a as =>
    have first := legible.reads a _ (writeBehind_ends f.write as rest)
    have enough : as.length < (writeBehind f.write as ++ rest).length := by
      have few := length_lt_writeBehind f.write as
      rw [List.length_append]
      omega
    obtain ⟨c, tail, written, visible, other⟩ := legible.begins a
    rw [written, List.cons_append] at first
    simp only [list, writeItems_cons, written, List.cons_append, List.append_assoc, opened, Option.bind_eq_bind,
      Option.bind_some, skipBlanks_cons visible]
    split
    · rename_i same
      cases same
      exact absurd rfl other
    · simp only [first, Option.bind_some, readItems_writeBehind legible as rest enough]

theorem readItems_nil (read : List Char → Option (α × List Char)) (fuel : Nat) : readItems read fuel [] = none := by
  cases fuel <;> rfl

theorem readItems_append {read : List Char → Option (α × List Char)} (steady : SteadyInside read) {fuel fuel' : Nat}
    (le : fuel ≤ fuel') {input rest : List Char} {as : List α} (found : readItems read fuel input = some (as, rest))
    (more : List Char) : readItems read fuel' (input ++ more) = some (as, rest ++ more) := by
  induction fuel generalizing fuel' input as with
  | zero => cases found
  | succ fuel ih =>
    obtain ⟨fuel', rfl⟩ := Nat.exists_eq_add_one.mpr (Nat.lt_of_lt_of_le fuel.succ_pos le)
    simp only [readItems, Option.bind_eq_bind] at found ⊢
    split at found
    · rename_i bracket
      cases found
      simp only [skipBlanks_append bracket]
    · rename_i comma
      obtain ⟨⟨a, left⟩, first, found⟩ := Option.bind_eq_some_iff.mp found
      obtain ⟨⟨others, left'⟩, second, same⟩ := Option.bind_eq_some_iff.mp found
      cases same
      have some : left ≠ [] := by
        rintro rfl
        rw [readItems_nil] at second
        cases second
      simp only [skipBlanks_append comma, steady _ _ _ first some more, Option.bind_some,
        ih (Nat.le_of_succ_le_succ le) second]
    · cases found

theorem list_steady (legible : f.Legible) : Steady (list f).read := by
  intro input as rest found more
  simp only [list, Option.bind_eq_bind, Option.bind_eq_some_iff] at found
  obtain ⟨body, opened, found⟩ := found
  simp only [list, Option.bind_eq_bind, expect_append opened more, Option.bind_some]
  split at found
  · rename_i bracket
    cases found
    simp only [skipBlanks_append bracket]
  · rename_i other
    obtain ⟨⟨a, left⟩, first, found⟩ := Option.bind_eq_some_iff.mp found
    obtain ⟨⟨others, left'⟩, second, same⟩ := Option.bind_eq_some_iff.mp found
    cases same
    have some : left ≠ [] := by
      rintro rfl
      rw [readItems_nil] at second
      cases second
    cases begins : skipBlanks body with
    | nil =>
      rw [begins, legible.hungry] at first
      cases first
    | cons c tail =>
      rw [begins] at first other
      have longer : left.length ≤ (left ++ more).length := by
        rw [List.length_append]
        omega
      rw [skipBlanks_append begins]
      split
      · rename_i same
        cases same
        exact absurd rfl (other _)
      · rw [← List.cons_append]
        simp only [legible.steady _ _ _ first some more, Option.bind_some,
          readItems_append legible.steady longer second]

theorem list_enclosed (legible : f.Legible) : (list f).Enclosed where
  reads := list_reads legible
  steady := list_steady legible
  hungry := rfl
  begins _ := ⟨'[', _, rfl, by unfold Visible; decide⟩

variable {payload : String → List Char → Option (α × List Char)} {bare : String → Option α}

theorem readNull_steady : Steady readNull := by
  intro input found rest read more
  unfold readNull at read ⊢
  split at read
  · rename_i word
    cases read
    simp only [skipBlanks_append word, List.cons_append]
  · cases read

theorem readCase_writeCase {name : String} {a : α} {written : List Char} (known : bare name = none)
    (reads : ∀ rest, Ends rest → payload name (written ++ rest) = some (a, rest)) (rest : List Char) :
    readCase payload bare (writeCase name written ++ rest) = some (a, rest) := by
  have opened : ∀ cs, skipBlanks ('\x7b' :: cs) = '\x7b' :: cs := fun cs => skipBlanks_cons rfl cs
  have colon : ∀ cs, expect ':' (':' :: cs) = some cs := expect_cons rfl
  have closed : ∀ cs, expect '\x7d' ('\x7d' :: cs) = some cs := expect_cons rfl
  have read := reads ('\x7d' :: rest) (ends_cons (by decide) rest)
  simp only [readCase, writeCase, List.cons_append, List.append_assoc, List.nil_append, opened, readText_writeText,
    Option.bind_eq_bind, Option.bind_some, colon, known, read, closed]

theorem readCase_writeBareCase {name : String} {a : α} (known : bare name = some a) (rest : List Char) :
    readCase payload bare (writeBareCase name ++ rest) = some (a, rest) := by
  have read := readText_writeText name rest
  have opened : skipBlanks (writeText name ++ rest) = writeText name ++ rest := skipBlanks_cons rfl _
  simp only [readCase, writeBareCase, opened]
  split
  · rename_i same
    cases same
  · simp only [read, Option.bind_eq_bind, Option.bind_some, known]

theorem readCase_steady (steady : ∀ name, SteadyInside (payload name)) : Steady (readCase payload bare) := by
  intro input a rest found more
  simp only [readCase, Option.bind_eq_bind] at found ⊢
  split at found
  · rename_i opened
    rw [skipBlanks_append opened]
    obtain ⟨⟨name, left⟩, named, found⟩ := Option.bind_eq_some_iff.mp found
    obtain ⟨left', colon, found⟩ := Option.bind_eq_some_iff.mp found
    simp only [readText_steady _ _ _ named more, Option.bind_some, expect_append colon more]
    cases known : bare name with
    | none =>
      simp only [known] at found
      obtain ⟨⟨b, left''⟩, read, found⟩ := Option.bind_eq_some_iff.mp found
      obtain ⟨behind, closed, same⟩ := Option.bind_eq_some_iff.mp found
      cases same
      have some : left'' ≠ [] := by
        rintro rfl
        cases closed
      simp only [steady name _ _ _ read some more, Option.bind_some, expect_append closed more]
    | some b =>
      simp only [known] at found
      obtain ⟨⟨c, left''⟩, read, found⟩ := Option.bind_eq_some_iff.mp found
      obtain ⟨behind, closed, same⟩ := Option.bind_eq_some_iff.mp found
      cases same
      have null := readNull_steady.map (fun _ => b) _ _ _ read more
      simp only [null, Option.bind_some, expect_append closed more]
  · rename_i other
    obtain ⟨⟨name, left⟩, named, found⟩ := Option.bind_eq_some_iff.mp found
    obtain ⟨b, known, same⟩ := Option.bind_eq_some_iff.mp found
    cases same
    cases begins : skipBlanks input with
    | nil =>
      rw [begins] at named
      cases named
    | cons c tail =>
      rw [begins] at named other
      rw [skipBlanks_append begins]
      split
      · rename_i same
        cases same
        exact absurd rfl (other _)
      · rw [← List.cons_append]
        simp only [readText_steady _ _ _ named more, Option.bind_some, known]

end LogReplica.Json
