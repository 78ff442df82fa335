import LogReplica.Codec.Cbor

namespace LogReplica

namespace Codec

variable {α : Type}

def within (limit : Nat) (c : Codec α) : Codec α where
  encode value :=
    match c.encode value with
    | .ok bytes => if bytes.length < limit then .ok bytes else .error .encodingFailed
    | .error cause => .error cause
  decode := c.decode

theorem within_encode_eq_ok {limit : Nat} {c : Codec α} {value : α} {bytes : Bytes} :
    (c.within limit).encode value = .ok bytes ↔ c.encode value = .ok bytes ∧ bytes.length < limit := by
  cases encoded : c.encode value with
  | error cause => simp [within, encoded]
  | ok bytes' =>
    by_cases short : bytes'.length < limit
    · simp only [within, encoded, if_pos short, Except.ok.injEq]
      constructor
      · intro same
        exact ⟨same, same ▸ short⟩
      · exact And.left
    · simp only [within, encoded, if_neg short, Except.ok.injEq, reduceCtorEq, false_iff, not_and]
      intro same
      exact same ▸ short

theorem within_roundTrips {limit : Nat} {c : Codec α}
    (reads : ∀ value bytes, c.encode value = .ok bytes → bytes.length < limit → c.decode bytes = .ok value) :
    (c.within limit).RoundTrips := by
  intro value bytes encoded
  obtain ⟨encoded, short⟩ := within_encode_eq_ok.mp encoded
  exact reads value bytes encoded short

end Codec

namespace Cbor

def wordLimit : Nat := 2 ^ 64

theorem take?_append (part rest : Bytes) : take? part.length (part ++ rest) = some (part, rest) := by simp [take?]

namespace Head

def ofMajor : Nat → Nat → Head
  | 0, n => .positive n
  | 1, n => .negative n
  | 2, n => .bytes (some n)
  | 3, n => .text (some n)
  | 4, n => .array (some n)
  | 5, n => .map (some n)
  | 6, n => .tag n
  | _, _ => .simple

theorem readArgument_wide {minor width n : Nat} (rest : Bytes) (wide : argumentWidth? minor = some width)
    (high : 24 ≤ minor) (low : minor < 31) (fits : n < 256 ^ width) :
    readArgument minor (BigEndian.toBytes width n ++ rest) = some (some n, rest) := by
  have taken := take?_append (BigEndian.toBytes width n) rest
  rw [BigEndian.length_toBytes] at taken
  have other : ¬minor < 24 := by omega
  have whole : ¬minor = 31 := by omega
  simp only [readArgument, if_neg other, if_neg whole, wide, taken, Option.map_some, BigEndian.ofBytes_toBytes fits]

theorem writeArgument_eq {major n : Nat} (few : major < 8) (fits : n < wordLimit) :
    ∃ first tail, writeArgument major n = first :: tail ∧ first.toNat / 32 = major ∧
      ∀ rest, readArgument (first.toNat % 32) (tail ++ rest) = some (some n, rest) := by
  have byte : ∀ minor < 32, (UInt8.ofNat (major * 32 + minor)).toNat / 32 = major ∧
      (UInt8.ofNat (major * 32 + minor)).toNat % 32 = minor := by
    intro minor low
    rw [UInt8.toNat_ofNat']
    omega
  have wide : ∀ minor width, argumentWidth? minor = some width → 24 ≤ minor → minor < 31 → n < 256 ^ width →
      (UInt8.ofNat (major * 32 + minor)).toNat / 32 = major ∧
        ∀ rest, readArgument ((UInt8.ofNat (major * 32 + minor)).toNat % 32) (BigEndian.toBytes width n ++ rest) =
          some (some n, rest) := by
    intro minor width known high low fits
    obtain ⟨quotient, remainder⟩ := byte minor (by omega)
    rw [remainder]
    exact ⟨quotient, fun rest => readArgument_wide rest known high low fits⟩
  unfold wordLimit at fits
  unfold writeArgument
  split
  · rename_i short
    obtain ⟨quotient, remainder⟩ := byte n (by omega)
    refine ⟨_, [], rfl, quotient, fun rest => ?_⟩
    simp only [remainder, readArgument, if_pos short, List.nil_append]
  · split
    · exact ⟨_, _, rfl, wide 24 1 rfl (by omega) (by omega) (by omega)⟩
    · split
      · exact ⟨_, _, rfl, wide 25 2 rfl (by omega) (by omega) (by omega)⟩
      · split
        · exact ⟨_, _, rfl, wide 26 4 rfl (by omega) (by omega) (by omega)⟩
        · exact ⟨_, _, rfl, wide 27 8 rfl (by omega) (by omega) (by omega)⟩

theorem read_writeArgument {major n : Nat} (few : major < 8) (fits : n < wordLimit) (rest : Bytes) :
    read (writeArgument major n ++ rest) = some (ofMajor major n, rest) := by
  obtain ⟨first, tail, written, quotient, reads⟩ := writeArgument_eq few fits
  rw [written, List.cons_append, read, reads, quotient]
  match major, few with
  | 0, _ | 1, _ | 2, _ | 3, _ | 4, _ | 5, _ | 6, _ | 7, _ => rfl

theorem length_writeArgument_pos (major n : Nat) : 0 < (writeArgument major n).length := by
  unfold writeArgument
  repeat' split
  all_goals simp

end Head

theorem readHead_writeArgument {major n : Nat} (few : major < 6) (fits : n < wordLimit) (rest : Bytes) :
    readHead (Head.writeArgument major n ++ rest) = some (Head.ofMajor major n, rest) := by
  have kind : major < 8 := by omega
  have whole := Head.read_writeArgument kind fits rest
  unfold readHead
  rw [whole]
  match major, few with
  | 0, _ | 1, _ | 2, _ | 3, _ | 4, _ | 5, _ => rfl

/-- What the format has written for a value is read as that value, and what follows is left. -/
def Format.Reads {α : Type} (f : Format α) (a : α) : Prop := ∀ rest, f.read (f.write a ++ rest) = some (a, rest)

theorem readHead_writeText {s : String} (fits : (writeText s).length < wordLimit) (rest : Bytes) :
    readHead (writeText s ++ rest) = some (.text (some (Utf8.encode s).length), Utf8.encode s ++ rest) := by
  have short : (Utf8.encode s).length < wordLimit := by
    simp only [writeText, List.length_append] at fits
    omega
  rw [writeText, List.append_assoc]
  exact readHead_writeArgument (by omega) short _

theorem text_reads {s : String} (fits : (writeText s).length < wordLimit) : text.Reads s := by
  intro rest
  show readText (writeText s ++ rest) = some (s, rest)
  simp only [readText, readHead_writeText fits, Option.bind_eq_bind, Option.bind_some, textLength?, contents,
    take?_append, Option.map_some, List.mapM_cons, List.mapM_nil, Utf8.decode?_encode, Option.pure_def]
  simp [String.join]

theorem readCount_append {α : Type} {f : Format α} {as : List α} (reads : ∀ a ∈ as, f.Reads a) (rest : Bytes) :
    readCount f.read as.length (as.flatMap f.write ++ rest) = some (as, rest) := by
  induction as with
  | nil => rfl
  | cons a as ih =>
    have first := reads a List.mem_cons_self (as.flatMap f.write ++ rest)
    have others := ih fun b member => reads b (List.mem_cons_of_mem a member)
    simp only [List.length_cons, readCount, List.flatMap_cons, List.append_assoc, first, Option.bind_eq_bind,
      Option.bind_some, others]

theorem list_reads {α : Type} {f : Format α} {as : List α} (fits : as.length < wordLimit)
    (reads : ∀ a ∈ as, f.Reads a) : (list f).Reads as := by
  intro rest
  have head := readHead_writeArgument (show 4 < 6 by omega) fits (as.flatMap f.write ++ rest)
  show (list f).read (Head.writeArgument 4 as.length ++ as.flatMap f.write ++ rest) = some (as, rest)
  simp only [list, List.append_assoc, head, Option.bind_eq_bind, Option.bind_some, Head.ofMajor]
  exact readCount_append reads rest

theorem readName_writeText {name : String} (fits : (writeText name).length < wordLimit) (rest : Bytes) :
    readName (writeText name ++ rest) = some (name, rest) := by
  simp only [readName, readHead_writeText fits, Option.bind_eq_bind, Option.bind_some, take?_append,
    Utf8.decode?_encode]

theorem readCase_writeCase {name : String} (fits : (writeText name).length < wordLimit) (payload rest : Bytes) :
    readCase (writeCase name payload ++ rest) = some (name, payload ++ rest) := by
  have head := readHead_writeArgument (show 5 < 6 by omega) (show 1 < wordLimit by decide)
    (writeText name ++ (payload ++ rest))
  simp only [readCase, writeCase, List.append_assoc, head, Option.bind_eq_bind, Option.bind_some, Head.ofMajor]
  exact readName_writeText fits (payload ++ rest)

theorem readCase_writeBareCase {name : String} (fits : (writeText name).length < wordLimit) (rest : Bytes) :
    readCase (writeBareCase name ++ rest) = some (name, rest) := by
  simp only [readCase, writeBareCase, readHead_writeText fits, Option.bind_eq_bind, Option.bind_some, take?_append,
    Utf8.decode?_encode]

theorem length_le_list {α : Type} {f : Format α} (taking : ∀ a, 0 < (f.write a).length) (as : List α) :
    as.length ≤ ((list f).write as).length := by
  have each : as.length ≤ (as.flatMap f.write).length := by
    induction as with
    | nil => exact Nat.zero_le _
    | cons a as ih =>
      have one := taking a
      simp only [List.length_cons, List.flatMap_cons, List.length_append]
      omega
  simp only [list, List.length_append]
  omega

theorem length_le_flatMap {α : Type} {f : α → Bytes} {as : List α} {a : α} (member : a ∈ as) :
    (f a).length ≤ (as.flatMap f).length := by
  obtain ⟨before, after, rfl⟩ := List.append_of_mem member
  simp only [List.flatMap_append, List.flatMap_cons, List.length_append]
  omega

theorem decode_of_reads {α : Type} {f : Format α} {a : α} (reads : f.Reads a) :
    (codec f).decode (f.write a) = .ok a := by
  have whole := reads []
  rw [List.append_nil] at whole
  simp only [codec, whole]
  rfl

end Cbor

end LogReplica
