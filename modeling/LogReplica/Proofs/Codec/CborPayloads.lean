import LogReplica.Model.Counter
import LogReplica.Proofs.Codec.Frame
import LogReplica.Proofs.Codec.Steady
import LogReplica.Proofs.Set.Encoding

namespace LogReplica

variable {α : Type}

namespace Codec

/-- What takes less than so many bytes is read back, from neither less nor more. -/
structure SelfDelimiting (limit : Nat) (c : Codec α) : Prop where
  encodes : ∀ value, ∃ bytes, c.encode value = .ok bytes
  read_back : ∀ value bytes, c.encode value = .ok bytes → bytes.length < limit → c.decode bytes = .ok value
  cut : ∀ value front cut, c.encode value = .ok (front ++ cut) → (front ++ cut).length < limit → cut ≠ [] →
    c.decode front = .error .decodingFailed
  extended : ∀ value bytes extra, c.encode value = .ok bytes → bytes.length < limit → extra ≠ [] →
    c.decode (bytes ++ extra) = .error (.trailingBytes extra.length)
  injective : ∀ value other bytes, c.encode value = .ok bytes → c.encode other = .ok bytes → bytes.length < limit →
    value = other

end Codec

namespace Cbor

structure Format.Delimits (f : Format α) : Prop where
  reads : ∀ a, (f.write a).length < wordLimit → f.Reads a
  steady : Steady f.read
  hungry : f.read [] = none

namespace Format.Delimits

variable {f : Format α}

theorem taking (delimits : f.Delimits) (a : α) : 0 < (f.write a).length := by
  refine Nat.pos_of_ne_zero fun empty => ?_
  have nothing := List.length_eq_zero_iff.mp empty
  have fits : (f.write a).length < wordLimit := by
    rw [empty]
    decide
  have read := delimits.reads a fits []
  rw [nothing, List.append_nil, delimits.hungry] at read
  cases read

theorem selfDelimiting (delimits : f.Delimits) : (codec f).SelfDelimiting wordLimit := by
  have read_back : ∀ a bytes, (codec f).encode a = .ok bytes → bytes.length < wordLimit →
      (codec f).decode bytes = .ok a := by
    intro a bytes encoded fits
    cases encoded
    exact decode_of_reads (delimits.reads a fits)
  constructor
  case encodes => exact fun a => ⟨f.write a, rfl⟩
  case read_back => exact read_back
  case cut =>
    intro a front cut encoded fits some
    have written : f.write a = front ++ cut := Except.ok.inj encoded
    have full := delimits.reads a (written ▸ fits) []
    rw [List.append_nil, written] at full
    simp only [codec, delimits.steady.eq_none_of_cut full some]
    rfl
  case extended =>
    intro a bytes extra encoded fits some
    cases encoded
    have read := delimits.reads a fits extra
    cases extra with
    | nil => exact absurd rfl some
    | cons byte more =>
      simp only [codec, read]
      rfl
  case injective =>
    intro a b bytes encoded alike fits
    have same := (read_back a bytes encoded fits).symm.trans (read_back b bytes alike fits)
    cases same
    rfl

end Format.Delimits

theorem readInteger_positive {n : Nat} (fits : n < wordLimit) (rest : Bytes) :
    readInteger (Head.writeArgument 0 n ++ rest) = some ((false, n), rest) := by
  simp only [readInteger, Head.read_writeArgument (show 0 < 8 by omega) fits, Head.ofMajor, Option.bind_eq_bind,
    Option.bind_some]

theorem readInteger_negative {n : Nat} (fits : n < wordLimit) (rest : Bytes) :
    readInteger (Head.writeArgument 1 n ++ rest) = some ((true, n), rest) := by
  simp only [readInteger, Head.read_writeArgument (show 1 < 8 by omega) fits, Head.ofMajor, Option.bind_eq_bind,
    Option.bind_some]

theorem word64_reads (n : UInt64) : word64.Reads n := by
  intro rest
  have fits := n.toNat_lt
  show (readNatural (2 ^ 64) (Head.writeArgument 0 n.toNat ++ rest)).map _ = _
  simp only [readNatural, readInteger_positive fits, if_pos fits, Option.map_some, UInt64.ofNat_toNat]

theorem word64_delimits : word64.Delimits where
  reads n _ := word64_reads n
  steady := (readNatural_steady _).map UInt64.ofNat
  hungry := rfl

theorem signed64_reads (n : Int64) : signed64.Reads n := by
  intro rest
  have low := n.le_toInt
  have high := n.toInt_lt
  have same := Int64.ofInt_toInt n
  cases signed : n.toInt with
  | ofNat m =>
    rw [signed] at high same
    have fits : m < 2 ^ 63 := Int.ofNat_lt.mp high
    have wide : m < wordLimit := Nat.lt_trans fits (by decide)
    simp only [signed64, signed, readInteger_positive wide, if_pos fits, Bool.false_eq_true, if_false, same]
  | negSucc m =>
    rw [signed] at low same
    have fits : m < 2 ^ 63 := by omega
    have wide : m < wordLimit := Nat.lt_trans fits (by decide)
    simp only [signed64, signed, readInteger_negative wide, if_pos fits, if_true, same]

theorem signed64_steady : Steady signed64.read := by
  intro input n rest found more
  simp only [signed64] at found ⊢
  cases first : readInteger input with
  | none =>
    rw [first] at found
    cases found
  | some signed =>
    obtain ⟨⟨negative, m⟩, left⟩ := signed
    rw [first] at found
    rw [readInteger_steady _ _ _ first more]
    dsimp only at found ⊢
    split at found
    · rename_i fits
      cases found
      rw [if_pos fits]
    · cases found

theorem signed64_delimits : signed64.Delimits where
  reads n _ := signed64_reads n
  steady := signed64_steady
  hungry := rfl

theorem text_delimits : text.Delimits where
  reads _ := text_reads
  steady := readText_steady
  hungry := rfl

theorem list_delimits {f : Format α} (delimits : f.Delimits) : (list f).Delimits where
  reads as fits := by
    have few := length_le_list delimits.taking as
    refine list_reads (Nat.lt_of_le_of_lt few fits) fun a member => delimits.reads a ?_
    have part := length_le_flatMap (f := f.write) member
    simp only [list, List.length_append] at fits
    omega
  steady := list_steady delimits.steady delimits.hungry
  hungry := rfl

end Cbor

namespace CounterOp

theorem cbor_reads (op : CounterOp) : cbor.Reads op := by
  intro rest
  have add : (Cbor.writeText "Add").length < Cbor.wordLimit := by decide
  have mul : (Cbor.writeText "Mul").length < Cbor.wordLimit := by decide
  have set : (Cbor.writeText "Set").length < Cbor.wordLimit := by decide
  cases op with
  | add n =>
    simp only [cbor, Cbor.readCase_writeCase add, Option.bind_eq_bind, Option.bind_some, Cbor.signed64_reads n rest,
      Option.map_some]
  | mul n =>
    simp only [cbor, Cbor.readCase_writeCase mul, Option.bind_eq_bind, Option.bind_some, Cbor.signed64_reads n rest,
      Option.map_some]
  | set n =>
    simp only [cbor, Cbor.readCase_writeCase set, Option.bind_eq_bind, Option.bind_some, Cbor.signed64_reads n rest,
      Option.map_some]

theorem cbor_steady : Steady cbor.read := by
  intro input op rest found more
  simp only [cbor, Option.bind_eq_bind, Option.bind_eq_some_iff, Prod.exists] at found
  obtain ⟨name, left, first, found⟩ := found
  simp only [cbor, Option.bind_eq_bind, Cbor.readCase_steady _ _ _ first more, Option.bind_some]
  split at found
  · exact Cbor.signed64_steady.map add _ _ _ found more
  · exact Cbor.signed64_steady.map mul _ _ _ found more
  · exact Cbor.signed64_steady.map set _ _ _ found more
  · cases found

theorem cbor_delimits : cbor.Delimits where
  reads op _ := cbor_reads op
  steady := cbor_steady
  hungry := rfl

end CounterOp

namespace SetUpdate

variable {item : Cbor.Format α}

theorem cbor_steady (items : Steady item.read) : Steady (cbor item).read := by
  intro input update rest found more
  simp only [cbor, Option.bind_eq_bind, Option.bind_eq_some_iff, Prod.exists] at found
  obtain ⟨name, left, first, found⟩ := found
  simp only [cbor, Option.bind_eq_bind, Cbor.readCase_steady _ _ _ first more, Option.bind_some]
  split at found
  · exact items.map add _ _ _ found more
  · exact items.map remove _ _ _ found more
  · cases found
    rfl
  · cases found

theorem cbor_delimits (items : item.Delimits) : (cbor item).Delimits where
  reads _ := cbor_reads items.reads
  steady := cbor_steady items.steady
  hungry := rfl

end SetUpdate

variable [Ord α] [Std.TransOrd α] [Std.LawfulEqOrd α]

theorem MemberSet.snapshotCbor_delimits {item : Cbor.Format α} (items : item.Delimits) :
    (snapshotCbor item).Delimits where
  reads _ := snapshotCbor_reads items.taking items.reads
  steady := (Cbor.list_steady items.steady items.hungry).map SortedSet.ofList
  hungry := rfl

namespace Cbor

/-- The payloads: operations and values of counters, texts and 64-bit numbers, and lists, updates and snapshots of
sets over any of them. -/
inductive Payload : {α : Type} → Format α → Prop
  | counterOp : Payload CounterOp.cbor
  | signed64 : Payload signed64
  | word64 : Payload word64
  | text : Payload text
  | list {α : Type} {item : Format α} : Payload item → Payload (list item)
  | setUpdate {α : Type} {item : Format α} : Payload item → Payload (SetUpdate.cbor item)
  | members {α : Type} [Ord α] [Std.TransOrd α] [Std.LawfulEqOrd α] {item : Format α} :
    Payload item → Payload (MemberSet.snapshotCbor item)

theorem Payload.delimits {α : Type} {f : Format α} (payload : Payload f) : f.Delimits := by
  induction payload with
  | counterOp => exact CounterOp.cbor_delimits
  | signed64 => exact signed64_delimits
  | word64 => exact word64_delimits
  | text => exact text_delimits
  | list _ items => exact list_delimits items
  | setUpdate _ items => exact SetUpdate.cbor_delimits items
  | members _ items => exact MemberSet.snapshotCbor_delimits items

theorem Payload.records_roundTrip {U I : Type} {update : Format U} {snapshot : Format I} (updates : Payload update)
    (snapshots : Payload snapshot) : ((Frame.codec (codec update) (codec snapshot)).within wordLimit).RoundTrips := by
  have bounded : (Frame.codec ((codec update).within wordLimit) ((codec snapshot).within wordLimit)).RoundTrips :=
    Frame.codec_roundTrips (Codec.within_roundTrips updates.delimits.selfDelimiting.read_back)
      (Codec.within_roundTrips snapshots.delimits.selfDelimiting.read_back)
  refine Codec.within_roundTrips fun record bytes encoded short => bounded record bytes ?_
  exact (Frame.write_within (codec update) (codec snapshot) (by decide) short.le).mpr encoded

theorem counterRecords_roundTrip : Counter.cbor.RoundTrips := by
  refine Frame.codec_roundTrips (fun op bytes encoded => ?_) (fun n bytes encoded => ?_)
  · cases encoded
    exact decode_of_reads (CounterOp.cbor_reads op)
  · cases encoded
    exact decode_of_reads (signed64_reads n)

/-- Payloads delimit themselves, and what is written as a record of a counter or a set reads back. Encodings stay below
2^64 bytes, as the lengths in them do. -/
theorem payloads_selfDelimiting :
    (∀ {α : Type} {f : Format α}, Payload f → (codec f).SelfDelimiting wordLimit) ∧
    Counter.cbor.RoundTrips ∧
    ∀ {α : Type} [Ord α] [Std.TransOrd α] [Std.LawfulEqOrd α] {item : Format α}, Payload item →
      ((MemberSet.cbor item).within wordLimit).RoundTrips :=
  ⟨fun payload => payload.delimits.selfDelimiting, counterRecords_roundTrip,
    fun item => item.setUpdate.records_roundTrip item.members⟩

theorem payloads_selfDelimiting_add :
    let update : SetUpdate String := .add "é"
    let bytes : Bytes := [0xA1, 0x63, 0x41, 0x64, 0x64, 0x62, 0xC3, 0xA9]
    let record : (Model.memberSet String).Record := .updates [update]
    Payload text ∧ (codec (SetUpdate.cbor text)).encode update = .ok bytes ∧ bytes.length < wordLimit ∧
    (codec (SetUpdate.cbor text)).decode bytes = .ok update ∧
    (codec (SetUpdate.cbor text)).decode bytes.dropLast = .error .decodingFailed ∧
    (codec (SetUpdate.cbor text)).decode (bytes ++ [0, 0]) = .error (.trailingBytes 2) ∧
    ((MemberSet.cbor text).within wordLimit).decode ([1, 0, 0, 0, 1, 0, 0, 0, 8] ++ bytes) = .ok record := by
  intro update bytes record
  have encoded : (codec (SetUpdate.cbor text)).encode update = .ok bytes := by decide
  have short : bytes.length < wordLimit := by decide
  have delimiting := payloads_selfDelimiting.1 (Payload.setUpdate .text)
  refine ⟨.text, encoded, short, delimiting.read_back update bytes encoded short, ?_, ?_, ?_⟩
  · exact delimiting.cut update bytes.dropLast [0xA9] encoded short (by decide)
  · exact delimiting.extended update bytes [0, 0] encoded short (by decide)
  · refine payloads_selfDelimiting.2.2 Payload.text record ([1, 0, 0, 0, 1, 0, 0, 0, 8] ++ bytes) ?_
    decide +kernel

end Cbor

end LogReplica
