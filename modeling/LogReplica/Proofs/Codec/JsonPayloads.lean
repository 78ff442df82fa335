import LogReplica.Model.Counter
import LogReplica.Proofs.Codec.Frame
import LogReplica.Proofs.Codec.Json
import LogReplica.Proofs.Codec.Utf8
import LogReplica.Proofs.Set.Membership

namespace LogReplica

variable {α : Type}

namespace Codec

/-- Neither less than an encoding is taken, nor more than blanks behind one. -/
structure Enclosed (blank : UInt8 → Bool) (c : Codec α) : Prop where
  cut : ∀ value front cut, c.encode value = .ok (front ++ cut) → cut ≠ [] → c.decode front = .error .decodingFailed
  padded : ∀ value bytes extra, c.encode value = .ok bytes → extra.all blank = true →
    c.decode (bytes ++ extra) = .ok value
  extended : ∀ value bytes extra, c.encode value = .ok bytes → extra.all blank = false →
    c.decode (bytes ++ extra) = .error .decodingFailed

end Codec

namespace Json

def isBlankByte (byte : UInt8) : Bool := byte = 0x20 || byte = 0x0A || byte = 0x09 || byte = 0x0D

theorem all_isBlankByte {cs : List Char} (blank : cs.all isBlank = true) :
    (Utf8.encode (String.ofList cs)).all isBlankByte = true := by
  induction cs with
  | nil => rfl
  | cons c cs ih =>
    simp only [List.all_cons, Bool.and_eq_true] at blank
    have single : (Utf8.encode (String.ofList [c])).all isBlankByte = true := by
      have known := blank.1
      simp only [isBlank, Bool.or_eq_true, decide_eq_true_eq] at known
      rcases known with ((rfl | rfl) | rfl) | rfl <;> decide
    rw [← List.singleton_append, Utf8.encode_ofList_append, List.all_append, single, ih blank.2]
    rfl

theorem exists_of_all_isBlankByte {extra : Bytes} (blank : extra.all isBlankByte = true) :
    ∃ cs : List Char, cs.all isBlank = true ∧ Utf8.encode (String.ofList cs) = extra := by
  induction extra with
  | nil => exact ⟨[], rfl, rfl⟩
  | cons byte extra ih =>
    simp only [List.all_cons, Bool.and_eq_true] at blank
    obtain ⟨cs, blanks, same⟩ := ih blank.2
    have single : ∃ c, isBlank c = true ∧ Utf8.encode (String.ofList [c]) = [byte] := by
      have known := blank.1
      simp only [isBlankByte, Bool.or_eq_true, decide_eq_true_eq] at known
      rcases known with ((rfl | rfl) | rfl) | rfl
      · exact ⟨' ', by decide⟩
      · exact ⟨'\n', by decide⟩
      · exact ⟨'\t', by decide⟩
      · exact ⟨'\r', by decide⟩
    obtain ⟨c, one, first⟩ := single
    refine ⟨c :: cs, ?_, ?_⟩
    · rw [List.all_cons, one, blanks]
      rfl
    · rw [← List.singleton_append, Utf8.encode_ofList_append, first, same]
      rfl

variable {f : Format α}

theorem decode_eq_error {bytes : Bytes} (refused : ∀ s, Utf8.encode s = bytes → ∀ a rest,
    f.read s.toList = some (a, rest) → rest.all isBlank = false) : (codec f).decode bytes = .error .decodingFailed := by
  cases decoded : Utf8.decode? bytes with
  | none =>
    simp only [codec, decoded, Option.bind_none]
    rfl
  | some s =>
    cases read : f.read s.toList with
    | none =>
      simp only [codec, decoded, Option.bind_some, read]
      rfl
    | some found =>
      obtain ⟨a, rest⟩ := found
      have more := refused s (Utf8.encode_of_decode? decoded) a rest read
      simp only [codec, decoded, Option.bind_some, read, more, Bool.false_eq_true, if_false]
      rfl

theorem decode_eq_ok {a : α} {rest : List Char} (read : f.read (f.write a ++ rest) = some (a, rest))
    (blank : rest.all isBlank = true) :
    (codec f).decode (Utf8.encode (String.ofList (f.write a ++ rest))) = .ok a := by
  simp only [codec, Utf8.decode?_encode, Option.bind_some, String.toList_ofList, read, blank, if_true]
  rfl

theorem Format.Legible.roundTrips (legible : f.Legible) : (codec f).RoundTrips := by
  intro a bytes encoded
  cases encoded
  have read := decode_eq_ok (legible.reads a [] ends_nil) rfl
  rw [List.append_nil] at read
  exact read

theorem Format.Enclosed.codec (enclosed : f.Enclosed) : (codec f).Enclosed isBlankByte where
  cut := by
    intro a front cut encoded some
    have whole : Utf8.encode (String.ofList (f.write a)) = front ++ cut := Except.ok.inj encoded
    refine decode_eq_error fun s same b rest early => ?_
    have split : Utf8.encode (String.ofList s.toList) ++ cut = Utf8.encode (String.ofList (f.write a)) := by
      rw [String.ofList_toList, same, whole]
    obtain ⟨more, written, behind⟩ := Utf8.exists_of_encode_append split
    have full := enclosed.reads a []
    rw [List.append_nil, ← String.toList_ofList (l := f.write a), written] at full
    have moreSome : more ≠ [] := by
      rintro rfl
      exact some behind
    rw [enclosed.steady.eq_none_of_cut full moreSome] at early
    cases early
  padded := by
    intro a bytes extra encoded blank
    cases encoded
    obtain ⟨more, blanks, rfl⟩ := exists_of_all_isBlankByte blank
    rw [← Utf8.encode_ofList_append]
    exact decode_eq_ok (enclosed.reads a more) blanks
  extended := by
    intro a bytes extra encoded other
    cases encoded
    refine decode_eq_error fun s same b rest read => ?_
    obtain ⟨more, written, rfl⟩ := Utf8.exists_of_encode_append same.symm
    rw [written, enclosed.reads a more] at read
    cases read
    refine Bool.eq_false_iff.mpr fun blanks => ?_
    rw [all_isBlankByte blanks] at other
    cases other

end Json

theorem CounterOp.json_enclosed : json.Enclosed where
  reads op rest := by
    cases op with
    | add n =>
      dsimp only [json]
      refine Json.readCase_writeCase ?_ (fun rest ends => ?_) rest
      · rfl
      · simp only [Json.signed64_legible.reads n rest ends, Option.map_some]
    | mul n =>
      dsimp only [json]
      refine Json.readCase_writeCase ?_ (fun rest ends => ?_) rest
      · rfl
      · simp only [Json.signed64_legible.reads n rest ends, Option.map_some]
    | set n =>
      dsimp only [json]
      refine Json.readCase_writeCase ?_ (fun rest ends => ?_) rest
      · rfl
      · simp only [Json.signed64_legible.reads n rest ends, Option.map_some]
  steady := by
    dsimp only [json]
    refine Json.readCase_steady fun name => ?_
    intro cs op rest found some more
    dsimp only at found ⊢
    split at found
    · exact Json.signed64_legible.steady.map add _ _ _ found some more
    · exact Json.signed64_legible.steady.map mul _ _ _ found some more
    · exact Json.signed64_legible.steady.map set _ _ _ found some more
    · cases found
  hungry := rfl
  begins op := by
    have visible : Json.Visible '\x7b' := by
      unfold Json.Visible
      decide
    cases op <;> exact ⟨_, _, rfl, visible⟩

theorem SetUpdate.json_enclosed {item : Json.Format α} (items : item.Legible) : (json item).Enclosed where
  reads update rest := by
    cases update with
    | add value =>
      dsimp only [json]
      refine Json.readCase_writeCase ?_ (fun rest ends => ?_) rest
      · exact if_neg (by decide)
      · simp only [items.reads value rest ends, Option.map_some]
    | remove value =>
      dsimp only [json]
      refine Json.readCase_writeCase ?_ (fun rest ends => ?_) rest
      · exact if_neg (by decide)
      · simp only [items.reads value rest ends, Option.map_some]
    | clear =>
      dsimp only [json]
      refine Json.readCase_writeBareCase ?_ rest
      exact if_pos rfl
  steady := by
    dsimp only [json]
    refine Json.readCase_steady fun name => ?_
    intro cs update rest found some more
    dsimp only at found ⊢
    split at found
    · exact items.steady.map add _ _ _ found some more
    · exact items.steady.map remove _ _ _ found some more
    · cases found
  hungry := rfl
  begins update := by
    have brace : Json.Visible '\x7b' := by
      unfold Json.Visible
      decide
    cases update with
    | clear => exact Json.writeText_begins "Clear"
    | _ => exact ⟨_, _, rfl, brace⟩

theorem MemberSet.snapshotJson_enclosed [Ord α] [Std.TransOrd α] [Std.LawfulEqOrd α] {item : Json.Format α}
    (items : item.Legible) : (snapshotJson item).Enclosed where
  reads members rest := by
    have read := Json.list_reads items members.toList rest
    show ((Json.list item).read ((Json.list item).write members.toList ++ rest)).map _ = _
    simp only [read, Option.map_some, SortedSet.ofList_toList]
  steady := (Json.list_steady items).map SortedSet.ofList
  hungry := rfl
  begins members := (Json.list_enclosed items).begins members.toList

namespace Json

/-- The payloads: operations and values of counters, texts and 64-bit numbers, and lists, updates and snapshots of
sets over any of them. All but a number by itself end in a mark of their own. -/
inductive Payload : {α : Type} → (enclosed : Bool) → Format α → Prop
  | counterOp : Payload true CounterOp.json
  | signed64 : Payload false signed64
  | word64 : Payload false word64
  | text : Payload true text
  | list {α : Type} {enclosed : Bool} {item : Format α} : Payload enclosed item → Payload true (list item)
  | setUpdate {α : Type} {enclosed : Bool} {item : Format α} :
    Payload enclosed item → Payload true (SetUpdate.json item)
  | members {α : Type} [Ord α] [Std.TransOrd α] [Std.LawfulEqOrd α] {enclosed : Bool} {item : Format α} :
    Payload enclosed item → Payload true (MemberSet.snapshotJson item)

namespace Payload

theorem legible {α : Type} {enclosed : Bool} {f : Format α} (payload : Payload enclosed f) : f.Legible := by
  induction payload with
  | counterOp => exact CounterOp.json_enclosed.legible
  | signed64 => exact signed64_legible
  | word64 => exact word64_legible
  | text => exact text_enclosed.legible
  | list _ items => exact (list_enclosed items).legible
  | setUpdate _ items => exact (SetUpdate.json_enclosed items).legible
  | members _ items => exact (MemberSet.snapshotJson_enclosed items).legible

theorem enclosed {α : Type} {f : Format α} (payload : Payload true f) : f.Enclosed := by
  cases payload with
  | counterOp => exact CounterOp.json_enclosed
  | text => exact text_enclosed
  | list items => exact list_enclosed items.legible
  | setUpdate items => exact SetUpdate.json_enclosed items.legible
  | members items => exact MemberSet.snapshotJson_enclosed items.legible

end Payload

/-- Payloads read back, those with a mark at their end from nothing else but blanks behind them, and so do the records
of counters and sets. -/
theorem payloads_enclosed :
    (∀ {α : Type} {enclosed : Bool} {f : Format α}, Payload enclosed f →
      (∀ value, ∃ bytes, (codec f).encode value = .ok bytes) ∧ (codec f).RoundTrips) ∧
    (∀ {α : Type} {f : Format α}, Payload true f → (codec f).Enclosed isBlankByte) ∧
    Counter.json.RoundTrips ∧
    ∀ {α : Type} [Ord α] [Std.TransOrd α] [Std.LawfulEqOrd α] {enclosed : Bool} {item : Format α},
      Payload enclosed item → (MemberSet.json item).RoundTrips := by
  refine ⟨fun payload => ⟨fun value => ⟨_, rfl⟩, payload.legible.roundTrips⟩, fun payload => payload.enclosed.codec,
    ?counters, fun items => ?sets⟩
  case counters =>
    exact Frame.codec_roundTrips CounterOp.json_enclosed.legible.roundTrips signed64_legible.roundTrips
  case sets =>
    exact Frame.codec_roundTrips items.setUpdate.legible.roundTrips items.members.legible.roundTrips

theorem payloads_enclosed_escapes :
    let update : SetUpdate String := .add "\"\\\x01é"
    let bytes : Bytes := [0x7B, 0x22, 0x41, 0x64, 0x64, 0x22, 0x3A, 0x22, 0x5C, 0x22, 0x5C, 0x5C, 0x5C, 0x75,
      0x30, 0x30, 0x30, 0x31, 0xC3, 0xA9, 0x22, 0x7D]
    let record : (Model.memberSet String).Record := .updates [update]
    Payload true text ∧ Payload false signed64 ∧
    (codec (SetUpdate.json text)).encode update = .ok bytes ∧ (codec (SetUpdate.json text)).decode bytes = .ok update ∧
    (codec (SetUpdate.json text)).decode bytes.dropLast = .error .decodingFailed ∧
    (codec (SetUpdate.json text)).decode (bytes ++ [0x20, 0x0A]) = .ok update ∧
    (codec (SetUpdate.json text)).decode (bytes ++ [0x20, 0x00]) = .error .decodingFailed ∧
    (codec signed64).decode (Utf8.encode "-9223372036854775808") = .ok (-9223372036854775808) ∧
    (MemberSet.json text).decode ([1, 0, 0, 0, 1, 0, 0, 0, 22] ++ bytes) = .ok record := by
  intro update bytes record
  have encoded : (codec (SetUpdate.json text)).encode update = .ok bytes := by decide +kernel
  have updates : Payload true (SetUpdate.json text) := .setUpdate .text
  have enclosed := payloads_enclosed.2.1 updates
  refine ⟨.text, .signed64, encoded, (payloads_enclosed.1 updates).2 update bytes encoded, ?cut, ?padded, ?extended,
    ?number, ?record⟩
  case cut => exact enclosed.cut update bytes.dropLast [0x7D] encoded (by decide)
  case padded => exact enclosed.padded update bytes [0x20, 0x0A] encoded (by decide)
  case extended => exact enclosed.extended update bytes [0x20, 0x00] encoded (by decide)
  case number =>
    refine (payloads_enclosed.1 Payload.signed64).2 _ _ ?_
    decide +kernel
  case record =>
    refine payloads_enclosed.2.2.2 Payload.text record _ ?_
    decide +kernel

end Json

end LogReplica
