import LogReplica.Proofs.Codec.Cbor
import LogReplica.Proofs.Set.Membership

namespace LogReplica

namespace Frame

variable {U I : Type} {updates : Codec U} {snapshots : Codec I} {bound : Nat}

theorem writeUpdates_within (wide : limit ≤ bound) (batch : List U) (bytes : Bytes) :
    writeUpdates (updates.within bound).encode batch = .ok bytes ↔ writeUpdates updates.encode batch = .ok bytes := by
  induction batch generalizing bytes with
  | nil => rfl
  | cons u rest ih =>
    simp only [writeUpdates, bind_eq_ok, ih, Codec.within_encode_eq_ok]
    refine exists_congr fun payload => ⟨fun wrote => ⟨wrote.1.1, wrote.2⟩, ?_⟩
    rintro ⟨encoded, length, counted, rest⟩
    have short : payload.length < limit := by
      by_contra long
      rw [writeLength, if_neg long] at counted
      cases counted
    exact ⟨⟨encoded, Nat.lt_of_lt_of_le short wide⟩, length, counted, rest⟩

theorem write_within (updates : Codec U) (snapshots : Codec I) (wide : limit ≤ bound) {record : Record U I}
    {bytes : Bytes} (short : bytes.length ≤ bound) :
    (codec (updates.within bound) (snapshots.within bound)).encode record = .ok bytes ↔
      (codec updates snapshots).encode record = .ok bytes := by
  cases record with
  | updates batch => simp only [codec, write_updates_eq_ok, writeUpdates_within wide]
  | init snapshot =>
    simp only [codec, write_init_eq_ok, Codec.within_encode_eq_ok]
    refine exists_congr fun payload => ⟨fun wrote => ⟨wrote.1.1, wrote.2⟩, ?_⟩
    rintro ⟨encoded, rfl⟩
    exact ⟨⟨encoded, short⟩, rfl⟩

end Frame

namespace SetUpdate

variable {α : Type} {item : Cbor.Format α}

theorem cbor_reads {update : SetUpdate α}
    (items : ∀ value, (item.write value).length < Cbor.wordLimit → item.Reads value)
    (fits : ((cbor item).write update).length < Cbor.wordLimit) : (cbor item).Reads update := by
  intro rest
  cases update with
  | add value =>
    have short : (item.write value).length < Cbor.wordLimit := by
      simp only [cbor, Cbor.writeCase, List.length_append] at fits
      omega
    have head : (Cbor.writeText "Add").length < Cbor.wordLimit := by decide
    have named := Cbor.readCase_writeCase head (item.write value) rest
    simp only [cbor, named, Option.bind_eq_bind, Option.bind_some, items value short rest, Option.map_some]
  | remove value =>
    have short : (item.write value).length < Cbor.wordLimit := by
      simp only [cbor, Cbor.writeCase, List.length_append] at fits
      omega
    have head : (Cbor.writeText "Remove").length < Cbor.wordLimit := by decide
    have named := Cbor.readCase_writeCase head (item.write value) rest
    simp only [cbor, named, Option.bind_eq_bind, Option.bind_some, items value short rest, Option.map_some]
  | clear =>
    have head : (Cbor.writeText "Clear").length < Cbor.wordLimit := by decide
    have named := Cbor.readCase_writeBareCase head rest
    simp only [cbor, named, Option.bind_eq_bind, Option.bind_some]

end SetUpdate

namespace MemberSet

variable {α : Type} [Ord α] [Std.TransOrd α] [Std.LawfulEqOrd α] {item : Cbor.Format α}

theorem snapshotCbor_reads {members : SortedSet α} (taking : ∀ value, 0 < (item.write value).length)
    (items : ∀ value, (item.write value).length < Cbor.wordLimit → item.Reads value)
    (fits : ((snapshotCbor item).write members).length < Cbor.wordLimit) : (snapshotCbor item).Reads members := by
  intro rest
  have few := Cbor.length_le_list taking members.toList
  have reads : (Cbor.list item).Reads members.toList := by
    refine Cbor.list_reads (Nat.lt_of_le_of_lt few fits) fun a member => items a ?_
    have part := Cbor.length_le_flatMap (f := item.write) member
    simp only [snapshotCbor, Cbor.list, List.length_append] at fits
    omega
  show ((Cbor.list item).read ((Cbor.list item).write members.toList ++ rest)).map _ = _
  simp only [reads rest, Option.map_some, SortedSet.ofList_toList]

end MemberSet

namespace Cbor

theorem length_writeText_pos (s : String) : 0 < (text.write s).length := by
  have head := Head.length_writeArgument_pos 3 (Utf8.encode s).length
  simp only [text, writeText, List.length_append]
  omega

def textUpdates : Codec (SetUpdate String) := (codec (SetUpdate.cbor text)).within wordLimit

def textMembers : Codec (SortedSet String) := (codec (MemberSet.snapshotCbor text)).within wordLimit

theorem textUpdates_roundTrips : textUpdates.RoundTrips := by
  refine Codec.within_roundTrips fun update bytes encoded fits => ?_
  cases encoded
  exact decode_of_reads (SetUpdate.cbor_reads (fun _ => text_reads) fits)

theorem textMembers_roundTrips : textMembers.RoundTrips := by
  refine Codec.within_roundTrips fun members bytes encoded fits => ?_
  cases encoded
  exact decode_of_reads (MemberSet.snapshotCbor_reads length_writeText_pos (fun _ => text_reads) fits)

end Cbor

end LogReplica
