import LogReplica.Codec.Basic

namespace LogReplica.Utf8

theorem encode_of_decode? {bytes : Bytes} {s : String} (decoded : decode? bytes = some s) : encode s = bytes := by
  unfold decode? String.fromUTF8? at decoded
  split at decoded
  · cases decoded
    rfl
  · cases decoded

theorem encode_eq (s : String) : encode s = s.toList.utf8Encode.data.toList := by
  rw [encode, String.utf8Encode_toList]
  rfl

theorem encode_ofList_append (cs more : List Char) :
    encode (String.ofList (cs ++ more)) = encode (String.ofList cs) ++ encode (String.ofList more) := by
  simp only [encode_eq, String.toList_ofList, List.utf8Encode_append, ByteArray.data_append, Array.toList_append]

theorem exists_of_encode_append {cs : List Char} {s : String} {extra : Bytes}
    (split : encode (String.ofList cs) ++ extra = encode s) :
    ∃ more, s.toList = cs ++ more ∧ extra = encode (String.ofList more) := by
  have bytes : cs.utf8Encode ++ ⟨extra.toArray⟩ = s.toList.utf8Encode := by
    refine ByteArray.ext (Array.toList_inj.mp ?_)
    rw [encode_eq, encode_eq, String.toList_ofList] at split
    rw [ByteArray.data_append, Array.toList_append]
    exact split
  obtain ⟨more, whole⟩ := List.isPrefix_of_utf8Encode_append_eq_utf8Encode _ bytes
  refine ⟨more, whole.symm, ?_⟩
  have same : encode s = encode (String.ofList cs) ++ encode (String.ofList more) := by
    rw [← encode_ofList_append, whole, String.ofList_toList]
  exact List.append_cancel_left (split.trans same)

end LogReplica.Utf8
