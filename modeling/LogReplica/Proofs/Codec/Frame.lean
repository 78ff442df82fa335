import LogReplica.Codec.Frame

namespace LogReplica.Frame

variable {α β : Type}

/-- The input ended early, and no more is asked for than is missing. -/
def FallsShort (missing : Nat) (answer : Except CodecError α) : Prop :=
  ∃ needed, answer = .error (.unexpectedEnd needed) ∧ 1 ≤ needed ∧ needed ≤ missing

theorem FallsShort.mono {missing more : Nat} {answer : Except CodecError α}
    (short : FallsShort missing answer) (le : missing ≤ more) : FallsShort more answer := by
  obtain ⟨needed, equal, positive, bounded⟩ := short
  exact ⟨needed, equal, positive, by omega⟩

theorem FallsShort.bind {missing : Nat} {answer : Except CodecError α}
    (short : FallsShort missing answer) (next : α → Except CodecError β) :
    FallsShort missing (answer >>= next) := by
  obtain ⟨needed, equal, bounds⟩ := short
  rw [equal]
  exact ⟨needed, rfl, bounds⟩

/-- A reader that finds the end of `whole`: it leaves what follows, and it misses what was cut off. -/
structure Delimits (read : Bytes → Except CodecError (α × Bytes)) (whole : Bytes) (value : α) : Prop where
  full : ∀ rest, read (whole ++ rest) = .ok (value, rest)
  short : ∀ front cut, front ++ cut = whole → cut ≠ [] → FallsShort cut.length (read front)

namespace Delimits

theorem nothing (value : α) : Delimits (fun bytes => .ok (value, bytes)) [] value where
  full _ := rfl
  short front cut split cutSome := by
    have empty := List.append_eq_nil_iff.mp split
    exact absurd empty.2 cutSome

theorem congr {read read' : Bytes → Except CodecError (α × Bytes)} {whole : Bytes} {value : α}
    (delimits : Delimits read whole value) (equal : ∀ bytes, read' bytes = read bytes) :
    Delimits read' whole value := by
  have same : read' = read := funext equal
  rwa [same]

theorem seq {first : Bytes → Except CodecError (α × Bytes)} {left right : Bytes} {a : α} {b : β}
    (second : α → Bytes → Except CodecError (β × Bytes)) (head : Delimits first left a)
    (tail : Delimits (second a) right b) :
    Delimits (fun bytes => first bytes >>= fun read => second read.1 read.2) (left ++ right) b where
  full rest := by
    simp only [List.append_assoc, head.full, Bind.bind, Except.bind, tail.full]
  short front cut split cutSome := by
    rcases List.append_eq_append_iff.mp split with ⟨missing, leftEq, cutEq⟩ | ⟨more, frontEq, rightEq⟩
    · by_cases whole : missing = []
      · subst whole
        rw [List.append_nil] at leftEq
        rw [List.nil_append] at cutEq
        have inside := tail.short [] cut cutEq cutSome
        have passed := head.full []
        rw [List.append_nil, leftEq] at passed
        simpa only [passed, Bind.bind, Except.bind] using inside
      · have inside := head.short front missing leftEq.symm whole
        apply (inside.mono _).bind
        rw [cutEq, List.length_append]
        omega
    · have inside := tail.short more cut rightEq.symm cutSome
      simpa only [frontEq, head.full, Bind.bind, Except.bind] using inside

end Delimits

theorem take_delimits (part : Bytes) : Delimits (take part.length) part part where
  full rest := by simp only [take, List.take_left, List.drop_left, if_true]
  short front cut split cutSome := by
    have positive := List.length_pos_iff.mpr cutSome
    have lengths := congrArg List.length split
    rw [List.length_append] at lengths
    have all : front.take part.length = front := List.take_of_length_le (by omega)
    have missing : front.length ≠ part.length := by omega
    simp only [take, all, if_neg missing]
    exact ⟨part.length - front.length, rfl, by omega, by omega⟩

theorem bind_eq_ok {answer : Except CodecError α} {next : α → Except CodecError β} {value : β} :
    answer >>= next = .ok value ↔ ∃ read, answer = .ok read ∧ next read = .ok value := by
  cases answer <;> simp [Bind.bind, Except.bind]

theorem writeLength_eq_ok {n : Nat} {length : Bytes} :
    writeLength n = .ok length ↔ n < limit ∧ length = BigEndian.toBytes 4 n := by
  unfold writeLength
  split
  · rename_i fits
    simp [fits, eq_comm]
  · rename_i exceeds
    simp [exceeds]

theorem readLength_delimits {n : Nat} {length : Bytes} (written : writeLength n = .ok length) :
    Delimits readLength length n := by
  obtain ⟨fits, rfl⟩ := writeLength_eq_ok.mp written
  have digits := take_delimits (BigEndian.toBytes 4 n)
  rw [BigEndian.length_toBytes] at digits
  have read := digits.seq (fun digits rest => .ok (BigEndian.ofBytes digits, rest)) (Delimits.nothing _)
  rw [BigEndian.ofBytes_toBytes fits, List.append_nil] at read
  exact read

variable {U I : Type} {updates : Codec U} {snapshots : Codec I}

theorem writeUpdates_cons_eq_ok {write : U → Except CodecError Bytes} {u : U} {batch : List U} {bytes : Bytes} :
    writeUpdates write (u :: batch) = .ok bytes ↔
      ∃ payload, write u = .ok payload ∧ ∃ length, writeLength payload.length = .ok length ∧
        ∃ others, writeUpdates write batch = .ok others ∧ bytes = length ++ (payload ++ others) := by
  simp only [writeUpdates, bind_eq_ok, Except.ok.injEq, List.append_assoc, @eq_comm _ bytes]

theorem write_init_eq_ok {snapshot : I} {bytes : Bytes} :
    write updates snapshots (.init snapshot) = .ok bytes ↔
      ∃ payload, snapshots.encode snapshot = .ok payload ∧ bytes = snapshotTag :: payload := by
  simp only [write, bind_eq_ok, Except.ok.injEq, @eq_comm _ bytes]

theorem write_updates_eq_ok {batch : List U} {bytes : Bytes} :
    write updates snapshots (.updates batch) = .ok bytes ↔
      ∃ count, writeLength batch.length = .ok count ∧
        ∃ payloads, writeUpdates updates.encode batch = .ok payloads ∧ bytes = batchTag :: (count ++ payloads) := by
  simp only [write, bind_eq_ok, Except.ok.injEq, @eq_comm _ bytes]

theorem readUpdates_delimits (trips : updates.RoundTrips) {batch : List U} {bytes : Bytes}
    (written : writeUpdates updates.encode batch = .ok bytes) :
    Delimits (readUpdates updates.decode batch.length) bytes batch := by
  induction batch generalizing bytes with
  | nil =>
    cases written
    exact Delimits.nothing []
  | cons u batch ih =>
    obtain ⟨payload, encoded, length, measured, others, more, rfl⟩ := writeUpdates_cons_eq_ok.mp written
    have others := (ih more).seq (fun more rest => .ok (u :: more, rest)) (Delimits.nothing _)
    rw [List.append_nil] at others
    have decoded : Delimits (fun bytes => updates.decode payload >>= fun u =>
        readUpdates updates.decode batch.length bytes >>= fun read => .ok (u :: read.1, read.2)) _ _ :=
      others.congr fun bytes => by rw [trips u payload encoded]; rfl
    have body := (take_delimits payload).seq (fun payload bytes => updates.decode payload >>= fun u =>
      readUpdates updates.decode batch.length bytes >>= fun read => .ok (u :: read.1, read.2)) decoded
    exact (readLength_delimits measured).seq (fun length bytes => take length bytes >>= fun read =>
      updates.decode read.1 >>= fun u => readUpdates updates.decode batch.length read.2 >>= fun read =>
        .ok (u :: read.1, read.2)) body

def readBatch (updates : Codec U) (bytes : Bytes) : Except CodecError (List U × Bytes) :=
  readLength bytes >>= fun count => readUpdates updates.decode count.1 count.2

theorem readBatch_delimits (trips : updates.RoundTrips) {batch : List U} {count payloads : Bytes}
    (counted : writeLength batch.length = .ok count)
    (written : writeUpdates updates.encode batch = .ok payloads) :
    Delimits (readBatch updates) (count ++ payloads) batch :=
  (readLength_delimits counted).seq (fun count => readUpdates updates.decode count)
    (readUpdates_delimits trips written)

theorem read_snapshotTag (payload : Bytes) :
    read updates snapshots (snapshotTag :: payload) =
      (snapshots.decode payload >>= fun snapshot => .ok (.init snapshot)) := rfl

theorem read_batchTag (bytes : Bytes) :
    read updates snapshots (batchTag :: bytes) = (readBatch updates bytes >>= fun batch =>
      if batch.2.isEmpty then .ok (.updates batch.1) else .error (.trailingBytes batch.2.length)) := by
  have other : batchTag ≠ snapshotTag := by decide
  simp only [read, if_neg other, if_true, readBatch, bind_assoc]

theorem codec_roundTrips (updatesTrip : updates.RoundTrips) (snapshotsTrip : snapshots.RoundTrips) :
    (codec updates snapshots).RoundTrips := by
  intro record bytes (written : write updates snapshots record = .ok bytes)
  cases record with
  | init snapshot =>
    obtain ⟨payload, encoded, rfl⟩ := write_init_eq_ok.mp written
    have decoded := snapshotsTrip snapshot payload encoded
    simp only [codec, read_snapshotTag, decoded, Bind.bind, Except.bind]
  | updates batch =>
    obtain ⟨count, counted, payloads, encoded, rfl⟩ := write_updates_eq_ok.mp written
    have body := (readBatch_delimits updatesTrip counted encoded).full []
    rw [List.append_nil] at body
    simp only [codec, read_batchTag, body, Bind.bind, Except.bind, List.isEmpty_nil, if_true]

end LogReplica.Frame
