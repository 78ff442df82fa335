import LogReplica.Proofs.Codec.Frame

namespace LogReplica.Frame

variable {α β : Type}

def Fails (answer : Except CodecError α) : Prop := ∃ cause, answer = .error cause

theorem not_fails_ok (value : α) : ¬Fails (.ok value : Except CodecError α) := by
  simp [Fails]

theorem fails_writeLength_bind {n : Nat} {next : Bytes → Except CodecError β} {rest : Prop}
    (fails : ∀ length, Fails (next length) ↔ rest) : Fails (writeLength n >>= next) ↔ 2 ^ 32 ≤ n ∨ rest := by
  have same : limit = 2 ^ 32 := by decide
  by_cases fits : n < limit
  · have small : ¬2 ^ 32 ≤ n := by omega
    rw [or_iff_right small, ← fails (BigEndian.toBytes 4 n)]
    simp only [writeLength, if_pos fits, Bind.bind, Except.bind]
  · have large : 2 ^ 32 ≤ n := by omega
    rw [writeLength, if_neg fits]
    exact iff_of_true ⟨_, rfl⟩ (.inl large)

theorem fails_bind_ok {x : Except CodecError α} {f : α → β} :
    Fails (x >>= fun read => .ok (f read)) ↔ Fails x := by
  cases x <;> simp [Fails, Bind.bind, Except.bind]

variable {U I : Type}

/-- Its encoding fails, or its length does not fit. -/
def Unwritable (encode : U → Except CodecError Bytes) (u : U) : Prop :=
  Fails (encode u) ∨ ∃ payload, encode u = .ok payload ∧ 2 ^ 32 ≤ payload.length

theorem fails_writeUpdates {encode : U → Except CodecError Bytes} {batch : List U} :
    Fails (writeUpdates encode batch) ↔ ∃ u ∈ batch, Unwritable encode u := by
  induction batch with
  | nil => simp [writeUpdates, not_fails_ok]
  | cons u batch ih =>
    simp only [List.mem_cons, exists_eq_or_imp]
    rw [← ih, Unwritable, writeUpdates]
    cases encoded : encode u with
    | error cause => simp [Fails, Bind.bind, Except.bind]
    | ok payload =>
      have rest := fails_writeLength_bind (n := payload.length) fun length =>
        fails_bind_ok (x := writeUpdates encode batch) (f := (length ++ payload ++ ·))
      simpa [not_fails_ok, Bind.bind, Except.bind] using rest

/-- What no frame is written for. -/
def Unframed (updates : Codec U) (snapshots : Codec I) : Record U I → Prop
  | .init snapshot => Fails (snapshots.encode snapshot)
  | .updates batch => 2 ^ 32 ≤ batch.length ∨ ∃ u ∈ batch, Unwritable updates.encode u

theorem fails_write {updates : Codec U} {snapshots : Codec I} {record : Record U I} :
    Fails (write updates snapshots record) ↔ Unframed updates snapshots record := by
  cases record with
  | init snapshot => exact fails_bind_ok
  | updates batch =>
    rw [write, Unframed, ← fails_writeUpdates]
    exact fails_writeLength_bind fun count => fails_bind_ok

/-- A record is its frame, and a batch's frame shows where it ends. -/
structure Delimiting (updates : Codec U) (snapshots : Codec I) : Prop where
  fails_iff : ∀ record, Fails (write updates snapshots record) ↔ Unframed updates snapshots record
  read_write : ∀ record bytes, write updates snapshots record = .ok bytes → read updates snapshots bytes = .ok record
  cut : ∀ batch bytes front cut, write updates snapshots (.updates batch) = .ok bytes → front ++ cut = bytes →
    cut ≠ [] → FallsShort cut.length (read updates snapshots front)
  extended : ∀ batch bytes extra, write updates snapshots (.updates batch) = .ok bytes → extra ≠ [] →
    read updates snapshots (bytes ++ extra) = .error (.trailingBytes extra.length)
  injective : ∀ record other bytes, write updates snapshots record = .ok bytes →
    write updates snapshots other = .ok bytes → record = other

variable {updates : Codec U} {snapshots : Codec I}

theorem read_cut (trips : updates.RoundTrips) {batch : List U} {front cut : Bytes}
    (written : write updates snapshots (.updates batch) = .ok (front ++ cut)) (cutSome : cut ≠ []) :
    FallsShort cut.length (read updates snapshots front) := by
  obtain ⟨count, counted, payloads, encoded, split⟩ := write_updates_eq_ok.mp written
  cases front with
  | nil =>
    have positive := List.length_pos_iff.mpr cutSome
    exact ⟨1, rfl, by omega, by omega⟩
  | cons tag front =>
    obtain ⟨rfl, rest⟩ := List.cons.inj split
    have short := (readBatch_delimits trips counted encoded).short front cut rest cutSome
    rw [read_batchTag]
    exact short.bind _

theorem read_extended (trips : updates.RoundTrips) {batch : List U} {bytes extra : Bytes}
    (written : write updates snapshots (.updates batch) = .ok bytes) (more : extra ≠ []) :
    read updates snapshots (bytes ++ extra) = .error (.trailingBytes extra.length) := by
  obtain ⟨count, counted, payloads, encoded, rfl⟩ := write_updates_eq_ok.mp written
  have body := (readBatch_delimits trips counted encoded).full extra
  rw [List.cons_append, read_batchTag, body]
  simp [Bind.bind, Except.bind, more]

/-- Payloads that read back are all that frames need. -/
theorem frames_delimiting (updatesTrip : updates.RoundTrips) (snapshotsTrip : snapshots.RoundTrips) :
    Delimiting updates snapshots := by
  have trips := codec_roundTrips updatesTrip snapshotsTrip
  constructor
  case fails_iff => exact fun _ => fails_write
  case read_write => exact trips
  case cut =>
    intro batch bytes front cut written split cutSome
    subst split
    exact read_cut updatesTrip written cutSome
  case extended => exact fun _ _ _ => read_extended updatesTrip
  case injective =>
    intro record other bytes written alike
    have equal := (trips record bytes written).symm.trans (trips other bytes alike)
    exact Except.ok.inj equal

theorem pair_delimiting :
    write Codec.raw Codec.raw (.updates [[7], []]) = .ok [1, 0, 0, 0, 2, 0, 0, 0, 1, 7, 0, 0, 0, 0] ∧
      FallsShort 5 (read Codec.raw Codec.raw [1, 0, 0, 0, 2, 0, 0, 0, 1]) ∧
      read Codec.raw Codec.raw [1, 0, 0, 0, 2, 0, 0, 0, 1, 7, 0, 0, 0, 0, 9, 9] = .error (.trailingBytes 2) := by
  have all := frames_delimiting Codec.raw_roundTrips Codec.raw_roundTrips
  have written : write Codec.raw Codec.raw (.updates [[7], []]) = .ok [1, 0, 0, 0, 2, 0, 0, 0, 1, 7, 0, 0, 0, 0] :=
    rfl
  have cut := all.cut _ _ [1, 0, 0, 0, 2, 0, 0, 0, 1] [7, 0, 0, 0, 0] written rfl (by decide)
  have extended := all.extended _ _ [9, 9] written (by decide)
  exact ⟨written, cut, extended⟩

end LogReplica.Frame
