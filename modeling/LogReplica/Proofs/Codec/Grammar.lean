import Mathlib.Data.List.Forall2
import LogReplica.Proofs.Codec.Frame

namespace LogReplica.Frame

variable {α β U I : Type}

theorem bind_eq_error {answer : Except CodecError α} {next : α → Except CodecError β} {cause : CodecError} :
    answer >>= next = .error cause ↔ answer = .error cause ∨ ∃ read, answer = .ok read ∧ next read = .error cause := by
  cases answer <;> simp [Bind.bind, Except.bind]

theorem take_eq_ok {n : Nat} {bytes part rest : Bytes} :
    take n bytes = .ok (part, rest) ↔ part.length = n ∧ bytes = part ++ rest := by
  constructor
  · intro taken
    simp only [take] at taken
    split at taken
    · rename_i complete
      obtain ⟨rfl, rfl⟩ := Prod.mk.inj (Except.ok.inj taken)
      exact ⟨complete, (List.take_append_drop n bytes).symm⟩
    · cases taken
  · rintro ⟨rfl, rfl⟩
    exact (take_delimits part).full rest

theorem take_eq_error {n : Nat} {bytes : Bytes} {cause : CodecError} :
    take n bytes = .error cause ↔ bytes.length < n ∧ cause = .unexpectedEnd (n - bytes.length) := by
  simp only [take, List.length_take]
  split
  · rename_i complete
    have enough : ¬bytes.length < n := by omega
    simp [enough]
  · rename_i incomplete
    have short : bytes.length < n := by omega
    rw [Nat.min_eq_right (Nat.le_of_lt short)]
    simp [short, eq_comm]

theorem readLength_eq_ok {n : Nat} {bytes rest : Bytes} :
    readLength bytes = .ok (n, rest) ↔ n < limit ∧ bytes = BigEndian.toBytes 4 n ++ rest := by
  constructor
  · intro read
    obtain ⟨⟨digits, later⟩, taken, value⟩ := bind_eq_ok.mp read
    obtain ⟨rfl, rfl⟩ := Prod.mk.inj (Except.ok.inj value)
    obtain ⟨width, rfl⟩ := take_eq_ok.mp taken
    have fits := BigEndian.ofBytes_lt digits
    have digitsEq := BigEndian.toBytes_ofBytes digits
    rw [width] at fits digitsEq
    exact ⟨fits, by rw [digitsEq]⟩
  · rintro ⟨fits, rfl⟩
    exact (readLength_delimits (writeLength_eq_ok.mpr ⟨fits, rfl⟩)).full rest

theorem readLength_eq_error {bytes : Bytes} {cause : CodecError} :
    readLength bytes = .error cause ↔ bytes.length < 4 ∧ cause = .unexpectedEnd (4 - bytes.length) := by
  rw [← take_eq_error, readLength, bind_eq_error]
  simp

def framed (payload : Bytes) : Bytes := BigEndian.toBytes 4 payload.length ++ payload

def Holds (decode : Bytes → Except CodecError U) (payload : Bytes) (u : U) : Prop :=
  payload.length < limit ∧ decode payload = .ok u

/-- What is wrong where the next update should be. -/
inductive Defect (decode : Bytes → Except CodecError U) : Bytes → CodecError → Prop
  | lengthCut (rest : Bytes) : rest.length < 4 → Defect decode rest (.unexpectedEnd (4 - rest.length))
  | payloadCut (length : Nat) (rest : Bytes) : length < limit → rest.length < length →
      Defect decode (BigEndian.toBytes 4 length ++ rest) (.unexpectedEnd (length - rest.length))
  | refused (payload rest : Bytes) (cause : CodecError) : payload.length < limit →
      decode payload = .error cause → Defect decode (framed payload ++ rest) cause

/-- What is wrong with a frame, with all that is sound to the left of it. -/
inductive FirstDefect (updates : Codec U) (snapshots : Codec I) : Bytes → CodecError → Prop
  | empty : FirstDefect updates snapshots [] (.unexpectedEnd 1)
  | tag (tag : UInt8) (rest : Bytes) : tag ≠ snapshotTag → tag ≠ batchTag →
      FirstDefect updates snapshots (tag :: rest) (.unknownTag tag)
  | snapshot (payload : Bytes) (cause : CodecError) : snapshots.decode payload = .error cause →
      FirstDefect updates snapshots (snapshotTag :: payload) cause
  | countCut (rest : Bytes) : rest.length < 4 →
      FirstDefect updates snapshots (batchTag :: rest) (.unexpectedEnd (4 - rest.length))
  | update (count : Nat) (payloads : List Bytes) (batch : List U) (rest : Bytes) (cause : CodecError) :
      count < limit → payloads.length < count → List.Forall₂ (Holds updates.decode) payloads batch →
      Defect updates.decode rest cause →
      FirstDefect updates snapshots
        (batchTag :: (BigEndian.toBytes 4 count ++ (payloads.flatMap framed ++ rest))) cause
  | trailing (payloads : List Bytes) (batch : List U) (rest : Bytes) :
      payloads.length < limit → List.Forall₂ (Holds updates.decode) payloads batch → rest ≠ [] →
      FirstDefect updates snapshots
        (batchTag :: (BigEndian.toBytes 4 payloads.length ++ (payloads.flatMap framed ++ rest)))
        (.trailingBytes rest.length)

section Updates

variable {decode : Bytes → Except CodecError U} {n : Nat} {bytes rest : Bytes} {batch : List U} {cause : CodecError}

theorem framed_append (payload : Bytes) :
    framed payload ++ rest = BigEndian.toBytes 4 payload.length ++ (payload ++ rest) :=
  List.append_assoc ..

theorem readUpdates_succ_eq_ok :
    readUpdates decode (n + 1) bytes = .ok (batch, rest) ↔
      ∃ payload later u more, Holds decode payload u ∧ bytes = framed payload ++ later ∧
        readUpdates decode n later = .ok (more, rest) ∧ batch = u :: more := by
  simp only [readUpdates, bind_eq_ok]
  constructor
  · rintro ⟨⟨length, tail⟩, lengthRead, ⟨payload, later⟩, taken, u, decoded, ⟨more, rest'⟩, others, value⟩
    obtain ⟨rfl, rfl⟩ := Prod.mk.inj (Except.ok.inj value)
    obtain ⟨fits, rfl⟩ := readLength_eq_ok.mp lengthRead
    obtain ⟨rfl, rfl⟩ := take_eq_ok.mp taken
    exact ⟨payload, later, u, more, ⟨fits, decoded⟩, (framed_append payload).symm, others, rfl⟩
  · rintro ⟨payload, later, u, more, ⟨fits, decoded⟩, rfl, others, rfl⟩
    rw [framed_append]
    exact ⟨_, readLength_eq_ok.mpr ⟨fits, rfl⟩, _, take_eq_ok.mpr ⟨rfl, rfl⟩, u, decoded, _, others, rfl⟩

theorem readUpdates_succ_eq_error :
    readUpdates decode (n + 1) bytes = .error cause ↔
      Defect decode bytes cause ∨ ∃ payload later u, Holds decode payload u ∧ bytes = framed payload ++ later ∧
        readUpdates decode n later = .error cause := by
  simp only [readUpdates, bind_eq_error]
  constructor
  · rintro (cut | ⟨⟨length, tail⟩, lengthRead, cut | ⟨⟨payload, later⟩, taken, refused | ⟨u, decoded, later'⟩⟩⟩)
    · obtain ⟨short, rfl⟩ := readLength_eq_error.mp cut
      exact .inl (.lengthCut bytes short)
    · obtain ⟨fits, rfl⟩ := readLength_eq_ok.mp lengthRead
      obtain ⟨short, rfl⟩ := take_eq_error.mp cut
      exact .inl (.payloadCut length tail fits short)
    · obtain ⟨fits, rfl⟩ := readLength_eq_ok.mp lengthRead
      obtain ⟨rfl, rfl⟩ := take_eq_ok.mp taken
      rw [← framed_append]
      exact .inl (.refused payload later cause fits refused)
    · obtain ⟨fits, rfl⟩ := readLength_eq_ok.mp lengthRead
      obtain ⟨rfl, rfl⟩ := take_eq_ok.mp taken
      have failed : readUpdates decode n later = .error cause := by
        rcases later' with failed | ⟨read, _, impossible⟩
        · exact failed
        · cases impossible
      exact .inr ⟨payload, later, u, ⟨fits, decoded⟩, (framed_append payload).symm, failed⟩
  · rintro (defect | ⟨payload, later, u, ⟨fits, decoded⟩, rfl, failed⟩)
    · cases defect with
      | lengthCut _ short => exact .inl (readLength_eq_error.mpr ⟨short, rfl⟩)
      | payloadCut length tail fits short =>
        exact .inr ⟨_, readLength_eq_ok.mpr ⟨fits, rfl⟩, .inl (take_eq_error.mpr ⟨short, rfl⟩)⟩
      | refused payload later _ fits refused =>
        rw [framed_append]
        exact .inr ⟨_, readLength_eq_ok.mpr ⟨fits, rfl⟩, .inr ⟨_, take_eq_ok.mpr ⟨rfl, rfl⟩, .inl refused⟩⟩
    · rw [framed_append]
      exact .inr ⟨_, readLength_eq_ok.mpr ⟨fits, rfl⟩, .inr ⟨_, take_eq_ok.mpr ⟨rfl, rfl⟩,
        .inr ⟨u, decoded, .inl failed⟩⟩⟩

theorem readUpdates_eq_ok :
    readUpdates decode n bytes = .ok (batch, rest) ↔
      ∃ payloads, payloads.length = n ∧ List.Forall₂ (Holds decode) payloads batch ∧
        bytes = payloads.flatMap framed ++ rest := by
  induction n generalizing bytes batch with
  | zero =>
    constructor
    · intro read
      obtain ⟨rfl, rfl⟩ := Prod.mk.inj (Except.ok.inj read)
      exact ⟨[], rfl, .nil, rfl⟩
    · rintro ⟨payloads, count, holds, rfl⟩
      obtain rfl := List.length_eq_zero_iff.mp count
      cases holds
      rfl
  | succ n ih =>
    rw [readUpdates_succ_eq_ok]
    constructor
    · rintro ⟨payload, later, u, more, head, rfl, others, rfl⟩
      obtain ⟨payloads, count, tail, rfl⟩ := ih.mp others
      refine ⟨payload :: payloads, congrArg (· + 1) count, .cons head tail, ?_⟩
      rw [List.flatMap_cons, List.append_assoc]
    · rintro ⟨payloads, count, holds, rfl⟩
      cases holds with
      | nil => cases count
      | @cons payload u payloads more head tail =>
        have others := ih.mpr ⟨payloads, Nat.succ.inj count, tail, rfl⟩
        refine ⟨payload, _, u, more, head, ?_, others, rfl⟩
        rw [List.flatMap_cons, List.append_assoc]

theorem readUpdates_eq_error :
    readUpdates decode n bytes = .error cause ↔
      ∃ payloads batch rest, payloads.length < n ∧ List.Forall₂ (Holds decode) payloads batch ∧
        bytes = payloads.flatMap framed ++ rest ∧ Defect decode rest cause := by
  induction n generalizing bytes with
  | zero => simp [readUpdates]
  | succ n ih =>
    rw [readUpdates_succ_eq_error]
    constructor
    · rintro (defect | ⟨payload, later, u, head, rfl, failed⟩)
      · exact ⟨[], [], bytes, Nat.succ_pos n, .nil, rfl, defect⟩
      · obtain ⟨payloads, batch, rest, count, tail, rfl, defect⟩ := ih.mp failed
        refine ⟨payload :: payloads, u :: batch, rest, Nat.succ_lt_succ count, .cons head tail, ?_, defect⟩
        rw [List.flatMap_cons, List.append_assoc]
    · rintro ⟨payloads, batch, rest, count, holds, rfl, defect⟩
      cases holds with
      | nil => exact .inl defect
      | @cons payload u payloads batch head tail =>
        have failed := ih.mpr ⟨payloads, batch, rest, Nat.lt_of_succ_lt_succ count, tail, rfl, defect⟩
        refine .inr ⟨payload, _, u, head, ?_, failed⟩
        rw [List.flatMap_cons, List.append_assoc]

end Updates

theorem read_otherTag {tag : UInt8} (noSnapshot : tag ≠ snapshotTag) (noBatch : tag ≠ batchTag)
    (updates : Codec U) (snapshots : Codec I) (rest : Bytes) :
    read updates snapshots (tag :: rest) = .error (.unknownTag tag) := by
  simp only [read, if_neg noSnapshot, if_neg noBatch]

theorem tag_cases (tag : UInt8) : tag = snapshotTag ∨ tag = batchTag ∨ (tag ≠ snapshotTag ∧ tag ≠ batchTag) := by
  by_cases ofSnapshot : tag = snapshotTag
  · exact .inl ofSnapshot
  · by_cases ofBatch : tag = batchTag
    · exact .inr (.inl ofBatch)
    · exact .inr (.inr ⟨ofSnapshot, ofBatch⟩)

section Ranges

def slice? (n : Nat) (bytes : Bytes) : Option Bytes :=
  if n ≤ bytes.length then some (bytes.take n) else none

def advance? (n : Nat) (bytes : Bytes) : Option Bytes :=
  if n ≤ bytes.length then some (bytes.drop n) else none

abbrev InRange (α : Type) := ExceptT CodecError Option α

def readLengthInRange (bytes : Bytes) : InRange (Nat × Bytes) := do
  if bytes.length < 4 then throw (.unexpectedEnd (4 - bytes.length))
  let digits ← slice? 4 bytes
  let rest ← advance? 4 bytes
  return (BigEndian.ofBytes digits, rest)

def readUpdatesInRange (decode : Bytes → Except CodecError U) : (n : Nat) → Bytes → InRange (List U × Bytes)
  | 0, bytes => return ([], bytes)
  | n + 1, bytes => do
    let (length, rest) ← readLengthInRange bytes
    if rest.length < length then throw (.unexpectedEnd (length - rest.length))
    let payload ← slice? length rest
    let u ← MonadExcept.ofExcept (decode payload)
    let rest ← advance? length rest
    let (more, rest) ← readUpdatesInRange decode n rest
    return (u :: more, rest)

def readTaggedInRange (updates : Codec U) (snapshots : Codec I) (tag : UInt8) (rest : Bytes) : InRange (Record U I) :=
  if tag = snapshotTag then do
    let snapshot ← MonadExcept.ofExcept (snapshots.decode rest)
    return .init snapshot
  else if tag = batchTag then do
    let (count, rest) ← readLengthInRange rest
    let (batch, rest) ← readUpdatesInRange updates.decode count rest
    if rest.isEmpty then return .updates batch else throw (.trailingBytes rest.length)
  else throw (.unknownTag tag)

/-- Reads a frame by slices and advances that have a result in their range only. -/
def readInRange (updates : Codec U) (snapshots : Codec I) (bytes : Bytes) : InRange (Record U I) := do
  if bytes.isEmpty then throw (.unexpectedEnd 1)
  let tag ← bytes.head?
  let rest ← advance? 1 bytes
  readTaggedInRange updates snapshots tag rest

theorem slice?_eq {n : Nat} {bytes : Bytes} (enough : n ≤ bytes.length) : slice? n bytes = some (bytes.take n) :=
  if_pos enough

theorem advance?_eq {n : Nat} {bytes : Bytes} (enough : n ≤ bytes.length) : advance? n bytes = some (bytes.drop n) :=
  if_pos enough

theorem take_eq {n : Nat} {bytes : Bytes} (enough : n ≤ bytes.length) :
    take n bytes = .ok (bytes.take n, bytes.drop n) :=
  take_eq_ok.mpr ⟨List.length_take_of_le enough, (List.take_append_drop n bytes).symm⟩

theorem run_ofExcept (answer : Except CodecError α) : (MonadExcept.ofExcept answer : InRange α).run = some answer := by
  cases answer <;> rfl

theorem run_bind {x : InRange α} {answer : Except CodecError α} {next : α → InRange β}
    {read : α → Except CodecError β} (first : x.run = some answer) (others : ∀ a, (next a).run = some (read a)) :
    (x >>= next).run = some (answer >>= read) := by
  rw [ExceptT.run_bind, first]
  cases answer with
  | error cause => rfl
  | ok a => exact others a

theorem run_readLengthInRange (bytes : Bytes) : (readLengthInRange bytes).run = some (readLength bytes) := by
  by_cases short : bytes.length < 4
  · have cut := readLength_eq_error.mpr ⟨short, rfl⟩
    simp [readLengthInRange, short, cut]
  · have enough : 4 ≤ bytes.length := by omega
    simp only [readLengthInRange, readLength, short, slice?_eq enough, advance?_eq enough, take_eq enough]
    rfl

theorem run_readUpdatesInRange (decode : Bytes → Except CodecError U) (n : Nat) (bytes : Bytes) :
    (readUpdatesInRange decode n bytes).run = some (readUpdates decode n bytes) := by
  induction n generalizing bytes with
  | zero => rfl
  | succ n ih =>
    refine run_bind (run_readLengthInRange bytes) fun ⟨length, rest⟩ => ?_
    by_cases short : rest.length < length
    · have cut := take_eq_error.mpr ⟨short, rfl⟩
      simp [short, cut]
      rfl
    · have enough : length ≤ rest.length := by omega
      have loop : (MonadExcept.ofExcept (decode (rest.take length)) >>= fun u =>
          readUpdatesInRange decode n (rest.drop length) >>= fun more =>
            (return (u :: more.1, more.2) : InRange _)).run = some _ :=
        run_bind (run_ofExcept _) fun u => run_bind (ih (rest.drop length)) fun more => rfl
      simp only [short, slice?_eq enough, advance?_eq enough, take_eq enough]
      exact loop

variable (updates : Codec U) (snapshots : Codec I)

theorem run_readTaggedInRange (tag : UInt8) (rest : Bytes) :
    (readTaggedInRange updates snapshots tag rest).run = some (read updates snapshots (tag :: rest)) := by
  rcases tag_cases tag with rfl | rfl | ⟨noSnapshot, noBatch⟩
  · rw [read_snapshotTag, readTaggedInRange, if_pos rfl]
    exact run_bind (run_ofExcept (snapshots.decode rest)) fun snapshot => rfl
  · have other : batchTag ≠ snapshotTag := by decide
    rw [read_batchTag, readBatch, bind_assoc, readTaggedInRange, if_neg other, if_pos rfl]
    refine run_bind (run_readLengthInRange rest) fun count => ?_
    refine run_bind (run_readUpdatesInRange updates.decode count.1 count.2) fun read => ?_
    obtain ⟨batch, left⟩ := read
    cases left <;> rfl
  · rw [read_otherTag noSnapshot noBatch updates snapshots rest, readTaggedInRange, if_neg noSnapshot, if_neg noBatch]
    rfl

theorem run_readInRange (bytes : Bytes) :
    (readInRange updates snapshots bytes).run = some (read updates snapshots bytes) := by
  cases bytes with
  | nil => rfl
  | cons tag rest =>
    have past : advance? 1 (tag :: rest) = some rest := advance?_eq (Nat.le_add_left 1 rest.length)
    rw [← run_readTaggedInRange, readInRange, past]
    rfl

end Ranges

section Parts

variable {updates : Codec U} {snapshots : Codec I} {bytes rest : Bytes} {batch : List U} {cause : CodecError}

theorem readBatch_eq_ok :
    readBatch updates bytes = .ok (batch, rest) ↔
      ∃ payloads, payloads.length < limit ∧ List.Forall₂ (Holds updates.decode) payloads batch ∧
        bytes = BigEndian.toBytes 4 payloads.length ++ (payloads.flatMap framed ++ rest) := by
  rw [readBatch, bind_eq_ok]
  constructor
  · rintro ⟨⟨count, later⟩, counted, others⟩
    obtain ⟨fits, rfl⟩ := readLength_eq_ok.mp counted
    obtain ⟨payloads, rfl, holds, rfl⟩ := readUpdates_eq_ok.mp others
    exact ⟨payloads, fits, holds, rfl⟩
  · rintro ⟨payloads, fits, holds, rfl⟩
    exact ⟨_, readLength_eq_ok.mpr ⟨fits, rfl⟩, readUpdates_eq_ok.mpr ⟨payloads, rfl, holds, rfl⟩⟩

theorem readBatch_eq_error :
    readBatch updates bytes = .error cause ↔
      (bytes.length < 4 ∧ cause = .unexpectedEnd (4 - bytes.length)) ∨
        ∃ count payloads batch rest, count < limit ∧ payloads.length < count ∧
          List.Forall₂ (Holds updates.decode) payloads batch ∧ Defect updates.decode rest cause ∧
          bytes = BigEndian.toBytes 4 count ++ (payloads.flatMap framed ++ rest) := by
  rw [readBatch, bind_eq_error, readLength_eq_error]
  apply or_congr_right
  constructor
  · rintro ⟨⟨count, later⟩, counted, others⟩
    obtain ⟨fits, rfl⟩ := readLength_eq_ok.mp counted
    obtain ⟨payloads, batch, rest, fewer, holds, rfl, defect⟩ := readUpdates_eq_error.mp others
    exact ⟨count, payloads, batch, rest, fits, fewer, holds, defect, rfl⟩
  · rintro ⟨count, payloads, batch, rest, fits, fewer, holds, defect, rfl⟩
    exact ⟨_, readLength_eq_ok.mpr ⟨fits, rfl⟩,
      readUpdates_eq_error.mpr ⟨payloads, batch, rest, fewer, holds, rfl, defect⟩⟩

theorem read_snapshotTag_eq_ok {record : Record U I} :
    read updates snapshots (snapshotTag :: rest) = .ok record ↔
      ∃ snapshot, snapshots.decode rest = .ok snapshot ∧ record = .init snapshot := by
  simp only [read_snapshotTag, bind_eq_ok, Except.ok.injEq, @eq_comm _ record]

theorem read_snapshotTag_eq_error :
    read updates snapshots (snapshotTag :: rest) = .error cause ↔ snapshots.decode rest = .error cause := by
  simp [read_snapshotTag, bind_eq_error]

theorem read_batchTag_eq_ok {record : Record U I} :
    read updates snapshots (batchTag :: rest) = .ok record ↔
      ∃ batch, readBatch updates rest = .ok (batch, []) ∧ record = .updates batch := by
  rw [read_batchTag, bind_eq_ok]
  constructor
  · rintro ⟨⟨batch, left⟩, body, ended⟩
    cases left with
    | nil => exact ⟨batch, body, (Except.ok.inj ended).symm⟩
    | cons byte left => cases ended
  · rintro ⟨batch, body, rfl⟩
    exact ⟨_, body, rfl⟩

theorem read_batchTag_eq_error :
    read updates snapshots (batchTag :: rest) = .error cause ↔
      readBatch updates rest = .error cause ∨
        ∃ batch left, readBatch updates rest = .ok (batch, left) ∧ left ≠ [] ∧ cause = .trailingBytes left.length := by
  rw [read_batchTag, bind_eq_error]
  apply or_congr_right
  constructor
  · rintro ⟨⟨batch, left⟩, body, ended⟩
    cases left with
    | nil => cases ended
    | cons byte left => exact ⟨batch, _, body, List.cons_ne_nil byte left, (Except.error.inj ended).symm⟩
  · rintro ⟨batch, left, body, more, rfl⟩
    refine ⟨_, body, ?_⟩
    simp [more]

theorem read_eq_init {snapshot : I} :
    read updates snapshots bytes = .ok (.init snapshot) ↔
      ∃ payload, bytes = snapshotTag :: payload ∧ snapshots.decode payload = .ok snapshot := by
  constructor
  · intro accepted
    cases bytes with
    | nil => cases accepted
    | cons tag rest =>
      rcases tag_cases tag with rfl | rfl | ⟨noSnapshot, noBatch⟩
      · obtain ⟨snapshot, decoded, same⟩ := read_snapshotTag_eq_ok.mp accepted
        cases same
        exact ⟨rest, rfl, decoded⟩
      · obtain ⟨batch, _, other⟩ := read_batchTag_eq_ok.mp accepted
        cases other
      · rw [read_otherTag noSnapshot noBatch updates snapshots rest] at accepted
        cases accepted
  · rintro ⟨payload, rfl, decoded⟩
    exact read_snapshotTag_eq_ok.mpr ⟨snapshot, decoded, rfl⟩

theorem read_eq_updates :
    read updates snapshots bytes = .ok (.updates batch) ↔
      ∃ payloads, payloads.length < limit ∧ List.Forall₂ (Holds updates.decode) payloads batch ∧
        bytes = batchTag :: (BigEndian.toBytes 4 payloads.length ++ payloads.flatMap framed) := by
  constructor
  · intro accepted
    cases bytes with
    | nil => cases accepted
    | cons tag rest =>
      rcases tag_cases tag with rfl | rfl | ⟨noSnapshot, noBatch⟩
      · obtain ⟨snapshot, _, other⟩ := read_snapshotTag_eq_ok.mp accepted
        cases other
      · obtain ⟨batch, body, same⟩ := read_batchTag_eq_ok.mp accepted
        cases same
        obtain ⟨payloads, fits, holds, rfl⟩ := readBatch_eq_ok.mp body
        exact ⟨payloads, fits, holds, by rw [List.append_nil]⟩
      · rw [read_otherTag noSnapshot noBatch updates snapshots rest] at accepted
        cases accepted
  · rintro ⟨payloads, fits, holds, rfl⟩
    have body : readBatch updates _ = .ok (batch, []) := readBatch_eq_ok.mpr ⟨payloads, fits, holds, rfl⟩
    rw [List.append_nil] at body
    exact read_batchTag_eq_ok.mpr ⟨batch, body, rfl⟩

theorem firstDefect_of_read (refused : read updates snapshots bytes = .error cause) :
    FirstDefect updates snapshots bytes cause := by
  cases bytes with
  | nil =>
    cases refused
    exact .empty
  | cons tag rest =>
    rcases tag_cases tag with rfl | rfl | ⟨noSnapshot, noBatch⟩
    · exact .snapshot rest cause (read_snapshotTag_eq_error.mp refused)
    · rcases read_batchTag_eq_error.mp refused with early | ⟨batch, left, body, more, rfl⟩
      · rcases readBatch_eq_error.mp early with ⟨short, rfl⟩ | defective
        · exact .countCut rest short
        · obtain ⟨count, payloads, batch, left, fits, fewer, holds, defect, rfl⟩ := defective
          exact .update count payloads batch left cause fits fewer holds defect
      · obtain ⟨payloads, fits, holds, rfl⟩ := readBatch_eq_ok.mp body
        exact .trailing payloads batch left fits holds more
    · rw [read_otherTag noSnapshot noBatch updates snapshots rest] at refused
      cases refused
      exact .tag tag rest noSnapshot noBatch

theorem FirstDefect.read_eq (defect : FirstDefect updates snapshots bytes cause) :
    read updates snapshots bytes = .error cause := by
  cases defect with
  | empty => rfl
  | tag tag rest noSnapshot noBatch => exact read_otherTag noSnapshot noBatch updates snapshots rest
  | snapshot payload _ refused => exact read_snapshotTag_eq_error.mpr refused
  | countCut rest short => exact read_batchTag_eq_error.mpr (.inl (readBatch_eq_error.mpr (.inl ⟨short, rfl⟩)))
  | update count payloads batch rest _ fits fewer holds defect =>
    have early := readBatch_eq_error.mpr (.inr ⟨count, payloads, batch, rest, fits, fewer, holds, defect, rfl⟩)
    exact read_batchTag_eq_error.mpr (.inl early)
  | trailing payloads batch rest fits holds more =>
    have body : readBatch updates _ = .ok (batch, rest) := readBatch_eq_ok.mpr ⟨payloads, fits, holds, rfl⟩
    exact read_batchTag_eq_error.mpr (.inr ⟨batch, rest, body, more, rfl⟩)

end Parts

/-- What is read is what the grammar allows, and a refusal tells the first defect. -/
structure Grammatical (updates : Codec U) (snapshots : Codec I) : Prop where
  snapshot : ∀ bytes snapshot, read updates snapshots bytes = .ok (.init snapshot) ↔
    ∃ payload, bytes = snapshotTag :: payload ∧ snapshots.decode payload = .ok snapshot
  batch : ∀ bytes batch, read updates snapshots bytes = .ok (.updates batch) ↔
    ∃ payloads, payloads.length < limit ∧ List.Forall₂ (Holds updates.decode) payloads batch ∧
      bytes = batchTag :: (BigEndian.toBytes 4 payloads.length ++ payloads.flatMap framed)
  refused : ∀ bytes cause, read updates snapshots bytes = .error cause ↔ FirstDefect updates snapshots bytes cause
  inRange : ∀ bytes, (readInRange updates snapshots bytes).run = some (read updates snapshots bytes)

theorem read_grammatical (updates : Codec U) (snapshots : Codec I) : Grammatical updates snapshots where
  snapshot _ _ := read_eq_init
  batch _ _ := read_eq_updates
  refused _ _ := ⟨firstDefect_of_read, FirstDefect.read_eq⟩
  inRange := run_readInRange updates snapshots

example : read Codec.raw Codec.raw [1, 0, 0, 0, 3, 0, 0, 0, 1, 7, 0, 0, 0, 3, 9] = .error (.unexpectedEnd 2) := by
  cbv

end LogReplica.Frame
