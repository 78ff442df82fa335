import LogReplica.BigEndian
import LogReplica.Codec.Basic

namespace LogReplica.Cbor

def take? (n : Nat) (bytes : Bytes) : Option (Bytes × Bytes) :=
  let part := bytes.take n
  if part.length = n then some (part, bytes.drop n) else none

inductive Head where
  | positive (n : Nat)
  | negative (n : Nat)
  | bytes (length : Option Nat)
  | text (length : Option Nat)
  | array (length : Option Nat)
  | map (length : Option Nat)
  | tag (n : Nat)
  | simple
  | stop
deriving DecidableEq

namespace Head

/-- A major type and its argument in the least number of bytes; arguments are below 2^64. -/
def writeArgument (major n : Nat) : Bytes :=
  if n < 24 then [UInt8.ofNat (major * 32 + n)]
  else if n < 256 then UInt8.ofNat (major * 32 + 24) :: BigEndian.toBytes 1 n
  else if n < 65536 then UInt8.ofNat (major * 32 + 25) :: BigEndian.toBytes 2 n
  else if n < 4294967296 then UInt8.ofNat (major * 32 + 26) :: BigEndian.toBytes 4 n
  else UInt8.ofNat (major * 32 + 27) :: BigEndian.toBytes 8 n

def argumentWidth? : Nat → Option Nat
  | 24 => some 1
  | 25 => some 2
  | 26 => some 4
  | 27 => some 8
  | _ => none

def readArgument (minor : Nat) (rest : Bytes) : Option (Option Nat × Bytes) :=
  if minor < 24 then some (some minor, rest)
  else if minor = 31 then some (none, rest)
  else
    match argumentWidth? minor with
    | none => none
    | some width => (take? width rest).map fun (part, rest) => (some (BigEndian.ofBytes part), rest)

def read : Bytes → Option (Head × Bytes)
  | [] => none
  | first :: rest =>
    match readArgument (first.toNat % 32) rest with
    | none => none
    | some (argument, rest) =>
      match first.toNat / 32, argument with
      | 0, some n => some (.positive n, rest)
      | 1, some n => some (.negative n, rest)
      | 2, length => some (.bytes length, rest)
      | 3, length => some (.text length, rest)
      | 4, length => some (.array length, rest)
      | 5, length => some (.map length, rest)
      | 6, some n => some (.tag n, rest)
      | 7, some _ => some (.simple, rest)
      | 7, none => some (.stop, rest)
      | _, _ => none

end Head

structure Format (α : Type) where
  write : α → Bytes
  read : Bytes → Option (α × Bytes)
  /-- The value that a byte of a byte string stands for, where a list of values is due. -/
  ofByte? : UInt8 → Option α := fun _ => none

/-- The first head that is no tag. -/
def untagged : (fuel : Nat) → Bytes → Option (Head × Bytes)
  | 0, _ => none
  | fuel + 1, bytes =>
    match Head.read bytes with
    | some (.tag _, rest) => untagged fuel rest
    | other => other

def readHead (bytes : Bytes) : Option (Head × Bytes) :=
  match Head.read bytes with
  | some (.tag _, rest) => untagged rest.length rest
  | other => other

/-- Pieces up to the end of the outermost open item; `length?` tells heads of the right kind. -/
def pieces (length? : Head → Option (Option Nat)) :
    (fuel open_ : Nat) → Bytes → Option (List Bytes × Bytes)
  | 0, _, _ => none
  | fuel + 1, open_, bytes => do
    let (head, rest) ← Head.read bytes
    match head, length? head with
    | .stop, _ => if open_ ≤ 1 then some ([], rest) else pieces length? fuel (open_ - 1) rest
    | _, some none => pieces length? fuel (open_ + 1) rest
    | _, some (some n) => do
      let (piece, rest) ← take? n rest
      let (more, rest) ← pieces length? fuel open_ rest
      some (piece :: more, rest)
    | _, none => none

def contents (length? : Head → Option (Option Nat)) (length : Option Nat) (bytes : Bytes) :
    Option (List Bytes × Bytes) :=
  match length with
  | some n => (take? n bytes).map fun (piece, rest) => ([piece], rest)
  | none => pieces length? bytes.length 1 bytes

def bytesLength? : Head → Option (Option Nat)
  | .bytes length => some length
  | _ => none

def textLength? : Head → Option (Option Nat)
  | .text length => some length
  | _ => none

/-- A magnitude written as a byte string, of 16 bytes at most after leading zeros. -/
def readMagnitude (bytes : Bytes) : Option (Nat × Bytes) := do
  let (head, rest) ← Head.read bytes
  let length ← bytesLength? head
  let (parts, rest) ← contents bytesLength? length rest
  let digits := parts.flatten.dropWhile (· = 0)
  if digits.length ≤ 16 then some (BigEndian.ofBytes digits, rest) else none

def numberHead : (fuel : Nat) → Bytes → Option (Head × Bytes)
  | 0, _ => none
  | fuel + 1, bytes =>
    match Head.read bytes with
    | some (.tag 2, rest) => some (.tag 2, rest)
    | some (.tag 3, rest) => some (.tag 3, rest)
    | some (.tag _, rest) => numberHead fuel rest
    | other => other

/-- A sign (`true` for `-1 - n`) and a number, under any tags. -/
def readInteger (bytes : Bytes) : Option ((Bool × Nat) × Bytes) := do
  let (head, rest) ←
    match Head.read bytes with
    | some (.tag _, _) => numberHead bytes.length bytes
    | other => other
  match head with
  | .positive n => some ((false, n), rest)
  | .negative n => some ((true, n), rest)
  | .tag 2 => (readMagnitude rest).map fun (n, rest) => ((false, n), rest)
  | .tag 3 => (readMagnitude rest).map fun (n, rest) => ((true, n), rest)
  | _ => none

def writeNatural (n : Nat) : Bytes := Head.writeArgument 0 n

def readNatural (limit : Nat) (bytes : Bytes) : Option (Nat × Bytes) :=
  match readInteger bytes with
  | some ((false, n), rest) => if n < limit then some (n, rest) else none
  | _ => none

def byte : Format UInt8 where
  write n := writeNatural n.toNat
  read bytes := (readNatural (2 ^ 8) bytes).map fun (n, rest) => (UInt8.ofNat n, rest)
  ofByte? := some

def word32 : Format UInt32 where
  write n := writeNatural n.toNat
  read bytes := (readNatural (2 ^ 32) bytes).map fun (n, rest) => (UInt32.ofNat n, rest)
  ofByte? b := some b.toUInt32

def word64 : Format UInt64 where
  write n := writeNatural n.toNat
  read bytes := (readNatural (2 ^ 64) bytes).map fun (n, rest) => (UInt64.ofNat n, rest)
  ofByte? b := some b.toUInt64

def signed64 : Format Int64 where
  write n :=
    match n.toInt with
    | .ofNat n => Head.writeArgument 0 n
    | .negSucc n => Head.writeArgument 1 n
  read bytes :=
    match readInteger bytes with
    | some ((negative, n), rest) =>
      if n < 2 ^ 63 then some (Int64.ofInt (if negative then .negSucc n else .ofNat n), rest) else none
    | none => none
  ofByte? b := some (Int64.ofInt b.toNat)

def writeText (s : String) : Bytes :=
  let bytes := Utf8.encode s
  Head.writeArgument 3 bytes.length ++ bytes

def readText (bytes : Bytes) : Option (String × Bytes) := do
  let (head, rest) ← readHead bytes
  let length ← textLength? head
  let (parts, rest) ← contents textLength? length rest
  let texts ← parts.mapM Utf8.decode?
  some (String.join texts, rest)

def text : Format String where
  write := writeText
  read := readText

def readCount {α : Type} (read : Bytes → Option (α × Bytes)) : (n : Nat) → Bytes → Option (List α × Bytes)
  | 0, bytes => some ([], bytes)
  | n + 1, bytes => do
    let (a, rest) ← read bytes
    let (as, rest) ← readCount read n rest
    some (a :: as, rest)

def readUntilStop {α : Type} (read : Bytes → Option (α × Bytes)) : (fuel : Nat) → Bytes → Option (List α × Bytes)
  | 0, _ => none
  | fuel + 1, bytes =>
    match Head.read bytes with
    | some (.stop, rest) => some ([], rest)
    | _ => do
      let (a, rest) ← read bytes
      let (as, rest) ← readUntilStop read fuel rest
      some (a :: as, rest)

def list {α : Type} (f : Format α) : Format (List α) where
  write as := Head.writeArgument 4 as.length ++ as.flatMap f.write
  read bytes := do
    let (head, rest) ← readHead bytes
    match head with
    | .array (some n) => readCount f.read n rest
    | .array none => readUntilStop f.read rest.length rest
    | .bytes length =>
      let (parts, rest) ← contents bytesLength? length rest
      let as ← parts.flatten.mapM f.ofByte?
      some (as, rest)
    | _ => none

def writeCase (name : String) (payload : Bytes) : Bytes :=
  Head.writeArgument 5 1 ++ writeText name ++ payload

def writeBareCase (name : String) : Bytes := writeText name

def readName (bytes : Bytes) : Option (String × Bytes) := do
  let (head, rest) ← readHead bytes
  match head with
  | .text (some n) | .bytes (some n) =>
    let (name, rest) ← take? n rest
    some (← Utf8.decode? name, rest)
  | _ => none

/-- The name of a case and what follows it: a map has one entry, and a text is its own name. -/
def readCase (bytes : Bytes) : Option (String × Bytes) := do
  let (head, rest) ← readHead bytes
  match head with
  | .map (some 1) => readName rest
  | .text (some n) =>
    let (name, rest) ← take? n rest
    some (← Utf8.decode? name, rest)
  | _ => none

def codec {α : Type} (f : Format α) : Codec α where
  encode a := pure (f.write a)
  decode bytes :=
    match f.read bytes with
    | none => throw .decodingFailed
    | some (a, []) => pure a
    | some (_, rest) => throw (.trailingBytes rest.length)

end LogReplica.Cbor
