import LogReplica.Codec.Basic
import LogReplica.Power

namespace LogReplica.Json

structure Format (α : Type) where
  write : α → List Char
  read : List Char → Option (α × List Char)

def isBlank (c : Char) : Bool := c = ' ' || c = '\n' || c = '\t' || c = '\r'

def skipBlanks (cs : List Char) : List Char := cs.dropWhile isBlank

def expect (c : Char) (cs : List Char) : Option (List Char) :=
  match skipBlanks cs with
  | d :: rest => if d = c then some rest else none
  | [] => none

def digitsValue (digits : List Char) : Nat := digits.foldl (fun n c => n * 10 + (c.toNat - '0'.toNat)) 0

def readDigits (cs : List Char) : Option (Nat × List Char) :=
  let digits := cs.takeWhile Char.isDigit
  let rest := cs.dropWhile Char.isDigit
  let fraction := rest.head?.any fun c => c = '.' || c = 'e' || c = 'E'
  match digits with
  | [] => none
  | first :: more =>
    if (first = '0' && !more.isEmpty) || fraction then none else some (digitsValue digits, rest)

/-- A whole number; a negative zero is none. -/
def readInteger (cs : List Char) : Option (Int × List Char) :=
  match skipBlanks cs with
  | '-' :: rest =>
    match readDigits rest with
    | some (n + 1, rest) => some (.negSucc n, rest)
    | _ => none
  | cs => (readDigits cs).map fun (n, rest) => (.ofNat n, rest)

def writeNatural (n : Nat) : List Char := Nat.toDigits 10 n

def writeInteger : Int → List Char
  | .ofNat n => writeNatural n
  | .negSucc n => '-' :: writeNatural (n + 1)

def readRange (low high : Int) (cs : List Char) : Option (Int × List Char) :=
  match readInteger cs with
  | some (n, rest) => if low ≤ n ∧ n < high then some (n, rest) else none
  | none => none

def byte : Format UInt8 where
  write n := writeNatural n.toNat
  read cs := (readRange 0 (2 ^ 8) cs).map fun (n, rest) => (UInt8.ofNat n.toNat, rest)

def word32 : Format UInt32 where
  write n := writeNatural n.toNat
  read cs := (readRange 0 (2 ^ 32) cs).map fun (n, rest) => (UInt32.ofNat n.toNat, rest)

def word64 : Format UInt64 where
  write n := writeNatural n.toNat
  read cs := (readRange 0 (2 ^ 64) cs).map fun (n, rest) => (UInt64.ofNat n.toNat, rest)

def signed64 : Format Int64 where
  write n := writeInteger n.toInt
  read cs := (readRange (-(2 ^ 63)) (2 ^ 63) cs).map fun (n, rest) => (Int64.ofInt n, rest)

def hexDigit (n : Nat) : Char := (n % 16).digitChar

/-- Quotes, backslashes and controls are escaped, by a letter where there is one. -/
def writeChar (c : Char) : List Char :=
  match c with
  | '"' => ['\\', '"']
  | '\\' => ['\\', '\\']
  | '\x08' => ['\\', 'b']
  | '\x0c' => ['\\', 'f']
  | '\n' => ['\\', 'n']
  | '\r' => ['\\', 'r']
  | '\t' => ['\\', 't']
  | c => if c.toNat < 0x20 then ['\\', 'u', '0', '0', hexDigit (c.toNat / 16), hexDigit c.toNat] else [c]

def writeText (s : String) : List Char := '"' :: (s.toList.flatMap writeChar ++ ['"'])

def hexValue? (c : Char) : Option Nat :=
  if '0' ≤ c ∧ c ≤ '9' then some (c.toNat - '0'.toNat)
  else if 'a' ≤ c ∧ c ≤ 'f' then some (c.toNat - 'a'.toNat + 10)
  else if 'A' ≤ c ∧ c ≤ 'F' then some (c.toNat - 'A'.toNat + 10)
  else none

def hex4? (a b c d : Char) : Option Nat := do
  let a ← hexValue? a
  let b ← hexValue? b
  let c ← hexValue? c
  let d ← hexValue? d
  some (((a * 16 + b) * 16 + c) * 16 + d)

def escaped? : Char → Option Char
  | '"' => some '"'
  | '\\' => some '\\'
  | '/' => some '/'
  | 'b' => some '\x08'
  | 'f' => some '\x0c'
  | 'n' => some '\n'
  | 'r' => some '\r'
  | 't' => some '\t'
  | _ => none

/-- The character of two halves of a pair, the high one first. -/
def pairValue? (high low : Nat) : Option Char :=
  if 0xD800 ≤ high ∧ high < 0xDC00 ∧ 0xDC00 ≤ low ∧ low < 0xE000 then
    some (Char.ofNat (0x10000 + (high - 0xD800) * 0x400 + (low - 0xDC00)))
  else none

def readChars : List Char → Option (List Char × List Char)
  | '"' :: rest => some ([], rest)
  | '\\' :: 'u' :: a :: b :: c :: d :: rest =>
    match hex4? a b c d with
    | none => none
    | some n =>
      if n < 0xD800 ∨ 0xE000 ≤ n then
        (readChars rest).map fun (cs, rest) => (Char.ofNat n :: cs, rest)
      else
        match rest with
        | '\\' :: 'u' :: e :: f :: g :: h :: rest =>
          match (hex4? e f g h).bind (pairValue? n) with
          | none => none
          | some ch => (readChars rest).map fun (cs, rest) => (ch :: cs, rest)
        | _ => none
  | '\\' :: c :: rest =>
    match escaped? c with
    | none => none
    | some ch => (readChars rest).map fun (cs, rest) => (ch :: cs, rest)
  | c :: rest =>
    if c = '\\' ∨ c.toNat < 0x20 then none
    else (readChars rest).map fun (cs, rest) => (c :: cs, rest)
  | [] => none

def readText (cs : List Char) : Option (String × List Char) := do
  let rest ← expect '"' cs
  let (text, rest) ← readChars rest
  some (String.ofList text, rest)

def text : Format String where
  write := writeText
  read := readText

def writeItems {α : Type} (write : α → List Char) : List α → List Char
  | [] => [']']
  | [a] => write a ++ [']']
  | a :: b :: as => write a ++ ',' :: writeItems write (b :: as)

def readItems {α : Type} (read : List Char → Option (α × List Char)) :
    (fuel : Nat) → List Char → Option (List α × List Char)
  | 0, _ => none
  | fuel + 1, cs =>
    match skipBlanks cs with
    | ']' :: rest => some ([], rest)
    | ',' :: rest => do
      let (a, rest) ← read rest
      let (as, rest) ← readItems read fuel rest
      some (a :: as, rest)
    | _ => none

def list {α : Type} (f : Format α) : Format (List α) where
  write as := '[' :: writeItems f.write as
  read cs := do
    let rest ← expect '[' cs
    match skipBlanks rest with
    | ']' :: rest => some ([], rest)
    | rest => do
      let (a, rest) ← f.read rest
      let (as, rest) ← readItems f.read rest.length rest
      some (a :: as, rest)

def writeCase (name : String) (payload : List Char) : List Char :=
  '\x7b' :: (writeText name ++ ':' :: (payload ++ ['\x7d']))

def writeBareCase (name : String) : List Char := writeText name

def readNull (cs : List Char) : Option (Unit × List Char) :=
  match skipBlanks cs with
  | 'n' :: 'u' :: 'l' :: 'l' :: rest => some ((), rest)
  | _ => none

/-- A case by its name: `payload` reads what a name carries, `bare` tells the cases without any. -/
def readCase {α : Type} (payload : String → List Char → Option (α × List Char)) (bare : String → Option α)
    (cs : List Char) : Option (α × List Char) :=
  match skipBlanks cs with
  | '\x7b' :: rest => do
    let (name, rest) ← readText rest
    let rest ← expect ':' rest
    let (a, rest) ←
      match bare name with
      | some a => (readNull rest).map fun (_, rest) => (a, rest)
      | none => payload name rest
    let rest ← expect '\x7d' rest
    some (a, rest)
  | cs => do
    let (name, rest) ← readText cs
    let a ← bare name
    some (a, rest)

def codec {α : Type} (f : Format α) : Codec α where
  encode a := pure (Utf8.encode (String.ofList (f.write a)))
  decode bytes :=
    match (Utf8.decode? bytes).bind fun s => f.read s.toList with
    | some (a, rest) => if rest.all isBlank then pure a else throw .decodingFailed
    | none => throw .decodingFailed

end LogReplica.Json
