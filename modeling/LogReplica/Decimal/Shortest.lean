import LogReplica.Power

namespace LogReplica.Decimal

structure Binary where
  mantissa : Nat
  exponent : Nat

inductive Tie where
  | toEven
  | awayFromZero
deriving DecidableEq

/-- The number `digits * 10 ^ exponent`. -/
structure Digits where
  digits : Nat
  exponent : Int

namespace Binary

def ofFloat (x : Float) : Binary :=
  let bits := x.toBits.toNat % 2 ^ 63
  let fraction := bits % 2 ^ 52
  let exponent := bits / 2 ^ 52
  if exponent = 0 then ⟨fraction, 1⟩ else ⟨fraction + 2 ^ 52, exponent⟩

/-- A quarter of the step to the next number is `numerator / denominator`. -/
def quarter (b : Binary) : Nat × Nat :=
  if 1077 ≤ b.exponent then (2 ^ (b.exponent - 1077), 1) else (1, 2 ^ (1077 - b.exponent))

def below (b : Binary) : Nat := if b.mantissa = 2 ^ 52 ∧ 1 < b.exponent then 1 else 2

/-- Whether `digits * 10 ^ exponent` is read as the number: it lies in the middle between its
neighbours, where the ends belong to an even mantissa. -/
def covers (b : Binary) (d : Digits) : Bool :=
  let (numerator, denominator) := b.quarter
  let decimal := d.digits * 10 ^ d.exponent.toNat * denominator
  let scale := numerator * 10 ^ (-d.exponent).toNat
  let low := (4 * b.mantissa - b.below) * scale
  let high := (4 * b.mantissa + 2) * scale
  if b.mantissa % 2 = 0 then low ≤ decimal && decimal ≤ high else low < decimal && decimal < high

def neighbours (b : Binary) (tie : Tie) (exponent : Int) : List Digits :=
  let (numerator, denominator) := b.quarter
  let value := 4 * b.mantissa * numerator * 10 ^ (-exponent).toNat
  let unit := denominator * 10 ^ exponent.toNat
  let lower := value / unit
  let rest := value % unit
  let upper : Digits := ⟨lower + 1, exponent⟩
  let lower : Digits := ⟨lower, exponent⟩
  if 2 * rest < unit ∨ (2 * rest = unit ∧ tie = .toEven ∧ lower.digits % 2 = 0) then [lower, upper]
  else [upper, lower]

/-- The first power of ten, from coarse to fine, that has a neighbour read as the number. -/
def search (b : Binary) (tie : Tie) : (fuel : Nat) → (exponent : Int) → Digits
  | 0, exponent => ⟨0, exponent⟩
  | fuel + 1, exponent =>
    match (b.neighbours tie exponent).find? (fun d => d.digits ≠ 0 && b.covers d) with
    | some d => d
    | none => search b tie fuel (exponent - 1)

def shortest (b : Binary) (tie : Tie) : Digits := search b tie 660 309

end Binary

/-- Numbers from `10 ^ plainFrom` up to but without `10 ^ plainBelow` are written in positions, with
one decimal at least; others with an exponent. -/
structure Style where
  plainFrom : Int
  plainBelow : Int
  tie : Tie

namespace Style

def layout (s : Style) (d : Digits) : String :=
  let digits := Nat.toDigits 10 d.digits
  let point : Int := digits.length + d.exponent
  if s.plainFrom < point ∧ point ≤ s.plainBelow then
    if point ≤ 0 then "0." ++ String.ofList (List.replicate (-point).toNat '0' ++ digits)
    else
      let whole := digits.take point.toNat ++ List.replicate d.exponent.toNat '0'
      let fraction := digits.drop point.toNat
      String.ofList whole ++ "." ++ (if fraction.isEmpty then "0" else String.ofList fraction)
  else
    let fraction := digits.drop 1
    String.ofList (digits.take 1) ++ (if fraction.isEmpty then "" else "." ++ String.ofList fraction) ++
      "e" ++ toString (point - 1)

def render (s : Style) (x : Float) : String :=
  if x.isNaN then "NaN"
  else
    let sign := if x.toBits.toNat < 2 ^ 63 then "" else "-"
    if x.isInf then sign ++ "inf"
    else if x == 0 then sign ++ "0.0"
    else sign ++ s.layout ((Binary.ofFloat x).shortest s.tie)

end Style

end LogReplica.Decimal
