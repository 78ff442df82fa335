import LogReplica.Power

namespace LogReplica

structure Duration where
  nanoseconds : Nat
deriving DecidableEq

namespace Duration

def perSecond : Nat := 1000000000

def zero : Duration := ⟨0⟩

def ofParts (seconds nanoseconds : Nat) : Duration := ⟨seconds * perSecond + nanoseconds⟩

def ofMilliseconds (n : Nat) : Duration := ⟨n * 1000000⟩

def seconds (d : Duration) : Nat := d.nanoseconds / perSecond

def subsecond (d : Duration) : Nat := d.nanoseconds % perSecond

def secondsLimit : Nat := 2 ^ 64

def toFloat (d : Duration) : Float :=
  (UInt64.ofNat d.seconds).toFloat + (UInt64.ofNat d.subsecond).toFloat / (UInt64.ofNat perSecond).toFloat

def divideToEven (numerator denominator : Nat) : Nat :=
  let quotient := numerator / denominator
  let rest := numerator % denominator
  if 2 * rest < denominator then quotient
  else if denominator < 2 * rest then quotient + 1
  else if quotient % 2 = 0 then quotient else quotient + 1

/-- Splits a finite number that is not negative into `m` and `e` with the value `m * 2 ^ (e - 1075)`. -/
def significand (x : Float) : Nat × Nat :=
  let bits := x.toBits.toNat % 2 ^ 63
  let fraction := bits % 2 ^ 52
  let exponent := bits / 2 ^ 52
  if exponent = 0 then (fraction, 1) else (fraction + 2 ^ 52, exponent)

/-- The nearest nanosecond, or nothing for a negative number, a number of 2^64 and more, or none at all. -/
def ofFloat? (x : Float) : Option Duration :=
  if x < 0 then none
  else if x < 18446744073709551616 then
    let (m, e) := significand x
    let nanoseconds :=
      if 1075 ≤ e then m * 2 ^ (e - 1075) * perSecond
      else divideToEven (m * perSecond) (2 ^ (1075 - e))
    if nanoseconds < secondsLimit * perSecond then some ⟨nanoseconds⟩ else none
  else none

def fractionDigits (width n : Nat) : List Char :=
  let digits := Nat.toDigits 10 n
  let padded := List.replicate (width - digits.length) '0' ++ digits
  (padded.reverse.dropWhile (· = '0')).reverse

def decimal (whole width fraction : Nat) : String :=
  let digits := fractionDigits width fraction
  Nat.repr whole ++ (if digits.isEmpty then "" else "." ++ String.ofList digits)

/-- The largest unit that the span reaches, with as many decimals as are needed. -/
def toString (d : Duration) : String :=
  let n := d.nanoseconds
  if perSecond ≤ n then decimal d.seconds 9 d.subsecond ++ "s"
  else if 1000000 ≤ n then decimal (n / 1000000) 6 (n % 1000000) ++ "ms"
  else if 1000 ≤ n then decimal (n / 1000) 3 (n % 1000) ++ "µs"
  else Nat.repr n ++ "ns"

end Duration

end LogReplica
