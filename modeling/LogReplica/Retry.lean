import LogReplica.Duration

namespace LogReplica

structure RetryPolicy where
  maxAttempts : Option Nat
  initialDelay : Duration
  maxDelay : Duration
  multiplier : Float
  jitter : Bool

namespace RetryPolicy

def unbounded : RetryPolicy := ⟨none, .zero, .zero, 1, false⟩

def bounded (attempts : Nat) : RetryPolicy :=
  ⟨some (max attempts 1), .ofMilliseconds 1, .ofMilliseconds 500, 2, true⟩

def allows (p : RetryPolicy) (attempts : Nat) : Bool := p.maxAttempts.all (attempts < ·)

/-- Repeated squaring over the binary digits of `n`, lowest first. -/
def power : (digits : Nat) → (result base : Float) → (n : Nat) → Float
  | 0, result, _, _ => result
  | digits + 1, result, base, n =>
    let result := if n % 2 = 1 then result * base else result
    if n < 2 then result else power digits result (base * base) (n / 2)

/-- The exponent is taken as a signed word of 32 bits; a negative one gives the reciprocal. -/
def powerSigned (base : Float) (n : Nat) : Float :=
  if n < 2 ^ 31 then power 32 1 base n else 1 / power 32 1 base (2 ^ 32 - n)

def lesser (a b : Float) : Float :=
  if a.isNaN then b else if b.isNaN then a else if a < b then a else b

def delaySeconds (p : RetryPolicy) (attempt : Nat) : Float :=
  lesser (p.initialDelay.toFloat * powerSigned p.multiplier (attempt - 1)) p.maxDelay.toFloat

/-- The wait before an attempt without jitter; none if it is negative or too long to count. -/
def delay? (p : RetryPolicy) (attempt : Nat) : Option Duration :=
  if attempt = 0 ∨ p.initialDelay = .zero then some .zero
  else Duration.ofFloat? (p.delaySeconds attempt)

end RetryPolicy

structure Config where
  readBuffer : Nat
  retry : RetryPolicy

namespace Config

def default : Config := ⟨256 * 1024, .unbounded⟩

def withReadBuffer (c : Config) (size : Nat) : Config := { c with readBuffer := max size 1 }

def withRetry (c : Config) (retry : RetryPolicy) : Config := { c with retry := retry }

end Config

end LogReplica
