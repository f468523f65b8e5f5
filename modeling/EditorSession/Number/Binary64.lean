/-! Double-precision numbers as bit patterns. All arithmetic is exact: a finite magnitude is a
significand times a power of two, counted in quanta of `2 ^ -1074`. -/

namespace EditorSession

/-- A double-precision number given by its sixty-four bits. -/
structure Binary64 where
  bits : UInt64
deriving DecidableEq, Inhabited

namespace Binary64

def isNegative (x : Binary64) : Bool := Nat.pow 2 63 ≤ x.bits.toNat

def exponentField (x : Binary64) : Nat := x.bits.toNat / Nat.pow 2 52 % Nat.pow 2 11

def fraction (x : Binary64) : Nat := x.bits.toNat % Nat.pow 2 52

def isFinite (x : Binary64) : Bool := x.exponentField < 2047

/-- The integer that `2 ^ scale` multiplies. -/
def significand (x : Binary64) : Nat :=
  if x.exponentField = 0 then x.fraction else x.fraction + Nat.pow 2 52

/-- The magnitude of a finite number is `significand * 2 ^ scale` quanta of `2 ^ -1074`. -/
def scale (x : Binary64) : Nat := x.exponentField - 1

/-- The magnitude in quanta of `2 ^ -1074`. -/
def quanta (x : Binary64) : Nat := x.significand * Nat.pow 2 x.scale

/-- The exact value of a finite whole number that fits a signed 64-bit integer. -/
def toInt64? (x : Binary64) : Option Int64 :=
  if x.isFinite ∧ x.quanta % Nat.pow 2 1074 = 0 then
    let magnitude : Int := (x.quanta / Nat.pow 2 1074 : Nat)
    let value := if x.isNegative then -magnitude else magnitude
    if Int64.minValue.toInt ≤ value ∧ value ≤ Int64.maxValue.toInt then some (Int64.ofInt value)
    else none
  else none

/-- Assembles a number from its sign and the pattern of its magnitude. -/
def ofMagnitude (negative : Bool) (pattern : Nat) : Binary64 :=
  ⟨UInt64.ofNat (if negative then Nat.pow 2 63 + pattern else pattern)⟩

/-- The magnitude pattern nearest to `num / den` quanta, ties to the even pattern. A pattern counts
upward through all magnitudes, so a significand that rounds up to the next power of two carries into
the exponent by itself. -/
def nearestPattern (num den : Nat) : Nat :=
  let shift := (num / den).log2 - 52
  let unit := den * Nat.pow 2 shift
  let low := num / unit
  let rest := num % unit
  let rounded := if 2 * rest > unit ∨ (2 * rest = unit ∧ low % 2 = 1) then low + 1 else low
  shift * Nat.pow 2 52 + rounded

/-- Whether `num / den` quanta stay below the least normal number even when rounded to a full
significand with an unbounded exponent range. -/
def isTiny (num den : Nat) : Bool := 4 * num < (Nat.pow 2 54 - 1) * den

/-- A tiny magnitude counts as exact when it is a whole number of quanta. One remainder is disregarded:
a quarter of a quantum on top of fifty-two significant bits, the single bit that follows a full
significand. Below that binade the bit after a full significand is finer than a quarter, and makes the
magnitude inexact like any other remainder. -/
def tinyQuanta? (num den : Nat) : Option Nat :=
  let whole := num / den
  let rest := num % den
  if rest = 0 ∨ (Nat.pow 2 51 ≤ whole ∧ 4 * rest = den) then some whole else none

/-- The number nearest to `± num / den` quanta. Refused are magnitudes that round to `2 ^ 1024` or
more, and tiny ones that are not exact. -/
def ofRatio? (negative : Bool) (num den : Nat) : Option Binary64 :=
  if isTiny num den then (tinyQuanta? num den).map (ofMagnitude negative)
  else
    let pattern := nearestPattern num den
    if 2047 * Nat.pow 2 52 ≤ pattern then none else some (ofMagnitude negative pattern)

/-- Decimal digits of `n`; one for zero. -/
def digitCount (n : Nat) : Nat := if n < 10 then 1 else digitCount (n / 10) + 1
termination_by n

/-- The number nearest to `± mantissa * 10 ^ exponent`, refused as in `ofRatio?`. Exponents far
outside the range are refused before any power is computed. -/
def ofDecimal? (negative : Bool) (mantissa : Nat) (exponent : Int) : Option Binary64 :=
  if mantissa = 0 then some (ofMagnitude negative 0)
  else
    let leading := exponent + digitCount mantissa
    if leading > 310 ∨ leading < -330 then none
    else
      ofRatio? negative (mantissa * Nat.pow 10 exponent.toNat * Nat.pow 2 1074)
        (Nat.pow 10 (-exponent).toNat)

end Binary64

end EditorSession
