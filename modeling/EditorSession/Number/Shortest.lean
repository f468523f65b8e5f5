import EditorSession.Bytes
import EditorSession.Number.Binary64

/-! The shortest decimal text that reads back as a given double. Among the decimals of the least
digit count inside the rounding interval the nearest is taken, an exact tie going to the even one.
Everything is scaled to integers, so no step rounds. -/

namespace EditorSession.Number

/-- `coefficient * 10 ^ exponent`. -/
structure Decimal where
  coefficient : Nat
  exponent : Int
deriving DecidableEq

/-- Moves trailing zeros of a positive coefficient into the exponent. -/
def Decimal.strip (d : Decimal) : Decimal :=
  if h : d.coefficient ≠ 0 ∧ d.coefficient % 10 = 0 then
    Decimal.strip ⟨d.coefficient / 10, d.exponent + 1⟩
  else d
termination_by d.coefficient
decreasing_by exact Nat.div_lt_self (Nat.pos_of_ne_zero h.1) (by decide)

/-- Magnitudes are scaled by `2 ^ 1076 * 10 ^ 350`: quarter quanta, and every decimal grid in use,
are then whole numbers. -/
structure Interval where
  value : Nat
  low : Nat
  high : Nat
  /-- Whether the ends themselves round to the value. -/
  closed : Bool

/-- The decimals that round to `x`. Below a power of two the spacing halves. -/
def Interval.ofBinary64 (x : Binary64) : Interval :=
  let quarter := Nat.pow 2 x.scale * Nat.pow 10 350
  let value := 4 * x.significand * quarter
  let below := if x.significand = Nat.pow 2 52 ∧ 0 < x.scale then quarter else 2 * quarter
  ⟨value, value - below, value + 2 * quarter, x.significand % 2 = 0⟩

def Interval.holds (i : Interval) (n : Nat) : Bool :=
  if i.closed then i.low ≤ n && n ≤ i.high else i.low < n && n < i.high

/-- The better of the two neighbours of the value on the grid of step `unit`, if one of them lies in
the interval. -/
def Interval.onGrid? (i : Interval) (unit : Nat) : Option Nat :=
  let below := i.value / unit
  let rest := i.value % unit
  let lowFits := i.holds (below * unit)
  let highFits := i.holds ((below + 1) * unit)
  if lowFits ∧ highFits then
    if 2 * rest < unit ∨ (2 * rest = unit ∧ below % 2 = 0) then some below else some (below + 1)
  else if lowFits then some below
  else if highFits then some (below + 1)
  else none

/-- Tries grids of one more digit at a time; seventeen digits always suffice. -/
def Interval.search (i : Interval) (top : Int) : Nat → Nat → Decimal
  | 0, _ => ⟨0, 0⟩
  | fuel + 1, digits =>
    let exponent := top - digits + 1
    match i.onGrid? (Nat.pow 2 1076 * Nat.pow 10 (exponent + 350).toNat) with
    | some n => ⟨n, exponent⟩
    | none => i.search top fuel (digits + 1)

/-- The shortest decimal that reads back as the magnitude of a finite `x`. -/
def shortest (x : Binary64) : Decimal :=
  if x.significand = 0 then ⟨0, 0⟩
  else
    let i := Interval.ofBinary64 x
    let top : Int := Binary64.digitCount (i.value / Nat.pow 2 1076) - 1 - 350
    (i.search top 17 1).strip

/-- Leading exponents from `-4` up to `15` are written positionally, others with an exponent of at
least two digits; a whole number has no point. -/
def Decimal.text (d : Decimal) : Bytes :=
  let digits := Bytes.decimal d.coefficient
  let leading : Int := d.exponent + (digits.length - 1 : Nat)
  if -4 ≤ leading ∧ leading < 16 then
    if 0 ≤ d.exponent then digits ++ List.replicate d.exponent.toNat 48
    else if 0 ≤ leading then
      digits.take (leading.toNat + 1) ++ 46 :: digits.drop (leading.toNat + 1)
    else 48 :: 46 :: List.replicate (-leading - 1).toNat 48 ++ digits
  else
    let mantissa := match digits with
      | first :: second :: rest => first :: 46 :: second :: rest
      | short => short
    let magnitude := Bytes.decimal leading.natAbs
    let padded := if magnitude.length < 2 then 48 :: magnitude else magnitude
    mantissa ++ 101 :: (if leading < 0 then 45 else 43) :: padded

/-- The text of a finite double; zero keeps its sign. -/
def text (x : Binary64) : Bytes :=
  let magnitude := (shortest x).text
  if x.isNegative then 45 :: magnitude else magnitude

end EditorSession.Number
