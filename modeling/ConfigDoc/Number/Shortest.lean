import ConfigDoc.Number.Numeral

namespace ConfigDoc.Number

/-- A decimal `digits · 10 ^ exponent`. -/
structure Decimal where
  digits : Nat
  exponent : Int
  deriving DecidableEq

namespace Decimal

/-- Removes trailing zeros from the digits, at most as many as `bound`. -/
def stripZeros : Nat → Decimal → Decimal
  | bound + 1, ⟨digits, exponent⟩ =>
    if digits % 10 = 0 ∧ digits ≠ 0 then stripZeros bound ⟨digits / 10, exponent + 1⟩
    else ⟨digits, exponent⟩
  | 0, d => d

def leadingExponent (d : Decimal) : Int := (decimalLength d.digits : Int) - 1 + d.exponent

end Decimal

/-- Which of two equally near decimals is taken. -/
inductive Tie where
  | up
  | even
  deriving DecidableEq

/-- A magnitude with the interval of magnitudes that round to it, all in quarters of a unit; the
ends belong to the interval exactly when the significand is even. -/
structure Rounding where
  low : Nat
  centre : Nat
  high : Nat
  closed : Bool

/-- The interval of a canonical magnitude. Below a power of two the neighbour is half as far. -/
def Rounding.ofParts (significand shift : Nat) : Rounding :=
  let unit := 1 <<< shift
  let below := if significand = leadingBit ∧ 0 < shift then unit else 2 * unit
  { low := 4 * significand * unit - below
    centre := 4 * significand * unit
    high := 4 * significand * unit + 2 * unit
    closed := significand % 2 = 0 }

namespace Rounding

def contains (r : Rounding) (point scale : Nat) : Bool :=
  if r.closed then r.low * scale ≤ point && point ≤ r.high * scale
  else r.low * scale < point && point < r.high * scale

/-- The best multiple of `10 ^ exponent` that rounds to the magnitude, if there is one: only the two
neighbours of the magnitude on that grid can be nearest. -/
def onGrid? (r : Rounding) (tie : Tie) (exponent : Int) : Option Decimal :=
  let step := powerOfTen exponent.toNat * (4 * unitsPerOne)
  let scale := powerOfTen (-exponent).toNat
  let target := r.centre * scale
  let lower := target / step
  let upper := lower + 1
  let lowerFits := r.contains (lower * step) scale
  let upperFits := r.contains (upper * step) scale
  let fromLower := target - lower * step
  let fromUpper := upper * step - target
  let lowerNearer :=
    fromLower < fromUpper || (fromLower == fromUpper && tie == .even && lower % 2 == 0)
  if lowerFits && (lowerNearer || !upperFits) then some ⟨lower, exponent⟩
  else if upperFits then some ⟨upper, exponent⟩
  else none

/-- The exponent of the leading digit of the magnitude. The factor makes every positive magnitude
at least one, so that its whole part has a digit to count. -/
def leadingExponent (r : Rounding) : Int :=
  (decimalLength (r.centre * powerOfTen 324 / (4 * unitsPerOne)) : Int) - 1 - 324

/-- The coarsest grid with a point in the interval; seventeen digits always suffice. -/
def shortest (r : Rounding) (tie : Tie) : Decimal :=
  let leading := r.leadingExponent
  let found := (List.range 17).findSome? fun (extra : Nat) => r.onGrid? tie (leading - extra)
  (found.getD ⟨0, 0⟩).stripZeros 400

end Rounding

def shortestDecimal (tie : Tie) (significand shift : Nat) : Decimal :=
  if significand = 0 then ⟨0, 0⟩ else (Rounding.ofParts significand shift).shortest tie

end ConfigDoc.Number
