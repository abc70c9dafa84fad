/-! Double-precision numbers, held as exact multiples of the smallest positive one. -/

namespace ConfigDoc

namespace Number

/-- The smallest positive double is `2 ^ -1074`; this many of them make one. -/
def unitsPerOne : Nat := 1 <<< 1074

/-- The significands of normal magnitudes have this bit as their highest. -/
def leadingBit : Nat := 1 <<< 52

def significandBound : Nat := 1 <<< 53

/-- A significand and a shift in the one form that each finite magnitude has: at most 53 bits, and
all 53 of them used unless the magnitude is too small. -/
def Canonical (significand shift : Nat) : Prop :=
  significand < significandBound ∧ shift ≤ 2045 ∧ (shift = 0 ∨ leadingBit ≤ significand)

instance (significand shift : Nat) : Decidable (Canonical significand shift) :=
  inferInstanceAs (Decidable (_ ∧ _ ∧ _))

end Number

/-- A double-precision number; a finite one is `significand · 2 ^ shift` units, and a zero keeps its
sign. -/
inductive Number where
  | nan
  | infinite (negative : Bool)
  | finite (negative : Bool) (significand shift : Nat)
      (canonical : Number.Canonical significand shift)
  deriving DecidableEq

namespace Number

/-- The finite number of a significand and a shift, or the infinity where the shift is too large. -/
def ofParts (negative : Bool) (significand shift : Nat) : Number :=
  if h : Canonical significand shift then .finite negative significand shift h
  else .infinite negative

def divideToEven (numerator denominator : Nat) : Nat :=
  let quotient := numerator / denominator
  let twice := 2 * (numerator % denominator)
  if denominator < twice ∨ (twice = denominator ∧ quotient % 2 = 1) then quotient + 1
  else quotient

/-- The double nearest to `numerator / denominator` units. -/
def nearest (negative : Bool) (numerator denominator : Nat) : Number :=
  let shift := Nat.log2 (numerator / denominator) - 52
  let significand := divideToEven numerator (denominator <<< shift)
  if significand = significandBound then ofParts negative leadingBit (shift + 1)
  else ofParts negative significand shift

def ofInt (i : Int) : Number := nearest (decide (i < 0)) (i.natAbs * unitsPerOne) 1

/-- The exact value of a finite number, in units. -/
def units? : Number → Option Int
  | .finite negative significand shift _ =>
    let magnitude : Int := Int.ofNat (significand <<< shift)
    some (if negative then -magnitude else magnitude)
  | _ => none

/-- Equality of values: a zero equals the other zero, and NaN equals nothing. -/
def equal : Number → Number → Bool
  | .infinite a, .infinite b => a == b
  | x, y =>
    match x.units?, y.units? with
    | some u, some v => u == v
    | _, _ => false

def toBits : Number → UInt64
  | .nan => 0x7ff8000000000000
  | .infinite negative => if negative then 0xfff0000000000000 else 0x7ff0000000000000
  | .finite negative significand shift _ =>
    UInt64.ofNat ((if negative then 1 <<< 63 else 0) + shift * leadingBit + significand)

/-- The number of a 64-bit interchange encoding; all NaNs are one. -/
def ofBits (bits : UInt64) : Number :=
  let negative := decide (1 <<< 63 ≤ bits.toNat)
  let field := bits.toNat / leadingBit % 2048
  let fraction := bits.toNat % leadingBit
  if field = 2047 then (if fraction = 0 then .infinite negative else .nan)
  else if field = 0 then ofParts negative fraction 0
  else ofParts negative (leadingBit + fraction) (field - 1)

end Number

end ConfigDoc
