import ConfigDoc.Number.Basic

/-! Order, sums and whole parts of doubles. A result that no double holds is rounded to the nearest
one. -/

namespace ConfigDoc.Number

/-- The double nearest to a number of units; a zero has no sign of its own and takes the given one. -/
def ofUnits (negative : Bool) (u : Int) : Number :=
  nearest (if u = 0 then negative else decide (u < 0)) u.natAbs 1

def zero : Number := ofInt 0

def one : Number := ofInt 1

def negate : Number → Number
  | .nan => .nan
  | .infinite negative => .infinite !negative
  | .finite negative significand shift canonical =>
    .finite (!negative) significand shift canonical

def magnitude : Number → Number
  | .nan => .nan
  | .infinite _ => .infinite false
  | .finite _ significand shift canonical => .finite false significand shift canonical

/-- Whether a number is less than another one; NaN is in order with nothing. -/
def below : Number → Number → Bool
  | .infinite a, .infinite b => a && !b
  | .infinite a, .finite .. => a
  | .finite .., .infinite b => !b
  | x, y =>
    match x.units?, y.units? with
    | some u, some v => u < v
    | _, _ => false

def atMost (x y : Number) : Bool := x.below y || x.equal y

/-- A sum of finite numbers is rounded once. Opposite infinities have none, and two zeros give a
negative zero only if both are. -/
def add : Number → Number → Number
  | .infinite a, .infinite b => if a = b then .infinite a else .nan
  | .infinite a, .finite .. => .infinite a
  | .finite .., .infinite b => .infinite b
  | .finite a m i h, .finite b n j h' =>
    match (Number.finite a m i h).units?, (Number.finite b n j h').units? with
    | some u, some v => ofUnits (a && b) (u + v)
    | _, _ => .nan
  | _, _ => .nan

def subtract (x y : Number) : Number := x.add y.negate

def truncate : Number → Number
  | .finite negative significand shift _ =>
    nearest negative ((significand <<< shift) / unitsPerOne * unitsPerOne) 1
  | x => x

/-- What rounding toward zero takes away; of an infinity this is NaN. -/
def fraction (x : Number) : Number := x.subtract x.truncate

def isWhole (x : Number) : Bool := x.fraction.equal zero

/-- The integer part, kept between two bounds; NaN gives zero. -/
def clamp (low high : Int) : Number → Int
  | .nan => 0
  | .infinite negative => if negative then low else high
  | .finite negative significand shift _ =>
    let whole := Int.ofNat ((significand <<< shift) / unitsPerOne)
    max low (min high (if negative then -whole else whole))

example : (ofInt (2 ^ 64 - 1)).add one = ofInt (2 ^ 64) := by decide +kernel

example : (Number.infinite false).fraction = .nan := by decide +kernel

end ConfigDoc.Number
