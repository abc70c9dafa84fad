import ConfigDoc.Number.Basic
import ConfigDoc.Text.Natural

namespace ConfigDoc.Number

def decimalLength (n : Nat) : Nat := (Nat.toDigits 10 n).length

def powerOfTen (n : Nat) : Nat := Nat.pow 10 n

/-- The double nearest to `digits · 10 ^ exponent`. Magnitudes far outside the range of doubles are
told apart by their length, so that no power of ten is computed for them. -/
def ofDecimal (negative : Bool) (digits : Nat) (exponent : Int) : Number :=
  let leading := (decimalLength digits : Int) + exponent
  if digits = 0 ∨ leading < -330 then ofParts negative 0 0
  else if 310 < leading then .infinite negative
  else nearest negative (digits * powerOfTen exponent.toNat * unitsPerOne)
    (powerOfTen (-exponent).toNat)

def splitSign : List Char → Bool × List Char
  | '-' :: rest => (true, rest)
  | '+' :: rest => (false, rest)
  | cs => (false, cs)

/-- The exponent part of a numeral, which is empty or `e` with an integer. -/
def exponentOfText? : List Char → Option Int
  | [] => some 0
  | mark :: rest =>
    let (negative, digits) := splitSign rest
    if (mark = 'e' ∨ mark = 'E') ∧ digits ≠ [] ∧ digits.all Char.isDigit then
      let magnitude := Int.ofNat (Text.digitsValue digits)
      some (if negative then -magnitude else magnitude)
    else none

/-- An unsigned decimal numeral: digits with at most one point among them, and an exponent. -/
def magnitudeOfText? (negative : Bool) (cs : List Char) : Option Number :=
  let whole := cs.takeWhile Char.isDigit
  let afterWhole := cs.dropWhile Char.isDigit
  let (fraction, exponentText) :=
    match afterWhole with
    | '.' :: rest => (rest.takeWhile Char.isDigit, rest.dropWhile Char.isDigit)
    | _ => ([], afterWhole)
  if whole = [] ∧ fraction = [] then none
  else (exponentOfText? exponentText).map fun exponent =>
    ofDecimal negative (Text.digitsValue (whole ++ fraction)) (exponent - fraction.length)

/-- A number from its text: a decimal numeral, or one of the words for infinity and NaN in any case
of letters, with an optional sign in front. -/
def ofText? (s : String) : Option Number :=
  let (negative, rest) := splitSign s.toList
  let word := String.ofList (rest.map Char.toLower)
  if word = "nan" then some .nan
  else if word = "inf" ∨ word = "infinity" then some (.infinite negative)
  else magnitudeOfText? negative rest

end ConfigDoc.Number
