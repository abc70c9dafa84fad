import ConfigDoc.Number.Shortest

namespace ConfigDoc.Number

structure Layout where
  tie : Tie
  /-- Whether a leading digit at this exponent is written without an exponent part. -/
  positional : Int → Bool
  /-- What follows a whole number that is written without an exponent part. -/
  wholeEnding : List Char
  positiveExponent : List Char

namespace Layout

def plain : Layout := ⟨.up, fun _ => true, [], []⟩

/-- Always told from an integer: by a point, or by an exponent from `1e16` up and below `1e-4`. -/
def typed : Layout := ⟨.up, fun e => -4 ≤ e && e < 16, ['.', '0'], []⟩

/-- The form of a JSON number that is no safe integer. -/
def json : Layout := ⟨.even, fun e => -5 ≤ e && e < 16, ['.', '0'], ['+']⟩

def zeros (n : Nat) : List Char := List.replicate n '0'

def writePositional (layout : Layout) (digits : List Char) (exponent : Int) : List Char :=
  let point := (digits.length : Int) + exponent
  if 0 ≤ exponent then digits ++ zeros exponent.toNat ++ layout.wholeEnding
  else if 0 < point then digits.take point.toNat ++ ['.'] ++ digits.drop point.toNat
  else ['0', '.'] ++ zeros (-point).toNat ++ digits

def writeScientific (layout : Layout) (digits : List Char) (leading : Int) : List Char :=
  let fraction := if digits.length ≤ 1 then [] else '.' :: digits.drop 1
  let sign := if leading < 0 then ['-'] else layout.positiveExponent
  digits.take 1 ++ fraction ++ ['e'] ++ sign ++ Nat.toDigits 10 leading.natAbs

def writeDecimal (layout : Layout) (d : Decimal) : List Char :=
  let digits := Nat.toDigits 10 d.digits
  if d.digits = 0 ∨ layout.positional d.leadingExponent then
    layout.writePositional digits d.exponent
  else layout.writeScientific digits d.leadingExponent

def write (layout : Layout) : Number → String
  | .nan => "NaN"
  | .infinite negative => if negative then "-inf" else "inf"
  | .finite negative significand shift _ =>
    let digits := layout.writeDecimal (shortestDecimal layout.tie significand shift)
    String.ofList (if negative then '-' :: digits else digits)

end Layout

def text (x : Number) : String := Layout.plain.write x

example : (ofText? "1e21").map text = some "1000000000000000000000" := by decide +kernel

example : (ofText? "-0.00000015").map text = some "-0.00000015" := by decide +kernel

example : (ofText? "5e-324").map Layout.typed.write = some "5e-324" := by decide +kernel

example : (ofText? "9999999999999998").map Layout.typed.write = some "9999999999999998.0" := by
  decide +kernel

example : (ofText? "123456789012345678901").map Layout.json.write = some "1.2345678901234568e+20" := by
  decide +kernel

end ConfigDoc.Number
