namespace ConfigDoc.Text

def digitsValue (digits : List Char) : Nat :=
  digits.foldl (fun value c => 10 * value + (c.toNat - '0'.toNat)) 0

/-- Reads digits after at most one plus sign; at least one digit has to be there. -/
def natural? (cs : List Char) : Option Nat :=
  let digits :=
    match cs with
    | '+' :: rest => rest
    | _ => cs
  if digits ≠ [] ∧ digits.all Char.isDigit then some (digitsValue digits) else none

end ConfigDoc.Text
