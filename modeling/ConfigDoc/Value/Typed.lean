import ConfigDoc.Error
import ConfigDoc.Number.Arithmetic
import ConfigDoc.Number.Layout
import ConfigDoc.Value.Lookup

namespace ConfigDoc

inductive Width where
  | short
  | long
  | word
  deriving DecidableEq

namespace Width

def name : Width → String
  | short => "u16"
  | long => "u32"
  | word => "usize"

def bound : Width → Nat
  | short => UInt16.size
  | long => UInt32.size
  | word => UInt64.size

/-- The largest number of the width as a double, which for words is a power of two. -/
def largest (width : Width) : Number := Number.ofInt (Int.ofNat (width.bound - 1))

end Width

inductive Shape where
  | string
  | number
  | integer
  | natural (width : Width)
  | bool
  | table
  | list (item : Shape)
  | optional (inner : Shape)
  deriving DecidableEq

namespace Shape

def Carrier : Shape → Type
  | string => String
  | number => Number
  | integer => Int
  | natural _ => Nat
  | bool => Bool
  | table => Table Value
  | list item => List item.Carrier
  | optional inner => Option inner.Carrier

end Shape

namespace Value

def unexpectedType (expected hint : String) (v : Value) : Error :=
  .typeMismatch ("Expected " ++ expected ++ ", got " ++ v.typeName) (some hint)

def numberHint : String := "Use a number value in your document"

/-- The bounds of integers with a sign, as doubles; the upper one is rounded up, out of the range. -/
def leastInteger : Number := Number.ofInt Int64.minValue.toInt

def greatestInteger : Number := Number.ofInt Int64.maxValue.toInt

def toInteger : Value → Except Error Int
  | .number x =>
    if x.isWhole && leastInteger.atMost x && x.below greatestInteger then
      .ok (x.clamp Int64.minValue.toInt Int64.maxValue.toInt)
    else if !x.isWhole then
      .error (.typeMismatch ("Number " ++ x.text ++ " is not a whole number")
        (some "Drop the fractional part"))
    else
      .error (.typeMismatch ("Number " ++ x.text ++ " out of range for i64")
        (some "Use a whole number that fits in 64 bits"))
  | v => .error (v.unexpectedType "number" numberHint)

def toNatural (width : Width) : Value → Except Error Nat
  | .number x =>
    if Number.zero.atMost x && x.below (width.largest.add .one) && x.isWhole then
      .ok (x.clamp 0 (Int.ofNat (width.bound - 1))).toNat
    else
      .error (.typeMismatch ("Number " ++ x.text ++ " out of range for " ++ width.name)
        (some ("Use a whole number between 0 and " ++ width.largest.text)))
  | v => .error (v.unexpectedType "number" numberHint)

def booleanWords : List String := ["true", "false", "yes", "no"]

def toBoolean : Value → Except Error Bool
  | .bool b => .ok b
  | .string s =>
    if s ∈ booleanWords then
      .error (.typeMismatch ("Expected boolean, got the string '" ++ s ++ "'")
        (some "Drop the quotes: booleans are true/false/yes/no"))
    else .error ((Value.string s).unexpectedType "boolean" "Use true/false or yes/no")
  | v => .error (v.unexpectedType "boolean" "Use true/false or yes/no")

/-- A value as a host type. Only an option takes null; the first part that does not fit is
reported. -/
def toShape : (shape : Shape) → Value → Except Error shape.Carrier
  | .string, v =>
    match v with
    | .string s => .ok s
    | v => .error (v.unexpectedType "string" "Use a string value in your document")
  | .number, v =>
    match v with
    | .number x => .ok x
    | v => .error (v.unexpectedType "number" numberHint)
  | .integer, v => v.toInteger
  | .natural width, v => v.toNatural width
  | .bool, v => v.toBoolean
  | .table, v =>
    match v with
    | .object members => .ok members
    | v => .error (v.unexpectedType "object" "Use a block or a map in your document")
  | .list item, v =>
    match v with
    | .array items => items.mapM fun w => w.toShape item
    | v => .error (v.unexpectedType "array" "Use an array [...] in your document")
  | .optional inner, v =>
    match v with
    | .null => .ok none
    | v => some <$> v.toShape inner

def require (v : Value) (path : String) : Except Error Value :=
  match v.get? path with
  | some w => .ok w
  | none => .error (.missingPath path)

/-- Adds the path that was asked for to a report of a wrong type. -/
def locate (path : String) : Error → Error
  | .typeMismatch message hint => .typeMismatch (message ++ " at '" ++ path ++ "'") hint
  | e => e

def getAs (v : Value) (shape : Shape) (path : String) : Except Error shape.Carrier := do
  let w ← v.require path
  (w.toShape shape).mapError (locate path)

def getOptional (v : Value) (shape : Shape) (path : String) :
    Except Error (Option shape.Carrier) :=
  match v.getAs shape path with
  | .ok x => .ok (some x)
  | .error (.missingPath _) => .ok none
  | .error e => .error e

def getOr (v : Value) (shape : Shape) (path : String) (instead : shape.Carrier) : shape.Carrier :=
  match v.getAs shape path with
  | .ok x => x
  | .error _ => instead

def getKeys (v : Value) (path : String) : Except Error (List String) := do
  match ← v.require path with
  | .object members => pure (Table.names members)
  | w => throw (.typeMismatch ("Path '" ++ path ++ "' is a " ++ w.typeName ++ ", not an object")
      (some "Only blocks and maps have keys"))

def has (v : Value) (path : String) : Bool := (v.get? path).isSome

end Value

end ConfigDoc
