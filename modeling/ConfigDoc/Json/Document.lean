import ConfigDoc.Error
import ConfigDoc.Json.Basic
import ConfigDoc.Number.Arithmetic
import ConfigDoc.Value.Basic

namespace ConfigDoc

namespace Number

/-- Below this magnitude a whole number is written as an integer: up to there every integer is a
double. -/
def safeInteger : Number := ofInt (Int.ofNat significandBound)

def toJson (x : Number) : Json :=
  if x.isWhole && x.magnitude.below safeInteger then
    .integer (x.clamp Int64.minValue.toInt Int64.maxValue.toInt)
  else .decimal x

end Number

namespace Value

mutual

/-- The document as JSON, its members in document order; a waiting template is its source. -/
def toJson : Value → Json
  | .null => .null
  | .bool b => .bool b
  | .number x => x.toJson
  | .string s => .string s
  | .array items => .array (itemsToJson items)
  | .object members => .object (membersToJson members)
  | .template t => .string t.source
termination_by structural v => v

def itemsToJson : List Value → List Json
  | [] => []
  | v :: rest => toJson v :: itemsToJson rest
termination_by structural vs => vs

def membersToJson : List (String × Value) → List (String × Json)
  | [] => []
  | (name, v) :: rest => (name, toJson v) :: membersToJson rest
termination_by structural ms => ms

end

/-- The document as a JSON value, made by a store that may refuse it. -/
def exportJson (store : Json → Except String Json) (v : Value) : Except Error Json :=
  (store v.toJson).mapError fun reason =>
    .typeMismatch ("Failed to convert document to JSON: " ++ reason) none

mutual

/-- The document of a JSON value; integers become the nearest double. -/
def ofJson : Json → Value
  | .null => .null
  | .bool b => .bool b
  | .integer i => .number (Number.ofInt i)
  | .decimal x => .number x
  | .string s => .string s
  | .array items => .array (itemsOfJson items)
  | .object members => .object (membersOfJson members)
termination_by structural j => j

def itemsOfJson : List Json → List Value
  | [] => []
  | j :: rest => ofJson j :: itemsOfJson rest
termination_by structural js => js

def membersOfJson : List (String × Json) → List (String × Value)
  | [] => []
  | (name, j) :: rest => (name, ofJson j) :: membersOfJson rest
termination_by structural ms => ms

end

def compactText (v : Value) : String := v.toJson.compact

def prettyText (v : Value) : String := v.toJson.pretty

end Value

end ConfigDoc
