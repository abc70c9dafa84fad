import ConfigDoc.Error
import ConfigDoc.Json.Document

namespace ConfigDoc

namespace Json

def asString? : Json → Option String
  | .string s => some s
  | _ => none

def asBool? : Json → Option Bool
  | .bool b => some b
  | _ => none

def asNumber? : Json → Option Number
  | .integer i => some (Number.ofInt i)
  | .decimal x => some x
  | _ => none

/-- An integer between two bounds, the upper one excluded. -/
def asInteger? (low high : Int) : Json → Option Int
  | .integer i => if low ≤ i ∧ i < high then some i else none
  | _ => none

def asList? {α : Type} (decode : Json → Option α) : Json → Option (List α)
  | .array items => items.mapM decode
  | _ => none

def asTable? {α : Type} (decode : Json → Option α) : Json → Option (Table α)
  | .object members => members.mapM fun (name, j) => (decode j).map fun a => (name, a)
  | _ => none

def asOptional? {α : Type} (decode : Json → Option α) : Json → Option (Option α)
  | .null => some none
  | j => (decode j).map some

/-- The fields of a record: members of an object that has all of them, or the items of an array of
just so many. -/
def asRecord? (fields : List String) : Json → Option (List Json)
  | .object members => fields.mapM fun field => Table.find? members field
  | .array items => if items.length = fields.length then some items else none
  | _ => none

end Json

def Value.decodeAs {α : Type} (decode : Json → Option α) (v : Value) : Except Error α := do
  let j ← v.exportJson Json.store
  match decode j with
  | some a => pure a
  | none =>
    throw (.typeMismatch "Document does not match the target type"
      (some "Check key names and value types against the struct"))

end ConfigDoc
