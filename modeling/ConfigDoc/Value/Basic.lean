import ConfigDoc.Number.Basic
import ConfigDoc.Table
import ConfigDoc.Template.Basic

namespace ConfigDoc

/-- A document or a part of one. Templates occur only while a document is being built. -/
inductive Value where
  | null
  | bool (b : Bool)
  | number (x : Number)
  | string (s : String)
  | array (items : List Value)
  | object (members : List (String × Value))
  | template (t : Template)

namespace Value

instance : Inhabited Value := ⟨null⟩

def empty : Value := .object []

def typeName : Value → String
  | null => "null"
  | bool _ => "boolean"
  | number _ => "number"
  | string _ => "string"
  | array _ => "array"
  | object _ => "object"
  | template _ => "interpolated string"

def isNull : Value → Bool
  | null => true
  | _ => false

def asString? : Value → Option String
  | string s => some s
  | _ => none

def asNumber? : Value → Option Number
  | number x => some x
  | _ => none

def asBool? : Value → Option Bool
  | bool b => some b
  | _ => none

def asArray? : Value → Option (List Value)
  | array items => some items
  | _ => none

def asObject? : Value → Option (Table Value)
  | object members => some members
  | _ => none

/-- Sets a member of an object; on anything else nothing changes. -/
def insert (v : Value) (name : String) (w : Value) : Value :=
  match v with
  | object members => object (Table.insert members name w)
  | other => other

mutual

def hasTemplate : Value → Bool
  | .template _ => true
  | .array items => anyTemplate items
  | .object members => anyMemberTemplate members
  | _ => false
termination_by structural v => v

def anyTemplate : List Value → Bool
  | [] => false
  | v :: rest => hasTemplate v || anyTemplate rest
termination_by structural vs => vs

def anyMemberTemplate : List (String × Value) → Bool
  | [] => false
  | (_, v) :: rest => hasTemplate v || anyMemberTemplate rest
termination_by structural ms => ms

end

mutual

def tokenKeys : Value → List String
  | .template t => t.tokenKeys
  | .array items => itemTokenKeys items
  | .object members => memberTokenKeys members
  | _ => []
termination_by structural v => v

def itemTokenKeys : List Value → List String
  | [] => []
  | v :: rest => tokenKeys v ++ itemTokenKeys rest
termination_by structural vs => vs

def memberTokenKeys : List (String × Value) → List String
  | [] => []
  | (_, v) :: rest => tokenKeys v ++ memberTokenKeys rest
termination_by structural ms => ms

end

mutual

def mapTemplates {ε : Type} (resolve : Template → Except ε Value) : Value → Except ε Value
  | .template t => resolve t
  | .array items => .array <$> mapItemTemplates resolve items
  | .object members => .object <$> mapMemberTemplates resolve members
  | v => pure v
termination_by structural v => v

def mapItemTemplates {ε : Type} (resolve : Template → Except ε Value) :
    List Value → Except ε (List Value)
  | [] => pure []
  | v :: rest => do
    let w ← mapTemplates resolve v
    let ws ← mapItemTemplates resolve rest
    pure (w :: ws)
termination_by structural vs => vs

def mapMemberTemplates {ε : Type} (resolve : Template → Except ε Value) :
    List (String × Value) → Except ε (List (String × Value))
  | [] => pure []
  | (name, v) :: rest => do
    let w ← mapTemplates resolve v
    let ws ← mapMemberTemplates resolve rest
    pure ((name, w) :: ws)
termination_by structural ms => ms

end

mutual

/-- Equality of values: the order of members does not count, and numbers compare by value. -/
def equal : Value → Value → Bool
  | .null, .null => true
  | .bool a, .bool b => a == b
  | .number x, .number y => x.equal y
  | .string s, .string t => s == t
  | .array vs, .array ws => equalItems vs ws
  | .object vs, .object ws => vs.length == ws.length && equalMembers vs ws
  | .template s, .template t => s.source == t.source
  | _, _ => false
termination_by structural v => v

def equalItems : List Value → List Value → Bool
  | [], [] => true
  | v :: vs, w :: ws => equal v w && equalItems vs ws
  | _, _ => false
termination_by structural vs => vs

def equalMembers : List (String × Value) → Table Value → Bool
  | [], _ => true
  | (name, v) :: rest, table =>
    match table.find? name with
    | some w => equal v w && equalMembers rest table
    | none => false
termination_by structural ms => ms

end

end Value

end ConfigDoc
