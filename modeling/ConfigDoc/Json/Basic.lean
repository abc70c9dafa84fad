import ConfigDoc.Number.Layout

namespace ConfigDoc

/-- A JSON document; integers and other numbers are kept apart. -/
inductive Json where
  | null
  | bool (b : Bool)
  | integer (i : Int)
  | decimal (x : Number)
  | string (s : String)
  | array (items : List Json)
  | object (members : List (String × Json))

namespace Json

instance : Inhabited Json := ⟨null⟩

def escapedChar (c : Char) : List Char :=
  if c = '"' then ['\\', '"']
  else if c = '\\' then ['\\', '\\']
  else if c = '\x08' then ['\\', 'b']
  else if c = '\x0c' then ['\\', 'f']
  else if c = '\n' then ['\\', 'n']
  else if c = '\r' then ['\\', 'r']
  else if c = '\t' then ['\\', 't']
  else if c.toNat < 0x10 then ['\\', 'u', '0', '0', '0'] ++ Nat.toDigits 16 c.toNat
  else if c.toNat < 0x20 then ['\\', 'u', '0', '0'] ++ Nat.toDigits 16 c.toNat
  else [c]

def quoted (s : String) : String := String.ofList ('"' :: s.toList.flatMap escapedChar ++ ['"'])

/-- What is no number in JSON is written as null. -/
def numberText : Number → String
  | .finite negative significand shift canonical =>
    Number.Layout.json.write (.finite negative significand shift canonical)
  | _ => "null"

mutual

def compact : Json → String
  | .null => "null"
  | .bool b => if b then "true" else "false"
  | .integer i => toString i
  | .decimal x => numberText x
  | .string s => quoted s
  | .array items => "[" ++ String.intercalate "," (compactItems items) ++ "]"
  | .object members => "\x7b" ++ String.intercalate "," (compactMembers members) ++ "\x7d"
termination_by structural j => j

def compactItems : List Json → List String
  | [] => []
  | j :: rest => compact j :: compactItems rest
termination_by structural js => js

def compactMembers : List (String × Json) → List String
  | [] => []
  | (name, j) :: rest => (quoted name ++ ":" ++ compact j) :: compactMembers rest
termination_by structural ms => ms

end

/-- The lines of a non-empty container between its brackets, one level further in. -/
def prettyLines (indent opening closing : String) (lines : List String) : String :=
  if lines.isEmpty then opening ++ closing
  else
    let inner := indent ++ "  "
    opening ++ "\n" ++ String.intercalate ",\n" (lines.map (inner ++ ·)) ++ "\n" ++ indent ++ closing

mutual

def prettyFrom (indent : String) : Json → String
  | .array items => prettyLines indent "[" "]" (prettyItems (indent ++ "  ") items)
  | .object members =>
    prettyLines indent "\x7b" "\x7d" (prettyMembers (indent ++ "  ") members)
  | .null => "null"
  | .bool b => if b then "true" else "false"
  | .integer i => toString i
  | .decimal x => numberText x
  | .string s => quoted s
termination_by structural j => j

def prettyItems (indent : String) : List Json → List String
  | [] => []
  | j :: rest => prettyFrom indent j :: prettyItems indent rest
termination_by structural js => js

def prettyMembers (indent : String) : List (String × Json) → List String
  | [] => []
  | (name, j) :: rest =>
    (quoted name ++ ": " ++ prettyFrom indent j) :: prettyMembers indent rest
termination_by structural ms => ms

end

def pretty (j : Json) : String := prettyFrom "" j

/-- Members in the order of their names, compared by code points. -/
def sortMembers (members : List (String × Json)) : List (String × Json) :=
  members.mergeSort fun a b => decide (a.1 ≤ b.1)

mutual

/-- The document as a JSON value keeps it: what is no number in JSON becomes null, and the members of
every object stand in the order of their names. -/
def stored : Json → Json
  | .decimal x => if x.units?.isSome then .decimal x else .null
  | .array items => .array (storedItems items)
  | .object members => .object (sortMembers (storedMembers members))
  | j => j
termination_by structural j => j

def storedItems : List Json → List Json
  | [] => []
  | j :: rest => stored j :: storedItems rest
termination_by structural js => js

def storedMembers : List (String × Json) → List (String × Json)
  | [] => []
  | (name, j) :: rest => (name, stored j) :: storedMembers rest
termination_by structural ms => ms

end

/-- The store of JSON values, which refuses nothing. -/
def store (j : Json) : Except String Json := .ok j.stored

example : quoted "a\"\\\n\x01é" = "\"a\\\"\\\\\\n\\u0001é\"" := by decide +kernel

end Json

end ConfigDoc
