import ConfigDoc.Path.Text
import ConfigDoc.Value.Basic

namespace ConfigDoc

/-- The position that a step means in a list. A name means one if it is a numeral. -/
def Segment.position? : Segment → Option Nat
  | .index position => some position
  | .key name => Text.natural? name.toList

namespace Value

/-- The member that a step leads to. Objects are addressed by the text of the step, lists by its
position, so both spellings of a step reach the same member. -/
def member? (v : Value) (step : Segment) : Option Value :=
  match v with
  | .object members => Table.find? members step.text
  | .array items => step.position?.bind fun position => items[position]?
  | _ => none

def setMember? (v : Value) (step : Segment) (w : Value) : Option Value :=
  match v with
  | .object members =>
    if Table.has members step.text then some (.object (Table.insert members step.text w)) else none
  | .array items =>
    step.position?.bind fun position =>
      if position < items.length then some (.array (items.set position w)) else none
  | _ => none

def lookup? (v : Value) : Path → Option Value
  | [] => some v
  | step :: rest => (v.member? step).bind fun w => w.lookup? rest

def assign? (v : Value) (path : Path) (w : Value) : Option Value :=
  match path with
  | [] => some w
  | step :: rest =>
    (v.member? step).bind fun part =>
      (part.assign? rest w).bind fun changed => v.setMember? step changed

def get? (v : Value) (path : String) : Option Value := v.lookup? (Path.ofText path)

@[simp] theorem lookup?_nil (v : Value) : v.lookup? [] = some v := rfl

theorem lookup?_append (v : Value) (p q : Path) :
    v.lookup? (p ++ q) = (v.lookup? p).bind fun w => w.lookup? q := by
  induction p generalizing v with
  | nil => simp
  | cons step rest ih => simp [lookup?, ih, Option.bind_assoc]

end Value

end ConfigDoc
