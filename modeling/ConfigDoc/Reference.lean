import ConfigDoc.Error
import ConfigDoc.Value.Lookup

/-! References: slots of a tree of values, addressed by a container and a step. -/

namespace ConfigDoc

/-- A slot that may be read and written in whatever state the tree around it is. `path` is its
readable name. -/
structure Reference where
  container : Path
  key : Segment
  path : String
  deriving DecidableEq

namespace Reference

inductive Fault where
  | wrongContainer (key : Segment) (typeName : String)
  | noContainer
  | lostContainer
  | outOfBounds (position length : Nat)
  | unsettable (key : Segment) (typeName : String)

def Fault.message : Fault → String
  | wrongContainer key typeName => "cannot address " ++ key.text ++ " inside a " ++ typeName
  | noContainer => "container does not exist"
  | lostContainer => "container no longer exists"
  | outOfBounds position length =>
    "index " ++ toString position ++ " out of bounds for array of length " ++ toString length
  | unsettable key typeName => "cannot set " ++ key.text ++ " on a " ++ typeName

def Fault.toError (fault : Fault) (path : String) : Error := .invalidReference path fault.message

/-- Whether a container can have a slot at a step: names live in objects, positions in lists. -/
def fits : Value → Segment → Bool
  | .object _, .key _ => true
  | .array _, .index _ => true
  | _, _ => false

def new (root : Value) (container : Path) (key : Segment) (path : String) :
    Except Error Reference :=
  match root.lookup? container with
  | none => .error (Fault.noContainer.toError path)
  | some v =>
    if fits v key then .ok ⟨container, key, path⟩
    else .error ((Fault.wrongContainer key v.typeName).toError path)

def documentName : String := "document"

def document : Reference := ⟨[], .key documentName, documentName⟩

def emptyRoot : Value := Value.empty.insert documentName Value.empty

def location (r : Reference) : Path := r.container ++ [r.key]

def get? (r : Reference) (root : Value) : Option Value :=
  (root.lookup? r.container).bind fun v => v.member? r.key

def base? (r : Reference) (root : Value) : Option Value := root.lookup? r.container

def value (r : Reference) (root : Value) : Value := (r.get? root).getD .null

/-- A container with a value at a step. A position just behind the end of a list extends it. -/
def store (v : Value) (key : Segment) (w : Value) : Except Fault Value :=
  match v, key with
  | .object members, .key name => .ok (.object (Table.insert members name w))
  | .array items, .index position =>
    if position < items.length then .ok (.array (items.set position w))
    else if position = items.length then .ok (.array (items ++ [w]))
    else .error (.outOfBounds position items.length)
  | v, key => .error (.unsettable key v.typeName)

def replace (r : Reference) (root : Value) (change : Value → Value) : Except Error Value :=
  match root.lookup? r.container with
  | none => .error (Fault.lostContainer.toError r.path)
  | some v =>
    match store v r.key (change (r.value root)) with
    | .error fault => .error (fault.toError r.path)
    | .ok changed =>
      match root.assign? r.container changed with
      | some root' => .ok root'
      | none => .error (Fault.lostContainer.toError r.path)

def set (r : Reference) (root : Value) (w : Value) : Except Error Value := r.replace root fun _ => w

/-- The slot one step below, which must hold a container of the right kind. -/
def descend (r : Reference) (root : Value) (key : Segment) : Except Error Reference :=
  new root r.location key (key.below r.path)

def child (r : Reference) (root : Value) (name : String) : Except Error Reference :=
  r.descend root (.key name)

def index (r : Reference) (root : Value) (position : Nat) : Except Error Reference :=
  r.descend root (.index position)

end Reference

end ConfigDoc
