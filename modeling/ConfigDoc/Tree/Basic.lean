import ConfigDoc.Number.Basic

namespace ConfigDoc

structure Entry (α : Type) where
  key : String
  value : α

structure Call (α : Type) where
  name : String
  args : List α

inductive Tree where
  | numeric (x : Number)
  | boolean (b : Bool)
  /-- A single-quoted string, always taken as it is. -/
  | rawString (s : String)
  /-- A double-quoted string, which may be a template. -/
  | complexString (s : String)
  /-- The body of `name { … }`, or a whole text. Its calls are entries under the directive's name. -/
  | block (entries : List (Entry Tree))
  /-- A literal `{ "name": value }`. -/
  | map (entries : List (Entry Tree))
  | array (items : List Tree)
  | directive (call : Call Tree)
  /-- A value and the calls it is piped through, in the order in which they apply. -/
  | piped (raw : Tree) (chain : List (Call Tree))

namespace Tree

instance : Inhabited Tree := ⟨block []⟩

inductive Kind where
  | numeric
  | boolean
  | rawString
  | complexString
  | block
  | map
  | array
  | directive
  | piped
  deriving DecidableEq

def Kind.name : Kind → String
  | numeric => "Numeric"
  | boolean => "Boolean"
  | rawString => "RawString"
  | complexString => "ComplexString"
  | block => "Block"
  | map => "Map"
  | array => "Array"
  | directive => "Directive"
  | piped => "PipedValue"

def kind : Tree → Kind
  | numeric _ => .numeric
  | boolean _ => .boolean
  | rawString _ => .rawString
  | complexString _ => .complexString
  | block _ => .block
  | map _ => .map
  | array _ => .array
  | directive _ => .directive
  | piped _ _ => .piped

def entries? : Tree → Option (List (Entry Tree))
  | block entries => some entries
  | map entries => some entries
  | _ => none

def asCall? : Tree → Option (Call Tree)
  | directive call => some call
  | _ => none

end Tree

def Entry.ofCall (call : Call Tree) : Entry Tree := ⟨call.name, .directive call⟩

end ConfigDoc
