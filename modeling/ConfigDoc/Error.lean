import ConfigDoc.Tree.Basic

namespace ConfigDoc

inductive Error where
  | badSyntax (message : String) (line column : Nat) (hint : Option String) (code : Option Nat)
  | unknownDirective (name : String)
  /-- A mapper and a directive have the same name. -/
  | nameConflict (name : String)
  /-- Two sources define the same directive or the same mapper. -/
  | duplicateHandler (name : String)
  /-- A handler put its work off in a run that does not wait. -/
  | asyncMisuse (name : String)
  /-- A template needs its own text; the keys lead from it back to a key on the way. -/
  | circularTemplate (chain : List String)
  | invalidNode (kind : Tree.Kind)
  | invalidReference (path message : String)
  | handlerFailure (name message : String)
  | typeMismatch (message : String) (hint : Option String)
  | missingPath (path : String)
  | fileFailure (path message : String)
  deriving DecidableEq

namespace Error

private def hintSuffix : Option String → String
  | some hint => " Hint: " ++ hint
  | none => ""

private def codeSuffix : Option Nat → String
  | some code => " Code: " ++ toString code
  | none => ""

def message : Error → String
  | badSyntax message line column hint code =>
    "Syntax error at " ++ toString line ++ ":" ++ toString column ++ ": " ++ message
      ++ hintSuffix hint ++ codeSuffix code
  | unknownDirective name => "Unknown directive " ++ name
  | nameConflict name => "Directives and mappers cannot share the same key (" ++ name ++ ")"
  | duplicateHandler name => "Name conflict detected: " ++ name ++ " already defined"
  | asyncMisuse name => "Async directive " ++ name ++ " used outside of async mode"
  | circularTemplate chain =>
    "Circular interpolation detected -> " ++ String.intercalate " -> " chain
  | invalidNode kind => "Cannot normalize " ++ kind.name ++ " node"
  | invalidReference path message => "Invalid reference at " ++ path ++ ": " ++ message
  | handlerFailure name message => "Directive " ++ name ++ " failed: " ++ message
  | typeMismatch message hint => "Type error: " ++ message ++ hintSuffix hint
  | missingPath path => "Path '" ++ path ++ "' not found in document"
  | fileFailure path message => "File error '" ++ path ++ "': " ++ message

def code? : Error → Option Nat
  | badSyntax _ _ _ _ code => code
  | _ => none

end Error

/-- Two steps succeed together exactly when the first does and the second does on its result. -/
theorem bind_eq_ok_iff {ε α β : Type} {x : Except ε α} {f : α → Except ε β} {b : β} :
    (x >>= f) = .ok b ↔ ∃ a, x = .ok a ∧ f a = .ok b := by
  cases x <;> simp [bind, Except.bind]

theorem bind_eq_error_iff {ε α β : Type} {x : Except ε α} {f : α → Except ε β} {e : ε} :
    (x >>= f) = .error e ↔ x = .error e ∨ ∃ a, x = .ok a ∧ f a = .error e := by
  cases x <;> simp [bind, Except.bind]

theorem map_eq_ok_iff {ε α β : Type} {x : Except ε α} {f : α → β} {b : β} :
    x.map f = .ok b ↔ ∃ a, x = .ok a ∧ f a = b := by
  cases x <;> simp [Except.map]

theorem map_eq_error_iff {ε α β : Type} {x : Except ε α} {f : α → β} {e : ε} :
    x.map f = .error e ↔ x = .error e := by
  cases x <;> simp [Except.map]

end ConfigDoc
