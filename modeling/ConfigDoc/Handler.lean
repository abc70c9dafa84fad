import ConfigDoc.Action
import ConfigDoc.Text.Quoted

namespace ConfigDoc

/-- How the application of a directive ends: at once, or with work that has to be waited for. -/
inductive Outcome (σ : Type) where
  | ready
  | pending (later : Action σ Unit)

inductive Mapped (σ : Type) where
  | ready (v : Value)
  | pending (later : Host σ Value)

abbrev DirectiveHandler (σ : Type) := Reference → List Value → Action σ (Outcome σ)

abbrev MapperHandler (σ : Type) := Value → List Value → Host σ (Mapped σ)

variable {σ : Type}

def Outcome.describe : Outcome σ → String
  | .ready => "Ready"
  | .pending _ => "Pending(..)"

namespace DirectiveHandler

def ofAction (f : Reference → List Value → Action σ Unit) : DirectiveHandler σ :=
  fun node args => do
    f node args
    pure .ready

def deferred (f : Reference → List Value → Action σ Unit) : DirectiveHandler σ :=
  fun node args => pure (.pending (f node args))

/-- A mapper as a directive: the value of the node is taken when the directive is applied, and the
mapped value replaces the node once it is there. -/
def ofMapper (mapper : MapperHandler σ) : DirectiveHandler σ := fun node args => do
  let v ← Action.valueOf node
  match ← Action.ofHost (mapper v args) with
  | .ready w =>
    Action.set w
    pure .ready
  | .pending later =>
    pure <| .pending do
      let w ← Action.ofHost later
      Action.set w

end DirectiveHandler

namespace MapperHandler

def ofHost (f : Value → List Value → Host σ Value) : MapperHandler σ := fun v args state =>
  let (result, after) := f v args state
  (result.map .ready, after)

def deferred (f : Value → List Value → Host σ Value) : MapperHandler σ := fun v args state =>
  (.ok (.pending (f v args)), state)

end MapperHandler

/-- Directives and mappers by name, in the order of their registration. -/
structure Handlers (σ : Type) where
  directives : Table (DirectiveHandler σ)
  mappers : Table (MapperHandler σ)

namespace Handlers

def empty : Handlers σ := ⟨[], []⟩

def isEmpty (handlers : Handlers σ) : Bool :=
  handlers.directives.isEmpty && handlers.mappers.isEmpty

def addDirective (handlers : Handlers σ) (name : String) (handler : DirectiveHandler σ) :
    Handlers σ :=
  { handlers with directives := Table.insert handlers.directives name handler }

def addMapper (handlers : Handlers σ) (name : String) (handler : MapperHandler σ) : Handlers σ :=
  { handlers with mappers := Table.insert handlers.mappers name handler }

def describe (handlers : Handlers σ) : String :=
  "Handlers \x7b directives: " ++ Text.quotedList (Table.names handlers.directives)
    ++ ", mappers: " ++ Text.quotedList (Table.names handlers.mappers) ++ " \x7d"

end Handlers

end ConfigDoc
