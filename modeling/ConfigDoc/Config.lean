import ConfigDoc.Plugin

namespace ConfigDoc

structure Options (σ : Type) where
  /-- Whether double-quoted strings are templates. -/
  interpolate : Bool
  asynchronous : Bool
  handlers : Handlers σ
  plugins : Plugins σ

/-- Options after preparation: every handler is a directive under a name of its own. -/
structure Config (σ : Type) where
  interpolate : Bool
  asynchronous : Bool
  handlers : Table (DirectiveHandler σ)

variable {σ : Type}

/-- Templates, no handlers but those of registered plugins. -/
def Options.default : Options σ := ⟨true, false, Handlers.empty, .auto⟩

namespace Config

def install (directives : Table (DirectiveHandler σ)) :
    Table (MapperHandler σ) → Except Error (Table (DirectiveHandler σ))
  | [] => .ok directives
  | (name, mapper) :: rest =>
    if Table.has directives name then .error (.nameConflict name)
    else install (Table.insert directives name (DirectiveHandler.ofMapper mapper)) rest

/-- Merges the handlers of the host and of its plugins: first its directives, then theirs, then the
mappers in the same order. -/
def prepare (registered : List (Plugin σ)) (options : Options σ) : Except Error (Config σ) := do
  let fromPlugins ← options.plugins.resolve registered
  let mappers ← Table.extend options.handlers.mappers fromPlugins.mappers
  let directives ← Table.extend options.handlers.directives fromPlugins.directives
  let handlers ← install directives mappers
  pure ⟨options.interpolate, options.asynchronous, handlers⟩

def handler? (config : Config σ) (name : String) : Option (DirectiveHandler σ) :=
  Table.find? config.handlers name

def describe (config : Config σ) : String :=
  "CompilerConfig \x7b interpolate: " ++ toString config.interpolate
    ++ ", asynchronous: " ++ toString config.asynchronous
    ++ ", handlers: " ++ Text.quotedList (Table.names config.handlers) ++ " \x7d"

end Config

end ConfigDoc
