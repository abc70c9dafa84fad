import ConfigDoc.Handler

namespace ConfigDoc

structure Plugin (σ : Type) where
  name : String
  handlers : Handlers σ

inductive Plugins (σ : Type) where
  /-- From every plugin that is registered. -/
  | auto
  | disabled
  | explicit (plugins : List (Plugin σ))

variable {σ : Type}

def Table.extend {α : Type} (table : Table α) : Table α → Except Error (Table α)
  | [] => .ok table
  | (name, value) :: rest =>
    if Table.has table name then .error (.duplicateHandler name)
    else extend (Table.insert table name value) rest

namespace Plugin

def merge (merged : Handlers σ) : List (Plugin σ) → Except Error (Handlers σ)
  | [] => .ok merged
  | plugin :: rest => do
    let directives ← Table.extend merged.directives plugin.handlers.directives
    let mappers ← Table.extend merged.mappers plugin.handlers.mappers
    merge ⟨directives, mappers⟩ rest

def describe (plugin : Plugin σ) : String :=
  "Plugin \x7b name: " ++ Text.quoted plugin.name
    ++ ", handlers: " ++ plugin.handlers.describe ++ " \x7d"

end Plugin

namespace Plugins

/-- The selected plugins, `registered` being those that a program has registered. -/
def select (registered : List (Plugin σ)) : Plugins σ → List (Plugin σ)
  | auto => registered
  | disabled => []
  | explicit plugins => plugins

def resolve (registered : List (Plugin σ)) (plugins : Plugins σ) : Except Error (Handlers σ) :=
  Plugin.merge Handlers.empty (plugins.select registered)

/-- Selects one more plugin, and none but explicit ones. -/
def add (plugins : Plugins σ) (plugin : Plugin σ) : Plugins σ :=
  match plugins with
  | explicit list => explicit (list ++ [plugin])
  | _ => explicit [plugin]

def describe : Plugins σ → String
  | auto => "Auto"
  | disabled => "Disabled"
  | explicit plugins =>
    "Explicit([" ++ String.intercalate ", " (plugins.map Plugin.describe) ++ "])"

end Plugins

end ConfigDoc
