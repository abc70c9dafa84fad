import ConfigDoc.Config
import ConfigDoc.Proofs.Table

namespace ConfigDoc

variable {σ : Type}

theorem Action.run_bind {α β : Type} (node : Reference) (action : Action σ α) (f : α → Action σ β)
    (root : Value) (host : σ) :
    (action >>= f).run node root host = match action.run node root host with
      | (.ok a, root, host) => (f a).run node root host
      | (.error e, root, host) => (.error e, root, host) := by
  change (action.andThen f).run node root host = _
  induction action generalizing root host with
  | done a => rfl
  | fail e => rfl
  | look next ih => exact ih root root host
  | change g next ih =>
    rw [andThen, run, run]
    cases node.replace root g with
    | ok root' => exact ih _ root' host
    | error e => exact ih _ root host
  | changeKept kept g next ih =>
    rw [andThen, run, run]
    cases kept.replace root g with
    | ok root' => exact ih _ root' host
    | error e => exact ih _ root host
  | getHost next ih => exact ih host root host
  | setHost state next ih => exact ih root state

namespace DirectiveHandler

/-- All the work of a handler, what it puts off included. -/
def awaited (handler : DirectiveHandler σ) (node : Reference) (args : List Value) :
    Action σ Unit := do
  match ← handler node args with
  | .ready => pure ()
  | .pending later => later

def SameWork (handler handler' : DirectiveHandler σ) : Prop :=
  ∀ node args root host,
    (handler.awaited node args).run node root host = (handler'.awaited node args).run node root host

/-- A directive that puts its work off takes the place of one that does the same work at once, or it
is the same directive as before. -/
inductive Deferral : DirectiveHandler σ → DirectiveHandler σ → Prop where
  | same (handler : DirectiveHandler σ) : Deferral handler handler
  | putOff (f : Reference → List Value → Action σ Unit) : Deferral (.ofAction f) (.deferred f)

end DirectiveHandler

inductive MapperHandler.Deferral : MapperHandler σ → MapperHandler σ → Prop where
  | same (mapper : MapperHandler σ) : Deferral mapper mapper
  | putOff (f : Value → List Value → Host σ Value) : Deferral (.ofHost f) (.deferred f)

namespace DirectiveHandler

theorem run_awaited_ofAction (f : Reference → List Value → Action σ Unit) (node : Reference)
    (args : List Value) (root : Value) (host : σ) :
    ((ofAction f).awaited node args).run node root host = (f node args).run node root host := by
  rw [awaited, Action.run_bind, ofAction, Action.run_bind]
  rcases (f node args).run node root host with ⟨_ | _, root', host'⟩ <;> rfl

/-- The work that a directive has put off is done when it is waited for. -/
theorem awaited_deferred (f : Reference → List Value → Action σ Unit) :
    (deferred f).awaited = f := rfl

/-- A mapper is given the value of the node as it is when the mapper is applied, and its result is
written with nothing in between, whether it comes now or later. -/
theorem sameWork_ofMapper (f : Value → List Value → Host σ Value) :
    (ofMapper (.ofHost f)).SameWork (ofMapper (.deferred f)) := by
  intro node args root host
  simp only [awaited, ofMapper, MapperHandler.ofHost, MapperHandler.deferred, Action.valueOf,
    Action.ofHost, bind, pure, Action.andThen, Action.run]
  rcases f (node.value root) args host with ⟨_ | w, host'⟩
  · rfl
  · simp only [Except.map, Action.set, Action.update, Action.andThen, Action.run]

theorem Deferral.sameWork {handler handler' : DirectiveHandler σ} (h : Deferral handler handler') :
    handler.SameWork handler' := by
  cases h with
  | same => exact fun _ _ _ _ => rfl
  | putOff f =>
    intro node args root host
    rw [run_awaited_ofAction, awaited_deferred]

end DirectiveHandler

theorem MapperHandler.Deferral.sameWork {mapper mapper' : MapperHandler σ}
    (h : mapper.Deferral mapper') :
    (DirectiveHandler.ofMapper mapper).SameWork (.ofMapper mapper') := by
  cases h with
  | same => exact fun _ _ _ _ => rfl
  | putOff f => exact DirectiveHandler.sameWork_ofMapper f

inductive SameOutcome {α β : Type} (R : α → β → Prop) : Except Error α → Except Error β → Prop where
  | ok {a : α} {b : β} (h : R a b) : SameOutcome R (.ok a) (.ok b)
  | error (e : Error) : SameOutcome R (.error e) (.error e)

theorem SameOutcome.cases {α β : Type} {R : α → β → Prop} {x : Except Error α} {y : Except Error β}
    (h : SameOutcome R x y) :
    (∃ a b, x = .ok a ∧ y = .ok b ∧ R a b) ∨ ∃ e, x = .error e ∧ y = .error e := by
  cases h with
  | ok h => exact .inl ⟨_, _, rfl, rfl, h⟩
  | error e => exact .inr ⟨e, rfl, rfl⟩

theorem SameOutcome.bind {α β γ δ : Type} {R : α → β → Prop} {S : γ → δ → Prop}
    {x : Except Error α} {y : Except Error β} (h : SameOutcome R x y) {f : α → Except Error γ}
    {g : β → Except Error δ} (hf : ∀ a b, R a b → SameOutcome S (f a) (g b)) :
    SameOutcome S (x >>= f) (y >>= g) := by
  cases h with
  | ok h => exact hf _ _ h
  | error e => exact .error e

theorem sameOutcome_self {α : Type} (x : Except Error α) : SameOutcome (· = ·) x x := by
  cases x with
  | ok a => exact .ok rfl
  | error e => exact .error e

namespace Table

variable {α β : Type} {R : α → β → Prop} {table rest : Table α} {table' rest' : Table β}

abbrev Alike (R : α → β → Prop) (table : Table α) (table' : Table β) : Prop :=
  List.Forall₂ (Named R) table table'

theorem Alike.find? (h : Alike R table table') (name : String) :
    Option.Rel R (table.find? name) (table'.find? name) := by
  induction h with
  | nil => exact .none
  | cons hp _ ih =>
    rw [find?_cons, find?_cons, hp.1]
    split
    · exact .some hp.2
    · exact ih

theorem Alike.has (h : Alike R table table') (name : String) : table.has name = table'.has name := by
  have hf := h.find? name
  unfold Table.has
  revert hf
  cases table.find? name <;> cases table'.find? name <;> rintro ⟨⟩ <;> rfl

theorem Alike.extend (h : Alike R table table') (hr : Alike R rest rest') :
    SameOutcome (Alike R) (table.extend rest) (table'.extend rest') := by
  induction hr generalizing table table' with
  | nil => exact .ok h
  | @cons entry entry' _ _ he _ ih =>
    obtain ⟨name, value⟩ := entry
    obtain ⟨name', value'⟩ := entry'
    obtain ⟨rfl, hv⟩ := he
    rw [Table.extend, Table.extend, h.has name]
    split
    · exact .error _
    · exact ih (forall₂_insert h name hv)

end Table

structure Handlers.Deferral (handlers handlers' : Handlers σ) : Prop where
  directives : Table.Alike DirectiveHandler.Deferral handlers.directives handlers'.directives
  mappers : Table.Alike MapperHandler.Deferral handlers.mappers handlers'.mappers

structure Plugin.Deferral (plugin plugin' : Plugin σ) : Prop where
  name : plugin.name = plugin'.name
  handlers : plugin.handlers.Deferral plugin'.handlers

inductive Plugins.Deferral : Plugins σ → Plugins σ → Prop where
  | auto : Deferral .auto .auto
  | disabled : Deferral .disabled .disabled
  | explicit {plugins plugins' : List (Plugin σ)} (h : List.Forall₂ Plugin.Deferral plugins plugins') :
    Deferral (.explicit plugins) (.explicit plugins')

structure Options.Deferral (options options' : Options σ) : Prop where
  interpolate : options.interpolate = options'.interpolate
  asynchronous : options.asynchronous = options'.asynchronous
  handlers : options.handlers.Deferral options'.handlers
  plugins : options.plugins.Deferral options'.plugins

structure Config.SameWork (config config' : Config σ) : Prop where
  interpolate : config.interpolate = config'.interpolate
  handlers : Table.Alike DirectiveHandler.SameWork config.handlers config'.handlers

variable {registered registered' : List (Plugin σ)} {options options' : Options σ}

theorem Plugin.merge_deferral {merged merged' : Handlers σ} {plugins plugins' : List (Plugin σ)}
    (hm : merged.Deferral merged') (hp : List.Forall₂ Plugin.Deferral plugins plugins') :
    SameOutcome Handlers.Deferral (merge merged plugins) (merge merged' plugins') := by
  induction hp generalizing merged merged' with
  | nil => exact .ok hm
  | cons hp _ ih =>
    apply (hm.directives.extend hp.handlers.directives).bind
    intro directives directives' hd
    apply (hm.mappers.extend hp.handlers.mappers).bind
    intro mappers mappers' hm
    exact ih ⟨hd, hm⟩

theorem Plugins.Deferral.resolve {plugins plugins' : Plugins σ} (h : plugins.Deferral plugins')
    (hr : List.Forall₂ Plugin.Deferral registered registered') :
    SameOutcome Handlers.Deferral (plugins.resolve registered) (plugins'.resolve registered') := by
  apply Plugin.merge_deferral ⟨.nil, .nil⟩
  cases h with
  | auto => exact hr
  | disabled => exact .nil
  | explicit hp => exact hp

namespace Config

/-- Mappers become directives that do the same work. -/
theorem install_sameWork {directives directives' : Table (DirectiveHandler σ)}
    {mappers mappers' : Table (MapperHandler σ)}
    (hd : Table.Alike DirectiveHandler.SameWork directives directives')
    (hm : Table.Alike MapperHandler.Deferral mappers mappers') :
    SameOutcome (Table.Alike DirectiveHandler.SameWork) (install directives mappers)
      (install directives' mappers') := by
  induction hm generalizing directives directives' with
  | nil => exact .ok hd
  | @cons entry entry' _ _ he _ ih =>
    obtain ⟨name, mapper⟩ := entry
    obtain ⟨name', mapper'⟩ := entry'
    obtain ⟨rfl, hw⟩ := he
    rw [install, install, hd.has name]
    split
    · exact .error _
    · exact ih (Table.forall₂_insert hd name hw.sameWork)

/-- The same handlers are refused, and otherwise the same work is prepared. -/
theorem prepare_sameWork (hr : List.Forall₂ Plugin.Deferral registered registered')
    (ho : options.Deferral options') :
    SameOutcome SameWork (prepare registered options) (prepare registered' options') := by
  apply (ho.plugins.resolve hr).bind
  intro fromPlugins fromPlugins' hp
  apply (ho.handlers.mappers.extend hp.mappers).bind
  intro mappers mappers' hm
  apply (ho.handlers.directives.extend hp.directives).bind
  intro directives directives' hd
  have hwork : Table.Alike DirectiveHandler.SameWork directives directives' :=
    hd.imp fun _ _ h => ⟨h.1, h.2.sameWork⟩
  apply (install_sameWork hwork hm).bind
  intro handlers handlers' hh
  exact .ok ⟨ho.interpolate, hh⟩

end Config

end ConfigDoc
