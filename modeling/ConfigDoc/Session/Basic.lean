import ConfigDoc.Config
import ConfigDoc.Draft.Arguments

/-! One compilation while it runs: the document, the work left, and what has been done. -/

namespace ConfigDoc

inductive Event where
  | pass (stage : Stage)
  | job (job : Job)
  /-- A handler was applied to a node while the tree was as in `root`. -/
  | applied (name : String) (target : Reference) (root : Value) (args : List Value)
  | deferred (name : String)

/-- The state of a compilation. The host's own state is kept whatever happens. -/
structure Session (σ : Type) where
  root : Value
  queue : Queue Job
  host : σ
  journal : List Event

/-- Whether a run waits for work that handlers put off. -/
inductive Mode where
  | blocking
  | awaiting
  deriving DecidableEq

structure BoundCall (σ : Type) where
  name : String
  handler : DirectiveHandler σ
  args : List Value

namespace Session

variable {σ : Type}

/-- Where templates look their tokens up: in the document as it is now. -/
def sources (s : Session σ) : List Value := (s.root.get? Reference.documentName).toList

def record (s : Session σ) (event : Event) : Session σ :=
  { s with journal := s.journal ++ [event] }

/-- Binds calls to handlers and arguments, one after the other, before any of them runs. -/
def bindCalls (config : Config σ) (sources : List Value) (target : Reference) :
    List (Call Tree) → Queue Job → Except Error (List (BoundCall σ) × Queue Job)
  | [], queue => .ok ([], queue)
  | call :: rest, queue =>
    match config.handler? call.name with
    | none => .error (.unknownDirective call.name)
    | some handler => do
      let (args, queue) ← Draft.evaluateArguments config.interpolate sources target call queue
      let (others, queue) ← bindCalls config sources target rest queue
      pure (⟨call.name, handler, args⟩ :: others, queue)

def perform {α : Type} (s : Session σ) (target : Reference) (action : Action σ α) :
    Except Error α × Session σ :=
  let (result, root, host) := action.run target s.root s.host
  (result, { s with root := root, host := host })

/-- Applies one call. Work that the handler puts off is waited for, or refused. -/
def apply (mode : Mode) (target : Reference) (call : BoundCall σ) (s : Session σ) :
    Except Error Unit × Session σ :=
  let before := s.record (.applied call.name target s.root call.args)
  match before.perform target (call.handler target call.args) with
  | (.error e, after) => (.error e, after)
  | (.ok .ready, after) => (.ok (), after)
  | (.ok (.pending later), after) =>
    let after := after.record (.deferred call.name)
    match mode with
    | .blocking => (.error (.asyncMisuse call.name), after)
    | .awaiting => after.perform target later

def applyAll (mode : Mode) (target : Reference) :
    List (BoundCall σ) → Session σ → Except Error Unit × Session σ
  | [], s => (.ok (), s)
  | call :: rest, s =>
    match apply mode target call s with
    | (.error e, after) => (.error e, after)
    | (.ok (), after) => applyAll mode target rest after

def interpolate (config : Config σ) (target : Reference) (template : Template) (s : Session σ) :
    Except Error Unit × Session σ :=
  let written := do
    let text ← template.resolveIf config.interpolate s.sources
    target.set s.root (.string text)
  match written with
  | .ok root => (.ok (), { s with root := root })
  | .error e => (.error e, s)

def sweep (config : Config σ) (s : Session σ) : Except Error Unit × Session σ :=
  let document := Reference.document.value s.root
  if document.hasTemplate then
    let written := do
      let resolved ← document.resolveAll config.interpolate s.sources
      Reference.document.set s.root resolved
    match written with
    | .ok root => (.ok (), { s with root := root })
    | .error e => (.error e, s)
  else (.ok (), s)

def runJob (config : Config σ) (mode : Mode) (job : Job) (s : Session σ) :
    Except Error Unit × Session σ :=
  let s := s.record (.job job)
  match job with
  | .interpolate target template => interpolate config target template s
  | .sweep => sweep config s
  | .directives target calls =>
    match bindCalls config s.sources target calls s.queue with
    | .error e => (.error e, s)
    | .ok (bound, queue) => applyAll mode target bound { s with queue := queue }

theorem queue_of_bindCalls {config : Config σ} {sources : List Value} {target : Reference}
    {calls : List (Call Tree)} {queue queue' : Queue Job} {bound : List (BoundCall σ)}
    (h : bindCalls config sources target calls queue = .ok (bound, queue')) : queue' = queue := by
  induction calls generalizing queue queue' bound with
  | nil => simp_all [bindCalls]
  | cons call rest ih =>
    unfold bindCalls at h
    split at h
    · cases h
    · obtain ⟨⟨args, queue₁⟩, he, h⟩ := bind_eq_ok_iff.1 h
      obtain ⟨⟨others, queue₂⟩, hb, h⟩ := bind_eq_ok_iff.1 h
      cases h
      rw [ih hb, Draft.queue_of_evaluateArguments he]

theorem queue_perform {α : Type} (s : Session σ) (target : Reference) (action : Action σ α) :
    (s.perform target action).2.queue = s.queue := rfl

theorem queue_apply (mode : Mode) (target : Reference) (call : BoundCall σ) (s : Session σ) :
    (apply mode target call s).2.queue = s.queue := by
  unfold apply
  dsimp only
  have hp := queue_perform (s.record (.applied call.name target s.root call.args))
    target (call.handler target call.args)
  split
  · rename_i h
    rw [h] at hp
    exact hp
  · rename_i h
    rw [h] at hp
    exact hp
  · rename_i h
    rw [h] at hp
    cases mode with
    | blocking => exact hp
    | awaiting => exact (queue_perform _ _ _).trans hp

theorem queue_applyAll (mode : Mode) (target : Reference) (calls : List (BoundCall σ))
    (s : Session σ) : (applyAll mode target calls s).2.queue = s.queue := by
  induction calls generalizing s with
  | nil => rfl
  | cons call rest ih =>
    have ha := queue_apply mode target call s
    unfold applyAll
    split
    · rename_i h
      rw [h] at ha
      exact ha
    · rename_i h
      rw [h] at ha
      rw [ih, ha]

theorem queue_interpolate (config : Config σ) (target : Reference) (template : Template)
    (s : Session σ) : (interpolate config target template s).2.queue = s.queue := by
  unfold interpolate
  dsimp only
  split <;> rfl

theorem queue_sweep (config : Config σ) (s : Session σ) :
    (sweep config s).2.queue = s.queue := by
  unfold sweep
  dsimp only
  split
  · split <;> rfl
  · rfl

/-- Whatever a job does, the queue stays as it is. -/
theorem queue_runJob (config : Config σ) (mode : Mode) (job : Job) (s : Session σ) :
    (runJob config mode job s).2.queue = s.queue := by
  cases job with
  | interpolate target template => exact queue_interpolate config target template (s.record _)
  | sweep => exact queue_sweep config (s.record _)
  | directives target calls =>
    unfold runJob
    dsimp only
    split
    · rfl
    · rename_i hb
      rw [queue_applyAll]
      exact queue_of_bindCalls hb

end Session

end ConfigDoc
