import ConfigDoc.Draft.Basic
import ConfigDoc.Template.Resolve

/-! The arguments of calls, evaluated without any trace in the document or the queue. -/

namespace ConfigDoc

/-- The text of a template; without interpolation a template stands for itself. -/
def Template.resolveIf (interpolate : Bool) (sources : List Value) (t : Template) :
    Except Error String :=
  if interpolate then t.resolve sources else .ok t.source

def Value.resolveAll (interpolate : Bool) (sources : List Value) (v : Value) :
    Except Error Value :=
  v.mapTemplates fun t => do
    let text ← t.resolveIf interpolate sources
    pure (.string text)

namespace Draft

/-- Writes arguments into a list at the root, `base` naming the list. -/
def writeArguments (interpolate : Bool) (base : String) (args : List Tree) (position : Nat)
    (d : Draft) : Except Error Draft :=
  match args with
  | [] => .ok d
  | arg :: rest => do
    let key := Segment.index position
    let slot ← Reference.new d.root [] key (key.below base)
    let d ← write interpolate .argument arg slot d
    writeArguments interpolate base rest (position + 1) d

/-- The values of the arguments of a call, with the text of a template taken from `sources`. The
arguments are written into a list of their own. -/
def evaluateArguments (interpolate : Bool) (sources : List Value) (target : Reference)
    (call : Call Tree) (queue : Queue Job) : Except Error (List Value × Queue Job) := do
  let base := target.path ++ "@" ++ call.name
  let written ← writeArguments interpolate base call.args 0 ⟨.array [], queue⟩
  let values := written.root.asArray?.getD []
  let args ← values.mapM fun v => v.resolveAll interpolate sources
  pure (args, written.queue)

theorem queue_of_set {d d' : Draft} {target : Reference} {v : Value}
    (h : d.set target v = .ok d') : d'.queue = d.queue := by
  obtain ⟨root, -, h⟩ := bind_eq_ok_iff.1 h
  cases h
  rfl

theorem queue_of_writeTemplate {interpolate : Bool} {source : String} {target : Reference}
    {d d' : Draft} (h : writeTemplate interpolate .argument source target d = .ok d') :
    d'.queue = d.queue := by
  unfold writeTemplate at h
  dsimp only at h
  split at h
  · exact queue_of_set h
  · obtain ⟨d₁, hs, h⟩ := bind_eq_ok_iff.1 h
    cases h
    exact queue_of_set hs

theorem queue_of_addBlockCalls {calls : List (Call Tree)} {target : Reference} {d d' : Draft}
    (h : addBlockCalls .argument calls target d = .ok d') : d'.queue = d.queue := by
  unfold addBlockCalls at h
  dsimp only at h
  split at h
  · cases h
    rfl
  · cases h

mutual

theorem queue_of_write (interpolate : Bool) (tree : Tree) (target : Reference) (d d' : Draft)
    (h : write interpolate .argument tree target d = .ok d') : d'.queue = d.queue := by
  cases tree with
  | numeric x => exact queue_of_set h
  | boolean b => exact queue_of_set h
  | rawString s => exact queue_of_set h
  | complexString s => exact queue_of_writeTemplate h
  | array items =>
    rw [write] at h
    obtain ⟨d₁, hs, h⟩ := bind_eq_ok_iff.1 h
    rw [queue_of_writeItems interpolate items 0 target d₁ d' h, queue_of_set hs]
  | map entries =>
    rw [write] at h
    obtain ⟨d₁, hs, h⟩ := bind_eq_ok_iff.1 h
    rw [queue_of_writeEntries interpolate false entries target d₁ d' h, queue_of_set hs]
  | block entries =>
    rw [write] at h
    obtain ⟨d₁, hs, h⟩ := bind_eq_ok_iff.1 h
    obtain ⟨d₂, he, h⟩ := bind_eq_ok_iff.1 h
    rw [queue_of_addBlockCalls h,
      queue_of_writeEntries interpolate true entries target d₁ d₂ he, queue_of_set hs]
  | directive call => simp [write] at h
  | piped raw chain => simp [write] at h
termination_by structural tree

theorem queue_of_writeItems (interpolate : Bool) (items : List Tree) (position : Nat)
    (target : Reference) (d d' : Draft)
    (h : writeItems interpolate .argument items position target d = .ok d') :
    d'.queue = d.queue := by
  cases items with
  | nil =>
    rw [writeItems] at h
    cases h
    rfl
  | cons item rest =>
    rw [writeItems] at h
    obtain ⟨slot, -, h⟩ := bind_eq_ok_iff.1 h
    obtain ⟨d₁, hw, h⟩ := bind_eq_ok_iff.1 h
    rw [queue_of_writeItems interpolate rest (position + 1) target d₁ d' h,
      queue_of_write interpolate item slot d d₁ hw]
termination_by structural items

theorem queue_of_writeEntries (interpolate : Bool) (inBlock : Bool) (entries : List (Entry Tree))
    (target : Reference) (d d' : Draft)
    (h : writeEntries interpolate .argument inBlock entries target d = .ok d') :
    d'.queue = d.queue := by
  cases entries with
  | nil =>
    rw [writeEntries] at h
    cases h
    rfl
  | cons entry rest =>
    obtain ⟨key, value⟩ := entry
    rw [writeEntries] at h
    split at h
    · split at h
      · exact queue_of_writeEntries interpolate inBlock rest target d d' h
      · cases h
    · obtain ⟨slot, -, h⟩ := bind_eq_ok_iff.1 h
      obtain ⟨d₁, hw, h⟩ := bind_eq_ok_iff.1 h
      rw [queue_of_writeEntries interpolate inBlock rest target d₁ d' h,
        queue_of_write interpolate value slot d d₁ hw]
termination_by structural entries

end

theorem queue_of_writeArguments {interpolate : Bool} {base : String} {args : List Tree}
    {position : Nat} {d d' : Draft}
    (h : writeArguments interpolate base args position d = .ok d') : d'.queue = d.queue := by
  induction args generalizing position d with
  | nil =>
    cases h
    rfl
  | cons arg rest ih =>
    obtain ⟨slot, -, h⟩ := bind_eq_ok_iff.1 h
    obtain ⟨d₁, hw, h⟩ := bind_eq_ok_iff.1 h
    rw [ih h, queue_of_write interpolate arg slot d d₁ hw]

/-- Evaluating arguments leaves the queue as it is. -/
theorem queue_of_evaluateArguments {interpolate : Bool} {sources : List Value}
    {target : Reference} {call : Call Tree} {queue queue' : Queue Job} {args : List Value}
    (h : evaluateArguments interpolate sources target call queue = .ok (args, queue')) :
    queue' = queue := by
  obtain ⟨written, hw, h⟩ := bind_eq_ok_iff.1 h
  obtain ⟨values, -, h⟩ := bind_eq_ok_iff.1 h
  cases h
  exact queue_of_writeArguments hw

end Draft

end ConfigDoc
