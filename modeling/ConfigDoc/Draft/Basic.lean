import ConfigDoc.Queue
import ConfigDoc.Reference

/-! Writing a tree into a document, and queueing the work that has to wait for all of it. -/

namespace ConfigDoc

inductive Job where
  | interpolate (target : Reference) (template : Template)
  | directives (target : Reference) (calls : List (Call Tree))
  /-- Resolves the templates that are left anywhere in the document. -/
  | sweep

/-- Where a tree is written: into the document, or among the arguments of a call, which queue
nothing. -/
inductive Placement where
  | document
  | argument
  deriving DecidableEq

structure Draft where
  root : Value
  queue : Queue Job

namespace Draft

def set (d : Draft) (target : Reference) (v : Value) : Except Error Draft := do
  let root ← target.set d.root v
  pure { d with root := root }

def addCalls (d : Draft) (target : Reference) (calls : List (Call Tree)) : Draft :=
  if calls.isEmpty then d
  else { d with queue := d.queue.add .directives (.directives target calls) }

def writeTemplate (interpolate : Bool) (placement : Placement) (source : String)
    (target : Reference) (d : Draft) : Except Error Draft := do
  let template : Template := ⟨source⟩
  if !interpolate || !template.hasTokens then d.set target (.string source)
  else
    let d ← d.set target (.template template)
    match placement with
    | .document =>
      pure { d with queue := d.queue.add .interpolation (.interpolate target template) }
    | .argument => pure d

def addBlockCalls (placement : Placement) (calls : List (Call Tree)) (target : Reference)
    (d : Draft) : Except Error Draft :=
  match placement with
  | .document => .ok (calls.foldl (fun d call => d.addCalls target [call]) d)
  | .argument => if calls.isEmpty then .ok d else .error (.invalidNode .directive)

mutual

def write (interpolate : Bool) (placement : Placement) (tree : Tree) (target : Reference)
    (d : Draft) : Except Error Draft :=
  match tree with
  | .numeric x => d.set target (.number x)
  | .boolean b => d.set target (.bool b)
  | .rawString s => d.set target (.string s)
  | .complexString s => writeTemplate interpolate placement s target d
  | .array items => do
    let d ← d.set target (.array [])
    writeItems interpolate placement items 0 target d
  | .map entries => do
    let d ← d.set target .empty
    writeEntries interpolate placement false entries target d
  | .block entries => do
    let d ← d.set target .empty
    let d ← writeEntries interpolate placement true entries target d
    addBlockCalls placement (entries.filterMap fun entry => entry.value.asCall?) target d
  | .piped raw chain =>
    match placement with
    | .argument => .error (.invalidNode .piped)
    | .document => do
      let d ← write interpolate placement raw target d
      pure (d.addCalls target chain)
  | .directive _ => .error (.invalidNode .directive)
termination_by structural tree

def writeItems (interpolate : Bool) (placement : Placement) (items : List Tree) (position : Nat)
    (target : Reference) (d : Draft) : Except Error Draft :=
  match items with
  | [] => .ok d
  | item :: rest => do
    let slot ← target.index d.root position
    let d ← write interpolate placement item slot d
    writeItems interpolate placement rest (position + 1) target d
termination_by structural items

/-- Writes entries in order. The calls of a block are left for when its other entries are there; a
map has none. -/
def writeEntries (interpolate : Bool) (placement : Placement) (inBlock : Bool)
    (entries : List (Entry Tree)) (target : Reference) (d : Draft) : Except Error Draft :=
  match entries with
  | [] => .ok d
  | ⟨key, value⟩ :: rest => do
    if value.asCall?.isSome then
      if inBlock then writeEntries interpolate placement inBlock rest target d
      else .error (.invalidNode .directive)
    else
      let slot ← target.child d.root key
      let d ← write interpolate placement value slot d
      writeEntries interpolate placement inBlock rest target d
termination_by structural entries

end

/-- The draft of a whole configuration, which has to be a block or a map; both may hold calls. The
last task of the queue resolves what templates are left. -/
def ofTree (interpolate : Bool) (tree : Tree) : Except Error Draft :=
  match tree.entries? with
  | none => .error (.invalidNode tree.kind)
  | some entries => do
    let start : Draft := ⟨Reference.emptyRoot, Queue.empty⟩
    let d ← write interpolate .document (.block entries) Reference.document start
    pure { d with queue := d.queue.addPersistent .interpolation .sweep }

end Draft

end ConfigDoc
