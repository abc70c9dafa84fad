import ConfigDoc.Reference

namespace ConfigDoc

/-- Steps of host code: it may look at the whole tree, change its own node or one that it was given
earlier and has kept, and keep a state of its own of type `σ`. A change that is refused comes back
as an error. -/
inductive Action (σ α : Type) where
  | done (a : α)
  | fail (e : Error)
  | look (next : Value → Action σ α)
  | change (f : Value → Value) (next : Except Error Unit → Action σ α)
  | changeKept (kept : Reference) (f : Value → Value) (next : Except Error Unit → Action σ α)
  | getHost (next : σ → Action σ α)
  | setHost (state : σ) (next : Action σ α)

/-- A computation of the host that touches no document. -/
abbrev Host (σ α : Type) := σ → Except Error α × σ

namespace Action

variable {σ α β : Type}

def andThen : Action σ α → (α → Action σ β) → Action σ β
  | done a, f => f a
  | fail e, _ => fail e
  | look next, f => look fun root => (next root).andThen f
  | change g next, f => change g fun result => (next result).andThen f
  | changeKept kept g next, f => changeKept kept g fun result => (next result).andThen f
  | getHost next, f => getHost fun state => (next state).andThen f
  | setHost state next, f => setHost state (next.andThen f)

instance : Monad (Action σ) where
  pure := done
  bind := andThen

def root : Action σ Value := look done

def update (f : Value → Value) : Action σ Unit :=
  change f fun
    | .ok () => done ()
    | .error e => fail e

def set (v : Value) : Action σ Unit := update fun _ => v

/-- The value of the node, null if there is none. -/
def valueOf (node : Reference) : Action σ Value := look fun root => done (node.value root)

def baseOf (node : Reference) : Action σ Value :=
  look fun root => done ((node.base? root).getD .null)

def get? (path : String) : Action σ (Option Value) := look fun root => done (root.get? path)

def ofHost (computation : Host σ α) : Action σ α :=
  getHost fun state =>
    let (result, after) := computation state
    setHost after <|
      match result with
      | .ok a => done a
      | .error e => fail e

def run (node : Reference) : Action σ α → Value → σ → Except Error α × Value × σ
  | done a, root, state => (.ok a, root, state)
  | fail e, root, state => (.error e, root, state)
  | look next, root, state => (next root).run node root state
  | change f next, root, state =>
    match node.replace root f with
    | .ok root' => (next (.ok ())).run node root' state
    | .error e => (next (.error e)).run node root state
  | changeKept kept f next, root, state =>
    match kept.replace root f with
    | .ok root' => (next (.ok ())).run node root' state
    | .error e => (next (.error e)).run node root state
  | getHost next, root, state => (next state).run node root state
  | setHost state next, root, _ => next.run node root state

end Action

end ConfigDoc
