/-! A queue of tasks that belong to passes, drained pass by pass with a cursor. -/

namespace ConfigDoc

inductive Stage where
  | interpolation
  | directives
  /-- As a task's stage: every pass. As a pass: every task. -/
  | any
  deriving DecidableEq

namespace Stage

def runsIn (task drain : Stage) : Bool := task = any || drain = any || task = drain

def name : Stage → String
  | interpolation => "interpolation"
  | directives => "directives"
  | any => "*"

end Stage

/-- A slot of a queue. The payload of a task that runs once is gone when it has been handed out. -/
structure Task (α : Type) where
  stage : Stage
  persistent : Bool
  payload? : Option α

namespace Task

variable {α : Type}

def isTaken (task : Task α) : Bool := task.payload?.isNone

def payloadIn? (task : Task α) (drain : Stage) : Option α :=
  if task.stage.runsIn drain then task.payload? else none

def afterwards (task : Task α) : Task α :=
  if task.persistent then task else { task with payload? := none }

end Task

/-- Tasks in the order in which they were queued. Slots of tasks that have been handed out stay
until a drain reaches the end; `taken` counts them. -/
structure Queue (α : Type) where
  tasks : List (Task α)
  taken : Nat

namespace Queue

variable {α : Type}

def empty : Queue α := ⟨[], 0⟩

def add (q : Queue α) (stage : Stage) (payload : α) : Queue α :=
  { q with tasks := q.tasks ++ [⟨stage, false, some payload⟩] }

def addPersistent (q : Queue α) (stage : Stage) (payload : α) : Queue α :=
  { q with tasks := q.tasks ++ [⟨stage, true, some payload⟩] }

/-- The outcome of looking for a task: its payload, how many slots the cursor passes, and the slots
afterwards. -/
structure HandOut (α : Type) where
  payload : α
  persistent : Bool
  passed : Nat
  tasks : List (Task α)

def handOut? (drain : Stage) : List (Task α) → Option (HandOut α)
  | [] => none
  | task :: rest =>
    match task.payloadIn? drain with
    | some payload => some ⟨payload, task.persistent, 1, task.afterwards :: rest⟩
    | none => (handOut? drain rest).map fun found =>
        { found with passed := found.passed + 1, tasks := task :: found.tasks }

/-- Removes the empty slots, if there are any; the cursor is then at the end of what is left. -/
def compact (q : Queue α) (cursor : Nat) : Queue α × Nat :=
  if 0 < q.taken then
    let live := q.tasks.filter fun task => !task.isTaken
    (⟨live, 0⟩, live.length)
  else (q, cursor)

/-- The next payload for a drain at or behind the cursor, and the cursor behind it. Without one the
queue is compacted. Every drain starts with the cursor at zero. -/
def next (q : Queue α) (drain : Stage) (cursor : Nat) : Option α × Queue α × Nat :=
  match handOut? drain (q.tasks.drop cursor) with
  | some found =>
    let tasks := q.tasks.take cursor ++ found.tasks
    let taken := if found.persistent then q.taken else q.taken + 1
    (some found.payload, ⟨tasks, taken⟩, cursor + found.passed)
  | none => (none, q.compact (max cursor q.tasks.length))

def live (q : Queue α) : List (Task α) := q.tasks.filter fun task => !task.isTaken

def pending (q : Queue α) (drain : Stage) : Nat :=
  (q.live.filter fun task => task.stage.runsIn drain).length

def size (q : Queue α) : Nat := q.tasks.length - q.taken

def isEmpty (q : Queue α) : Bool := q.size = 0

theorem length_of_handOut? {drain : Stage} {tasks : List (Task α)} {found : HandOut α}
    (h : handOut? drain tasks = some found) :
    found.tasks.length = tasks.length ∧ 0 < found.passed ∧ found.passed ≤ tasks.length := by
  induction tasks generalizing found with
  | nil => simp [handOut?] at h
  | cons task rest ih =>
    unfold handOut? at h
    split at h
    · cases h
      simp
    · obtain ⟨inner, hi, rfl⟩ := Option.map_eq_some_iff.1 h
      have := ih hi
      simp only [List.length_cons]
      omega

/-- Every payload that is handed out brings the cursor nearer to the end. -/
theorem next_eq_some {q q' : Queue α} {drain : Stage} {cursor cursor' : Nat} {payload : α}
    (h : q.next drain cursor = (some payload, q', cursor')) :
    q'.tasks.length = q.tasks.length ∧ cursor < cursor' ∧ cursor' ≤ q.tasks.length := by
  unfold next at h
  split at h
  · rename_i found hf
    have hl := length_of_handOut? hf
    simp only [List.length_drop] at hl
    cases h
    simp only [List.length_append, List.length_take]
    omega
  · simp at h

end Queue

end ConfigDoc
