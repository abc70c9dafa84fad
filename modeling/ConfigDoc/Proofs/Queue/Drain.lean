import ConfigDoc.Proofs.Queue
import Mathlib.Data.List.Induction

/-! A drain with one cursor, between whose requests tasks are queued: what is due is handed out first
in, first out. -/

namespace ConfigDoc.Queue

variable {κ α : Type}

/-- What is done with a queue. A request for the next payload comes with what the caller says of it. -/
inductive Operation (κ α : Type) where
  | add (stage : Stage) (payload : α)
  | addPersistent (stage : Stage) (payload : α)
  | next (request : κ)

def Operation.task? : Operation κ α → Option (Task α)
  | add stage payload => some ⟨stage, false, some payload⟩
  | addPersistent stage payload => some ⟨stage, true, some payload⟩
  | next _ => none

def queued (operations : List (Operation κ α)) : List (Task α) :=
  operations.filterMap Operation.task?

theorem queued_append_singleton (operations : List (Operation κ α)) (operation : Operation κ α) :
    queued (operations ++ [operation]) = queued operations ++ operation.task?.toList := by
  rw [queued, List.filterMap_append, List.filterMap_cons, List.filterMap_nil]
  cases operation.task? <;> rfl

/-- A queue in use: where the last request has left its cursor, and what has been handed out. -/
structure Usage (α : Type) where
  queue : Queue α
  cursor : Nat
  handedOut : List α

/-- One operation. `aim` tells the stage and the cursor of a request, also by the cursor that the last
request has left. -/
def Usage.step (aim : κ → Nat → Stage × Nat) (u : Usage α) : Operation κ α → Usage α
  | .add stage payload => { u with queue := u.queue.add stage payload }
  | .addPersistent stage payload => { u with queue := u.queue.addPersistent stage payload }
  | .next request =>
    let (stage, cursor) := aim request u.cursor
    let (payload?, queue, cursor') := u.queue.next stage cursor
    ⟨queue, cursor', u.handedOut ++ payload?.toList⟩

/-- A drain of a stage with one cursor, which begins at zero and goes on where it was left. -/
def drain (stage : Stage) (q : Queue α) (operations : List (Operation Unit α)) : Usage α :=
  operations.foldl (Usage.step fun _ cursor => (stage, cursor)) ⟨q, 0, []⟩

/-- A cursor within the slots is behind all of them when nothing was handed out. -/
theorem cursor_of_next_none {q q' : Queue α} {stage : Stage} {cursor cursor' : Nat}
    (hc : cursor ≤ q.tasks.length) (h : q.next stage cursor = (none, q', cursor')) :
    cursor' = q'.tasks.length := by
  unfold next at h
  split at h
  · cases h
  · unfold compact at h
    split at h <;> cases h
    · rfl
    · exact Nat.max_eq_right hc

/-- How far a drain has come with tasks: it has handed out those that were due in front of the cursor,
and the slots there hold what it leaves of them. -/
structure Underway (stage : Stage) (tasks : List (Task α)) (u : Usage α) : Prop where
  within : u.cursor ≤ u.queue.tasks.length
  due_eq : u.handedOut ++ due stage (u.queue.tasks.drop u.cursor) = due stage tasks
  left_eq : (u.queue.tasks.take u.cursor).filter (fun task => !task.isTaken) ++
    left stage (u.queue.tasks.drop u.cursor) = left stage tasks

section
variable {stage : Stage} {tasks : List (Task α)} {u : Usage α}

theorem underway_live (stage : Stage) (q : Queue α) : Underway stage q.live ⟨q, 0, []⟩ where
  within := Nat.zero_le _
  due_eq := (due_live stage q).symm
  left_eq := (left_live stage q).symm

/-- What is queued lies behind the cursor. -/
theorem Underway.push (h : Underway stage tasks u) (task : Task α) (queue : Queue α)
    (hq : queue.tasks = u.queue.tasks ++ [task]) :
    Underway stage (tasks ++ [task]) { u with queue := queue } where
  within := by
    dsimp only
    rw [hq, List.length_append]
    exact Nat.le_add_right_of_le h.within
  due_eq := by
    dsimp only
    rw [hq, List.drop_append_of_le_length h.within, due_append, due_append, ← List.append_assoc,
      h.due_eq]
  left_eq := by
    dsimp only
    rw [hq, List.drop_append_of_le_length h.within, List.take_append_of_le_length h.within,
      left_append, left_append, ← List.append_assoc, h.left_eq]

/-- A request hands out the first of what is due, or finds nothing that is. -/
theorem Underway.next (h : Underway stage tasks u) :
    (∃ payload queue cursor, u.queue.next stage u.cursor = (some payload, queue, cursor) ∧
      (∃ rest, due stage tasks = u.handedOut ++ payload :: rest) ∧
      Underway stage tasks ⟨queue, cursor, u.handedOut ++ [payload]⟩) ∨
    ∃ queue cursor, u.queue.next stage u.cursor = (none, queue, cursor) ∧
      u.handedOut = due stage tasks ∧ queue.live = left stage tasks ∧
      Underway stage tasks ⟨queue, cursor, u.handedOut⟩ := by
  rcases next_cases u.queue stage u.cursor with
    ⟨hdue, queue, cursor, hn, hl⟩ | ⟨payload, queue, cursor, hn, hdue, hl⟩
  · right
    have hall : u.handedOut = due stage tasks := by
      rw [← h.due_eq, hdue, List.append_nil]
    have hlive : queue.live = left stage tasks := by
      rw [hl, ← h.left_eq, left_of_due_eq_nil hdue, ← List.filter_append, List.take_append_drop]
      rfl
    have hend : cursor = queue.tasks.length := cursor_of_next_none h.within hn
    refine ⟨queue, cursor, hn, hall, hlive, Nat.le_of_eq hend, ?_, ?_⟩
    · rw [hend, List.drop_length]
      exact (List.append_nil _).trans hall
    · rw [hend, List.drop_length, List.take_length]
      exact (List.append_nil _).trans hlive
  · left
    obtain ⟨hlength, -, hle⟩ := next_eq_some hn
    have hrest : due stage tasks =
        u.handedOut ++ payload :: due stage (queue.tasks.drop cursor) := by
      rw [← h.due_eq, hdue]
    refine ⟨payload, queue, cursor, hn, ⟨_, hrest⟩, hlength ▸ hle, ?_, hl.trans h.left_eq⟩
    rw [hrest, List.append_assoc]
    rfl

/-- Every operation of a drain keeps it underway with what has been queued. -/
theorem Underway.step (h : Underway stage tasks u) (operation : Operation Unit α) :
    Underway stage (tasks ++ operation.task?.toList)
      (u.step (fun _ cursor => (stage, cursor)) operation) := by
  cases operation with
  | add _ _ => exact h.push _ _ rfl
  | addPersistent _ _ => exact h.push _ _ rfl
  | next _ =>
    rw [show (Operation.next () : Operation Unit α).task?.toList = [] from rfl, List.append_nil]
    rcases h.next with ⟨payload, queue, cursor, hn, -, hu⟩ | ⟨queue, cursor, hn, -, -, hu⟩
    · simpa only [Usage.step, hn, Option.toList_some] using hu
    · simpa only [Usage.step, hn, Option.toList_none, List.append_nil] using hu

end

theorem underway_drain (stage : Stage) (q : Queue α) (operations : List (Operation Unit α)) :
    Underway stage (q.live ++ queued operations) (drain stage q operations) := by
  induction operations using List.reverseRecOn with
  | nil =>
    rw [queued, List.filterMap_nil, List.append_nil]
    exact underway_live stage q
  | append_singleton operations operation ih =>
    rw [queued_append_singleton, ← List.append_assoc, drain, List.foldl_append]
    exact ih.step operation

/-- Whatever has been done with a queue before, and whatever is queued while a drain with one cursor is
under way, also after it has found nothing more: it has handed out an initial part of what was due at
its start and what came to be due since, in the order of the queue. It finds nothing exactly when that
was all, and then the tasks of other stages and the persistent ones are left, in their order. -/
theorem drain_in_order (stage : Stage) (q : Queue α) (operations : List (Operation Unit α)) :
    let u := drain stage q operations
    let tasks := q.live ++ queued operations
    let (payload?, queue, _) := u.queue.next stage u.cursor
    u.handedOut <+: due stage tasks ∧
    (payload? = none ↔ u.handedOut = due stage tasks) ∧
    (payload? = none → queue.live = left stage tasks) := by
  intro u tasks
  have h : Underway stage tasks u := underway_drain stage q operations
  rcases h.next with ⟨payload, queue, cursor, hn, ⟨rest, hrest⟩, -⟩ |
    ⟨queue, cursor, hn, hall, hlive, -⟩
  · rw [hn]
    refine ⟨⟨_, h.due_eq⟩, ⟨nofun, fun hall => ?_⟩, nofun⟩
    rw [← hall] at hrest
    simp at hrest
  · rw [hn]
    exact ⟨⟨_, h.due_eq⟩, ⟨fun _ => hall, fun _ => rfl⟩, fun _ => hlive⟩

def handOutAll (q : Queue α) (stage : Stage) (cursor : Nat) : List α :=
  match _found : q.next stage cursor with
  | (none, _, _) => []
  | (some payload, q', cursor') => payload :: handOutAll q' stage cursor'
termination_by q.tasks.length - cursor
decreasing_by
  have hn := next_eq_some _found
  omega

theorem handOutAll_eq (q : Queue α) (stage : Stage) (cursor : Nat) :
    q.handOutAll stage cursor = due stage (q.tasks.drop cursor) := by
  induction hk : q.tasks.length - cursor using Nat.strongRecOn generalizing q cursor with
  | ind k ih =>
    subst hk
    rw [handOutAll]
    rcases next_cases q stage cursor with
      ⟨hdue, q', cursor', hn, -⟩ | ⟨payload, q', cursor', hn, hdue, -⟩
    · split
      · exact hdue.symm
      · rename_i hs
        cases hn.symm.trans hs
    · split
      · rename_i hs
        cases hn.symm.trans hs
      · rename_i hs
        cases hn.symm.trans hs
        have hlt := next_eq_some hn
        rw [hdue, ih (q'.tasks.length - cursor') (by omega) q' cursor' rfl]

end ConfigDoc.Queue
