import ConfigDoc.Queue
import Mathlib.Tactic.Common

namespace ConfigDoc.Queue

variable {α : Type}

def waiting (queue : Queue α) : List α := queue.tasks.filterMap Task.payload?

/-- The payloads that a drain of a stage finds in a list of slots. -/
def due (drain : Stage) (tasks : List (Task α)) : List α :=
  tasks.filterMap fun task => task.payloadIn? drain

/-- The tasks that are left when a drain of a stage has passed a list of slots. -/
def left (drain : Stage) (tasks : List (Task α)) : List (Task α) :=
  tasks.filter fun task => !task.isTaken && (task.persistent || !task.stage.runsIn drain)

theorem due_cons_none {drain : Stage} {task : Task α} (h : task.payloadIn? drain = none)
    (rest : List (Task α)) : due drain (task :: rest) = due drain rest := by
  simp [due, h]

theorem due_cons_some {drain : Stage} {task : Task α} {payload : α}
    (h : task.payloadIn? drain = some payload) (rest : List (Task α)) :
    due drain (task :: rest) = payload :: due drain rest := by
  simp [due, h]

theorem due_append (drain : Stage) (tasks others : List (Task α)) :
    due drain (tasks ++ others) = due drain tasks ++ due drain others := by
  simp [due]

theorem left_append (drain : Stage) (tasks others : List (Task α)) :
    left drain (tasks ++ others) = left drain tasks ++ left drain others := by
  simp [left]

/-- Slots whose payload is gone do not count. -/
theorem due_live (drain : Stage) (q : Queue α) : due drain q.live = due drain q.tasks := by
  unfold due live
  rw [List.filterMap_filter]
  congr
  funext task
  cases h : task.isTaken with
  | false => rfl
  | true =>
    have hn : task.payload? = none := Option.isNone_iff_eq_none.1 h
    simp [Task.payloadIn?, hn]

theorem left_live (drain : Stage) (q : Queue α) : left drain q.live = left drain q.tasks := by
  unfold left live
  rw [List.filter_filter]
  congr
  funext task
  cases task.isTaken <;> simp

theorem live_add (q : Queue α) (stage : Stage) (payload : α) :
    (q.add stage payload).live = q.live ++ [⟨stage, false, some payload⟩] :=
  List.filter_append _ _

theorem live_addPersistent (q : Queue α) (stage : Stage) (payload : α) :
    (q.addPersistent stage payload).live = q.live ++ [⟨stage, true, some payload⟩] :=
  List.filter_append _ _

@[simp] theorem live_live (q : Queue α) : (⟨q.live, 0⟩ : Queue α).live = q.live :=
  List.filter_filter.trans (by simp [live])

theorem live_compact (q : Queue α) (cursor : Nat) : (q.compact cursor).1.live = q.live := by
  unfold compact
  split
  · exact live_live q
  · rfl

/-- Where nothing is due, everything that is there is left. -/
theorem left_of_due_eq_nil {drain : Stage} {tasks : List (Task α)} (h : due drain tasks = []) :
    left drain tasks = tasks.filter fun task => !task.isTaken := by
  unfold left
  apply List.filter_congr
  intro task ht
  have hp : task.payloadIn? drain = none := by
    by_contra hs
    obtain ⟨payload, hs⟩ := Option.ne_none_iff_exists'.1 hs
    have hm : payload ∈ due drain tasks := List.mem_filterMap.2 ⟨task, ht, hs⟩
    rw [h] at hm
    cases hm
  unfold Task.payloadIn? at hp
  unfold Task.isTaken
  split at hp
  · simp [hp]
  · rename_i hr
    simp [hr]

theorem due_of_handOut?_eq_none {drain : Stage} {tasks : List (Task α)}
    (h : handOut? drain tasks = none) : due drain tasks = [] := by
  induction tasks with
  | nil => rfl
  | cons task rest ih =>
    unfold handOut? at h
    split at h
    · cases h
    · rename_i hp
      rw [due_cons_none hp]
      exact ih (Option.map_eq_none_iff.1 h)

/-- The first payload that is due is handed out, and only its slot changes. -/
theorem handOut?_eq_some {drain : Stage} {tasks : List (Task α)} {found : HandOut α}
    (h : handOut? drain tasks = some found) :
    ∃ before task after, tasks = before ++ task :: after ∧ due drain before = [] ∧
      task.payloadIn? drain = some found.payload ∧ found.persistent = task.persistent ∧
      found.passed = before.length + 1 ∧ found.tasks = before ++ task.afterwards :: after := by
  induction tasks generalizing found with
  | nil => cases h
  | cons task rest ih =>
    unfold handOut? at h
    split at h
    · rename_i payload hp
      cases h
      exact ⟨[], task, rest, rfl, rfl, hp, rfl, rfl, rfl⟩
    · rename_i hp
      obtain ⟨inner, hi, rfl⟩ := Option.map_eq_some_iff.1 h
      obtain ⟨before, next, after, rfl, hb, hn, hpers, hl, ht⟩ := ih hi
      exact ⟨task :: before, next, after, rfl, (due_cons_none hp before).trans hb, hn, hpers,
        by simp [hl], by simp [ht]⟩

/-- A slot whose payload was handed out counts on only if it is persistent. -/
theorem live_afterwards {drain : Stage} {task : Task α} {payload : α}
    (h : task.payloadIn? drain = some payload) :
    [task.afterwards].filter (fun task => !task.isTaken) = left drain [task] := by
  unfold Task.payloadIn? at h
  split at h
  · rename_i hr
    cases hp : task.persistent <;>
      simp [left, Task.afterwards, Task.isTaken, hp, h, hr]
  · cases h

/-- A drain that is at a cursor goes on with the first payload due behind it, or ends. -/
theorem next_cases (q : Queue α) (drain : Stage) (cursor : Nat) :
    (due drain (q.tasks.drop cursor) = [] ∧ ∃ q' cursor',
      q.next drain cursor = (none, q', cursor') ∧ q'.live = q.live) ∨
    ∃ payload q' cursor', q.next drain cursor = (some payload, q', cursor') ∧
      due drain (q.tasks.drop cursor) = payload :: due drain (q'.tasks.drop cursor') ∧
      (q'.tasks.take cursor').filter (fun task => !task.isTaken) ++
          left drain (q'.tasks.drop cursor') =
        (q.tasks.take cursor).filter (fun task => !task.isTaken) ++
          left drain (q.tasks.drop cursor) := by
  unfold next
  split
  · rename_i found hf
    right
    obtain ⟨before, task, after, hd, hb, hp, -, hl, ht⟩ := handOut?_eq_some hf
    refine ⟨_, _, _, rfl, ?_⟩
    have hc : (q.tasks.take cursor).length = cursor := by
      rw [List.length_take, Nat.min_eq_left]
      by_contra hlt
      rw [List.drop_eq_nil_of_le (by omega)] at hd
      exact absurd hd.symm (by simp)
    -- In front of the new cursor are the slots passed before, those that were not due, and the one
    -- that has been handed out.
    have hsplit : q.tasks.take cursor ++ found.tasks =
        (q.tasks.take cursor ++ (before ++ [task.afterwards])) ++ after := by simp [ht]
    have hlength : (q.tasks.take cursor ++ (before ++ [task.afterwards])).length =
        cursor + found.passed := by simp only [List.length_append, hc, hl, List.length_singleton]
    dsimp only
    rw [hsplit, ← hlength, List.drop_left, List.take_left, hd]
    refine ⟨?_, ?_⟩
    · rw [due_append, hb, List.nil_append, due_cons_some hp]
    · rw [List.filter_append, List.filter_append, live_afterwards hp,
        ← left_of_due_eq_nil hb, left_append, show task :: after = [task] ++ after from rfl,
        left_append]
      simp only [List.append_assoc]
  · rename_i hn
    left
    exact ⟨due_of_handOut?_eq_none hn, _, _, rfl, live_compact q _⟩

def Counted (q : Queue α) : Prop := q.taken = q.tasks.countP Task.isTaken

theorem Counted.add {q : Queue α} (h : q.Counted) (stage : Stage) (payload : α) :
    (q.add stage payload).Counted := by
  rw [Counted, Queue.add, List.countP_append, ← h]
  rfl

theorem Counted.addPersistent {q : Queue α} (h : q.Counted) (stage : Stage) (payload : α) :
    (q.addPersistent stage payload).Counted := by
  rw [Counted, Queue.addPersistent, List.countP_append, ← h]
  rfl

/-- Where the counter is right, compacting leaves the live tasks and nothing else. -/
theorem Counted.compact {q : Queue α} (h : q.Counted) (cursor : Nat) :
    (q.compact cursor).1 = ⟨q.live, 0⟩ := by
  unfold Queue.compact
  split
  · rfl
  · rename_i ht
    have hzero : q.taken = 0 := Nat.eq_zero_of_not_pos ht
    have hlive : q.live = q.tasks := by
      refine List.filter_eq_self.2 fun task hm => ?_
      have hn := List.countP_eq_zero.1 (h.symm.trans hzero) task hm
      simpa using hn
    rw [hlive, ← hzero]

theorem counted_live (q : Queue α) : (⟨q.live, 0⟩ : Queue α).Counted := by
  refine (List.countP_eq_zero.2 fun task hm => ?_).symm
  simpa using (List.mem_filter.1 hm).2

theorem isTaken_of_payloadIn? {drain : Stage} {task : Task α} {payload : α}
    (h : task.payloadIn? drain = some payload) : task.isTaken = false := by
  unfold Task.payloadIn? at h
  split at h
  · rw [Task.isTaken, h]
    rfl
  · cases h

/-- Looking for a payload keeps the counter right. -/
theorem Counted.next {q : Queue α} (h : q.Counted) (drain : Stage) (cursor : Nat) :
    (q.next drain cursor).2.1.Counted := by
  unfold Queue.next
  split
  · rename_i found hf
    obtain ⟨before, task, after, hd, -, hp, hpers, -, ht⟩ := handOut?_eq_some hf
    have hlive := isTaken_of_payloadIn? hp
    have hcount : q.taken = (q.tasks.take cursor).countP Task.isTaken +
        (before ++ task :: after).countP Task.isTaken := by
      rw [h, ← hd, ← List.countP_append, List.take_append_drop]
    simp only [Counted, ht, hpers, List.countP_append, List.countP_cons, hlive] at hcount ⊢
    cases hkind : task.persistent with
    | true => simp [Task.afterwards, hkind, hlive, hcount]
    | false =>
      have hgone : task.afterwards.isTaken = true := by simp [Task.afterwards, hkind, Task.isTaken]
      simp only [hgone, if_true, Bool.false_eq_true, if_false] at hcount ⊢
      omega
  · dsimp only
    rw [h.compact]
    exact counted_live q

/-- Handing out takes a task from the live ones, and puts it back if it is persistent. -/
theorem live_of_next_some {q q' : Queue α} {drain : Stage} {cursor cursor' : Nat} {payload : α}
    (h : q.next drain cursor = (some payload, q', cursor')) :
    ∃ before task after, q.live = before ++ task :: after ∧ task.payload? = some payload ∧
      q'.live = before ++ ((if task.persistent then [task] else []) ++ after) := by
  unfold Queue.next at h
  split at h
  · rename_i found hf
    cases h
    obtain ⟨before, task, after, hd, -, hp, -, -, ht⟩ := handOut?_eq_some hf
    have hlive := isTaken_of_payloadIn? hp
    have hafter := live_afterwards hp
    unfold Task.payloadIn? at hp
    split at hp
    · rename_i hr
      refine ⟨(q.tasks.take cursor ++ before).filter fun task => !task.isTaken, task,
        after.filter fun task => !task.isTaken, ?_, hp, ?_⟩
      · have hq : q.tasks = q.tasks.take cursor ++ (before ++ task :: after) := by
          rw [← hd, List.take_append_drop]
        refine (congrArg (List.filter fun task => !task.isTaken) hq).trans ?_
        simp [hlive]
      · rw [live, ht, ← List.singleton_append (x := task.afterwards)]
        simp only [List.filter_append, hafter, List.append_assoc]
        simp [left, hlive, hr, List.filter_cons]
    · cases hp
  · cases h

theorem live_of_next_none {q q' : Queue α} {drain : Stage} {cursor cursor' : Nat}
    (h : q.next drain cursor = (none, q', cursor')) : q'.live = q.live := by
  rcases next_cases q drain cursor with ⟨-, _, _, hn, hl⟩ | ⟨_, _, _, hn, -⟩
  · cases hn.symm.trans h
    exact hl
  · cases hn.symm.trans h

/-- What is live when a payload has been looked for was live before. -/
theorem live_next (q : Queue α) (drain : Stage) (cursor : Nat) :
    (q.next drain cursor).2.1.live.Sublist q.live := by
  rcases hn : q.next drain cursor with ⟨_ | payload, q', cursor'⟩
  · exact live_of_next_none hn ▸ List.Sublist.refl _
  · obtain ⟨before, task, after, hq, -, hq'⟩ := live_of_next_some hn
    dsimp only
    rw [hq, hq']
    refine (List.Sublist.refl before).append ?_
    split
    · exact List.Sublist.refl _
    · exact List.sublist_cons_self task after

/-- When nothing is handed out, the live tasks are all that stays. -/
theorem Counted.next_none {q q' : Queue α} (h : q.Counted) {drain : Stage} {cursor cursor' : Nat}
    (hn : q.next drain cursor = (none, q', cursor')) : q' = ⟨q.live, 0⟩ := by
  unfold Queue.next at hn
  split at hn
  · cases hn
  · have hc := h.compact (max cursor q.tasks.length)
    rwa [(Prod.mk.inj hn).2] at hc

/-- Slots are empty or live. -/
theorem Counted.size_eq {q : Queue α} (h : q.Counted) :
    q.taken + q.live.length = q.tasks.length ∧ q.size = q.live.length := by
  have hl : q.tasks.length = q.taken + q.live.length := by
    rw [h, live, ← List.countP_eq_length_filter]
    simpa using List.length_eq_countP_add_countP (l := q.tasks) Task.isTaken
  exact ⟨hl.symm, by rw [size, hl, Nat.add_sub_cancel_left]⟩

/-- As many tasks are pending as are due. -/
theorem pending_eq (q : Queue α) (stage : Stage) :
    q.pending stage = (due stage q.live).length := by
  rw [pending, due, List.length_filterMap_eq_countP, ← List.countP_eq_length_filter]
  refine List.countP_congr fun task hm => ?_
  have hp : task.payload?.isSome := by simpa [Task.isTaken] using (List.mem_filter.1 hm).2
  unfold Task.payloadIn?
  split
  · rename_i hr
    rw [hr, hp]
  · rename_i hr
    simp [hr]

end ConfigDoc.Queue
