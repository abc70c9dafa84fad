import ConfigDoc.Proofs.Queue.Drain
import Mathlib.Data.List.Nodup

/-! No task of a queue is lost or handed out twice, whatever is asked of the queue and at whichever
cursor. -/

namespace ConfigDoc

variable {κ α β : Type}

def Task.map (f : α → β) (task : Task α) : Task β :=
  ⟨task.stage, task.persistent, task.payload?.map f⟩

def Task.number? (task : Task (Nat × α)) : Option Nat := task.payload?.map Prod.fst

namespace Queue

def map (f : α → β) (q : Queue α) : Queue β := ⟨q.tasks.map (Task.map f), q.taken⟩

def HandOut.map (f : α → β) (found : HandOut α) : HandOut β :=
  ⟨f found.payload, found.persistent, found.passed, found.tasks.map (Task.map f)⟩

def Operation.map (f : α → β) : Operation κ α → Operation κ β
  | add stage payload => add stage (f payload)
  | addPersistent stage payload => addPersistent stage (f payload)
  | next request => next request

def Usage.map (f : α → β) (u : Usage α) : Usage β := ⟨u.queue.map f, u.cursor, u.handedOut.map f⟩

section
variable (f : α → β)

theorem isTaken_map (task : Task α) : (task.map f).isTaken = task.isTaken := Option.isNone_map

theorem payloadIn?_map (drain : Stage) (task : Task α) :
    (task.map f).payloadIn? drain = (task.payloadIn? drain).map f := by
  unfold Task.payloadIn? Task.map
  split <;> rfl

theorem afterwards_map (task : Task α) : (task.map f).afterwards = task.afterwards.map f := by
  unfold Task.afterwards Task.map
  dsimp only
  split <;> rfl

theorem handOut?_map (drain : Stage) (tasks : List (Task α)) :
    handOut? drain (tasks.map (Task.map f)) = (handOut? drain tasks).map (HandOut.map f) := by
  induction tasks with
  | nil => rfl
  | cons task rest ih =>
    rw [List.map_cons, handOut?, handOut?, payloadIn?_map, afterwards_map, ih]
    cases task.payloadIn? drain with
    | some payload => rfl
    | none => cases handOut? drain rest <;> rfl

theorem live_map (q : Queue α) : (q.map f).live = q.live.map (Task.map f) := by
  unfold live map
  rw [List.filter_map]
  congr
  funext task
  exact congrArg _ (isTaken_map f task)

theorem compact_map (q : Queue α) (cursor : Nat) :
    (q.map f).compact cursor = ((q.compact cursor).1.map f, (q.compact cursor).2) := by
  have hl : (q.map f).tasks.filter (fun task => !task.isTaken) = q.live.map (Task.map f) :=
    live_map f q
  unfold compact
  rw [hl, show (q.map f).taken = q.taken from rfl]
  split
  · exact Prod.ext rfl (List.length_map _)
  · rfl

/-- Looking for a payload does not look at payloads. -/
theorem next_map (q : Queue α) (drain : Stage) (cursor : Nat) :
    (q.map f).next drain cursor = ((q.next drain cursor).1.map f,
      (q.next drain cursor).2.1.map f, (q.next drain cursor).2.2) := by
  unfold next
  rw [show (q.map f).tasks.drop cursor = (q.tasks.drop cursor).map (Task.map f) from
    List.map_drop.symm, handOut?_map]
  cases handOut? drain (q.tasks.drop cursor) with
  | some found => simp [HandOut.map, map, List.map_take]
  | none =>
    dsimp only [Option.map_none]
    rw [compact_map, show (q.map f).tasks.length = q.tasks.length from List.length_map _]

theorem step_map (aim : κ → Nat → Stage × Nat) (u : Usage α) (operation : Operation κ α) :
    (u.map f).step aim (operation.map f) = (u.step aim operation).map f := by
  cases operation with
  | add stage payload => simp [Usage.step, Usage.map, Operation.map, add, map, Task.map]
  | addPersistent stage payload =>
    simp [Usage.step, Usage.map, Operation.map, addPersistent, map, Task.map]
  | next request =>
    have hn := next_map f u.queue (aim request u.cursor).1 (aim request u.cursor).2
    simp only [Usage.step, Operation.map, Usage.map, hn, List.map_append]
    cases (u.queue.next (aim request u.cursor).1 (aim request u.cursor).2).1 <;> rfl

end

/-- A history of a queue that is empty at first. Every request says for which stage it is and at which
cursor it looks, and that may be any. -/
def use (operations : List (Operation (Stage × Nat) α)) : Usage α :=
  operations.foldl (Usage.step fun request _ => request) ⟨empty, 0, []⟩

theorem use_append_singleton (operations : List (Operation (Stage × Nat) α))
    (operation : Operation (Stage × Nat) α) : use (operations ++ [operation]) =
      (use operations).step (fun request _ => request) operation :=
  List.foldl_append.trans rfl

theorem use_map (f : α → β) (operations : List (Operation (Stage × Nat) α)) :
    use (operations.map (Operation.map f)) = (use operations).map f := by
  induction operations using List.reverseRecOn with
  | nil => rfl
  | append_singleton operations operation ih =>
    rw [List.map_append, List.map_singleton, use_append_singleton, use_append_singleton, ih,
      step_map]

/-- The operations with payloads that are numbered by the places of their operations. -/
def number (operations : List (Operation κ α)) : List (Operation κ (Nat × α)) :=
  operations.mapIdx fun place operation => operation.map (Prod.mk place)

def Usage.count (u : Usage (Nat × α)) (task : Task (Nat × α)) : Nat :=
  u.handedOut.countP fun payload => task.number? = some payload.1

theorem number_append_singleton (operations : List (Operation κ α)) (operation : Operation κ α) :
    number (operations ++ [operation]) =
      number operations ++ [operation.map (Prod.mk operations.length)] :=
  List.mapIdx_concat

/-- The numbers can be forgotten. -/
theorem map_number (operations : List (Operation κ α)) :
    (number operations).map (Operation.map Prod.snd) = operations := by
  induction operations using List.reverseRecOn with
  | nil => rfl
  | append_singleton operations operation ih =>
    rw [number_append_singleton, List.map_append, ih]
    cases operation <;> rfl

theorem number?_of_mem_task? {operation : Operation κ α} {place : Nat} {task : Task (Nat × α)}
    (h : (operation.map (Prod.mk place)).task? = some task) : task.number? = some place := by
  cases operation <;> cases h <;> rfl

/-- Numbers are places that have been passed. -/
theorem number?_of_mem_queued {operations : List (Operation κ α)} {task : Task (Nat × α)}
    (h : task ∈ queued (number operations)) : ∃ place < operations.length,
      task.number? = some place := by
  induction operations using List.reverseRecOn with
  | nil => cases h
  | append_singleton operations operation ih =>
    rw [number_append_singleton, queued_append_singleton, List.mem_append] at h
    rw [List.length_append, List.length_singleton]
    rcases h with h | h
    · obtain ⟨place, hlt, hp⟩ := ih h
      exact ⟨place, Nat.lt_succ_of_lt hlt, hp⟩
    · exact ⟨_, Nat.lt_succ_self _, number?_of_mem_task? (Option.mem_toList.1 h)⟩

/-- No two tasks have the same number. -/
theorem nodup_number? (operations : List (Operation κ α)) :
    ((queued (number operations)).map Task.number?).Nodup := by
  induction operations using List.reverseRecOn with
  | nil => exact List.nodup_nil
  | append_singleton operations operation ih =>
    rw [number_append_singleton, queued_append_singleton, List.map_append]
    cases ht : (operation.map (Prod.mk operations.length)).task? with
    | none => simpa using ih
    | some task =>
      rw [Option.toList_some, List.map_singleton, number?_of_mem_task? ht, List.nodup_append]
      refine ⟨ih, by simp, ?_⟩
      rintro _ hm _ hs rfl
      obtain ⟨old, ho, he⟩ := List.mem_map.1 hm
      obtain ⟨place, hlt, hp⟩ := number?_of_mem_queued ho
      cases (hp.symm.trans he).trans (List.mem_singleton.1 hs)
      exact absurd hlt (Nat.lt_irrefl _)

/-- What has become of tasks: those that were to run once and have been handed out are gone, all others
are live, and nothing else has been handed out. -/
structure Accounted (tasks : List (Task (Nat × α))) (u : Usage (Nat × α)) : Prop where
  live_eq : u.queue.live = tasks.filter fun task => task.persistent || u.count task = 0
  once : ∀ task ∈ tasks, task.persistent = false → u.count task ≤ 1
  known : ∀ payload ∈ u.handedOut, ∃ task ∈ tasks, task.payload? = some payload

section
variable {tasks : List (Task (Nat × α))} {u : Usage (Nat × α)}

/-- A task with a new number has not been handed out. -/
theorem Accounted.push (h : Accounted tasks u) {task : Task (Nat × α)}
    (hn : ((tasks ++ [task]).map Task.number?).Nodup) {queue : Queue (Nat × α)}
    (hq : queue.live = u.queue.live ++ [task]) :
    Accounted (tasks ++ [task]) { u with queue := queue } := by
  have hnew : u.count task = 0 := by
    refine List.countP_eq_zero.2 fun payload hp hs => ?_
    obtain ⟨old, ho, he⟩ := h.known payload hp
    rw [List.map_append] at hn
    refine (List.nodup_append.1 hn).2.2 _ (List.mem_map_of_mem ho) _
      (List.mem_singleton_self task.number?) ?_
    rw [Task.number?, he, of_decide_eq_true hs]
    rfl
  refine ⟨?_, fun old ho hk => ?_, fun payload hp => ?_⟩
  · dsimp only
    rw [hq, h.live_eq, List.filter_append]
    have hc : (decide (Usage.count { u with queue := queue } task = 0)) = true :=
      decide_eq_true hnew
    rw [List.filter_cons_of_pos (by rw [hc, Bool.or_true]), List.filter_nil]
    rfl
  · rcases List.mem_append.1 ho with ho | ho
    · exact h.once old ho hk
    · cases List.mem_singleton.1 ho
      exact Nat.le_trans (Nat.le_of_eq hnew) (Nat.zero_le _)
  · obtain ⟨old, ho, he⟩ := h.known payload hp
    exact ⟨old, List.mem_append_left _ ho, he⟩

theorem Accounted.idle (h : Accounted tasks u) {queue : Queue (Nat × α)} {cursor : Nat}
    (hq : queue.live = u.queue.live) : Accounted tasks ⟨queue, cursor, u.handedOut⟩ :=
  ⟨hq.trans h.live_eq, h.once, h.known⟩

theorem count_append_singleton (queue : Queue (Nat × α)) (cursor : Nat) (payload : Nat × α)
    (task : Task (Nat × α)) : Usage.count ⟨queue, cursor, u.handedOut ++ [payload]⟩ task =
      u.count task + if task.number? = some payload.1 then 1 else 0 := by
  simp [Usage.count, List.countP_append, List.countP_singleton]

/-- Handing out finds a live task by its number, and takes away none but this one. -/
theorem live_of_next_number {q q' : Queue (Nat × α)} (hn : (q.live.map Task.number?).Nodup)
    {stage : Stage} {cursor cursor' : Nat} {payload : Nat × α}
    (h : q.next stage cursor = (some payload, q', cursor')) :
    ∃ task ∈ q.live, task.payload? = some payload ∧ q'.live = q.live.filter fun other =>
      other.persistent || other.number? ≠ some payload.1 := by
  obtain ⟨before, task, after, hq, hp, hq'⟩ := live_of_next_some h
  have hnumber : task.number? = some payload.1 := by
    rw [Task.number?, hp]
    rfl
  have hothers : ∀ other ∈ before ++ after, other.number? ≠ some payload.1 := by
    rw [hq, List.map_append, List.map_cons, List.nodup_middle, List.nodup_cons, ← List.map_append]
      at hn
    exact fun other ho hs => hn.1 (hnumber.trans hs.symm ▸ List.mem_map_of_mem ho)
  have hkeep (others : List (Task (Nat × α))) (ho : others ⊆ before ++ after) :
      others.filter (fun other => other.persistent || other.number? ≠ some payload.1) = others :=
    List.filter_eq_self.2 fun other hm => by simp [hothers other (ho hm)]
  refine ⟨task, hq ▸ List.mem_append_right _ List.mem_cons_self, hp, ?_⟩
  rw [hq, hq', List.filter_append, List.filter_cons, hkeep before (List.subset_append_left _ _),
    hkeep after (List.subset_append_right _ _)]
  cases hk : task.persistent <;> simp [hnumber]

/-- What is handed out was live, so no task that runs once comes again. -/
theorem Accounted.next (h : Accounted tasks u) (hn : (tasks.map Task.number?).Nodup)
    {stage : Stage} {cursor cursor' : Nat} {payload : Nat × α} {queue : Queue (Nat × α)}
    (ho : u.queue.next stage cursor = (some payload, queue, cursor')) :
    Accounted tasks ⟨queue, cursor', u.handedOut ++ [payload]⟩ := by
  have hsub : u.queue.live.Sublist tasks := h.live_eq ▸ List.filter_sublist
  obtain ⟨task, hmem, hp, hlive⟩ :=
    live_of_next_number (hn.sublist (hsub.map Task.number?)) ho
  have hnumber : task.number? = some payload.1 := by
    rw [Task.number?, hp]
    rfl
  refine ⟨?_, fun other hm hk => ?_, fun other hm => ?_⟩
  · rw [hlive, h.live_eq, List.filter_filter]
    apply List.filter_congr
    intro other _
    rw [count_append_singleton]
    by_cases hs : other.number? = some payload.1 <;> cases other.persistent <;> simp [hs]
  · rw [count_append_singleton]
    split
    · rename_i hs
      have he : other = task :=
        List.inj_on_of_nodup_map hn hm (hsub.subset hmem) (hs.trans hnumber.symm)
      have hl : task ∈ tasks.filter fun task => task.persistent || u.count task = 0 :=
        h.live_eq ▸ hmem
      have hzero : u.count task = 0 := by simpa [← he, hk] using (List.mem_filter.1 hl).2
      rw [he]
      omega
    · exact h.once other hm hk
  · rcases List.mem_append.1 hm with hm | hm
    · exact h.known other hm
    · cases List.mem_singleton.1 hm
      exact ⟨task, hsub.subset hmem, hp⟩

end

/-- Every history accounts for all tasks that have been queued. -/
theorem accounted_use (operations : List (Operation (Stage × Nat) α)) :
    Accounted (queued (number operations)) (use (number operations)) := by
  induction operations using List.reverseRecOn with
  | nil => exact ⟨rfl, nofun, nofun⟩
  | append_singleton operations operation ih =>
    have hn := nodup_number? (operations ++ [operation])
    rw [number_append_singleton, queued_append_singleton] at hn ⊢
    rw [use_append_singleton]
    cases operation with
    | add stage payload => exact ih.push hn (live_add _ _ _)
    | addPersistent stage payload => exact ih.push hn (live_addPersistent _ _ _)
    | next request =>
      rw [show ((Operation.next request : Operation (Stage × Nat) α).map
        (Prod.mk operations.length)).task?.toList = [] from rfl, List.append_nil] at hn ⊢
      obtain ⟨stage, cursor⟩ := request
      rcases hr : (use (number operations)).queue.next stage cursor with ⟨_ | payload, queue, cursor'⟩
      · have hu : Accounted (queued (number operations))
            ⟨queue, cursor', (use (number operations)).handedOut⟩ := ih.idle (live_of_next_none hr)
        simpa only [Usage.step, Operation.map, hr, Option.toList_none, List.append_nil] using hu
      · have hu := ih.next hn hr
        simpa only [Usage.step, Operation.map, hr, Option.toList_some] using hu

theorem counted_use (operations : List (Operation (Stage × Nat) α)) :
    (use operations).queue.Counted := by
  induction operations using List.reverseRecOn with
  | nil => rfl
  | append_singleton operations operation ih =>
    rw [use_append_singleton]
    cases operation with
    | add stage payload => exact ih.add stage payload
    | addPersistent stage payload => exact ih.addPersistent stage payload
    | next request => exact ih.next request.1 request.2

/-- Whatever is queued and asked for, at whichever cursors: with the payloads numbered, so that no two
tasks are alike, every task that runs once is handed out at most once, the live tasks are those that run
again and those that have not been handed out, in the order in which they were queued, and nothing else
is handed out. The numbers change nothing. The counter tells how many slots are empty, so the size is
how many tasks are live, and as many are pending for a stage as a fresh drain hands out. -/
theorem use_conserves (operations : List (Operation (Stage × Nat) α)) :
    let u := use operations
    let v := use (number operations)
    let tasks := queued (number operations)
    (u = v.map Prod.snd ∧ (tasks.map Task.number?).Nodup) ∧
    (v.queue.live = tasks.filter (fun task => task.persistent || v.count task = 0) ∧
      (∀ task ∈ tasks, task.persistent = false → v.count task ≤ 1) ∧
      ∀ payload ∈ v.handedOut, ∃ task ∈ tasks, task.payload? = some payload) ∧
    (u.queue.taken = u.queue.tasks.countP Task.isTaken ∧
      u.queue.taken ≤ u.queue.tasks.length ∧ u.queue.size = u.queue.live.length) ∧
    (u.queue.isEmpty = true ↔ u.queue.live = []) ∧
    ∀ stage, u.queue.pending stage = (u.queue.handOutAll stage 0).length := by
  intro u v tasks
  have ha : Accounted tasks v := accounted_use operations
  have hc : u.queue.Counted := counted_use operations
  obtain ⟨hl, hs⟩ := hc.size_eq
  have hu : u = v.map Prod.snd := by
    rw [← use_map, map_number]
  refine ⟨⟨hu, nodup_number? operations⟩, ⟨ha.live_eq, ha.once, ha.known⟩, ⟨hc, ?_, hs⟩, ?_,
    fun stage => ?_⟩
  · exact hl ▸ Nat.le_add_right _ _
  · rw [isEmpty, hs, decide_eq_true_iff, List.length_eq_zero_iff]
  · rw [pending_eq, handOutAll_eq, due_live]
    rfl

end Queue

end ConfigDoc
