import ConfigDoc.Draft.Arguments
import ConfigDoc.Proofs.Value.Slots

namespace ConfigDoc

namespace Tree

def isActive (interpolate : Bool) (source : String) : Bool :=
  interpolate && (Template.mk source).hasTokens

mutual

/-- The value of a tree before any queued work is done, if the tree is accepted. -/
def initial (interpolate : Bool) (placement : Placement) : Tree → Except Error Value
  | .numeric x => .ok (.number x)
  | .boolean b => .ok (.bool b)
  | .rawString s => .ok (.string s)
  | .complexString s => .ok (if isActive interpolate s then .template ⟨s⟩ else .string s)
  | .array items => (initialItems interpolate placement items).map .array
  | .map entries => (initialEntries interpolate placement false entries []).map .object
  | .block entries => do
    let members ← initialEntries interpolate placement true entries []
    match placement with
    | .document => .ok (.object members)
    | .argument =>
      if (entries.filterMap fun entry => entry.value.asCall?).isEmpty then .ok (.object members)
      else .error (.invalidNode .directive)
  | .piped raw _ =>
    match placement with
    | .argument => .error (.invalidNode .piped)
    | .document => initial interpolate placement raw
  | .directive _ => .error (.invalidNode .directive)
termination_by structural tree => tree

def initialItems (interpolate : Bool) (placement : Placement) :
    List Tree → Except Error (List Value)
  | [] => .ok []
  | item :: rest => do
    let v ← initial interpolate placement item
    let vs ← initialItems interpolate placement rest
    pure (v :: vs)
termination_by structural items => items

def initialEntries (interpolate : Bool) (placement : Placement) (inBlock : Bool) :
    List (Entry Tree) → Table Value → Except Error (Table Value)
  | [], members => .ok members
  | ⟨key, value⟩ :: rest, members => do
    if value.asCall?.isSome then
      if inBlock then initialEntries interpolate placement inBlock rest members
      else .error (.invalidNode .directive)
    else
      let v ← initial interpolate placement value
      initialEntries interpolate placement inBlock rest (members.insert key v)
termination_by structural entries => entries

end

def chainJobs (target : Reference) (calls : List (Call Tree)) : List Job :=
  if calls.isEmpty then [] else [.directives target calls]

mutual

/-- The work that a tree queues when it is written into a slot, in the order of the queue. -/
def jobs (interpolate : Bool) (tree : Tree) (target : Reference) : List Job :=
  match tree with
  | .complexString s => if isActive interpolate s then [.interpolate target ⟨s⟩] else []
  | .array items => itemJobs interpolate items 0 target
  | .map entries => entryJobs interpolate entries target
  | .block entries => entryJobs interpolate entries target ++
      (entries.filterMap fun entry => entry.value.asCall?).map fun call => .directives target [call]
  | .piped raw chain => jobs interpolate raw target ++ chainJobs target chain
  | _ => []
termination_by structural tree

def itemJobs (interpolate : Bool) (items : List Tree) (position : Nat) (target : Reference) :
    List Job :=
  match items with
  | [] => []
  | item :: rest => jobs interpolate item (target.below (.index position)) ++
      itemJobs interpolate rest (position + 1) target
termination_by structural items

def entryJobs (interpolate : Bool) (entries : List (Entry Tree)) (target : Reference) : List Job :=
  match entries with
  | [] => []
  | ⟨key, value⟩ :: rest =>
    (if value.asCall?.isSome then [] else jobs interpolate value (target.below (.key key))) ++
      entryJobs interpolate rest target
termination_by structural entries

end

end Tree

def Job.stage : Job → Stage
  | .interpolate _ _ => .interpolation
  | .directives _ _ => .directives
  | .sweep => .interpolation

def Job.slot : Job → Reference
  | .interpolate target _ => target
  | .directives target _ => target
  | .sweep => .document

def Job.calls : Job → List (Call Tree)
  | .directives _ calls => calls
  | _ => []

namespace Queue

def addAll (queue : Queue Job) (jobs : List Job) : Queue Job :=
  { queue with tasks := queue.tasks ++ jobs.map fun job => ⟨job.stage, false, some job⟩ }

@[simp] theorem addAll_nil (queue : Queue Job) : queue.addAll [] = queue := by simp [addAll]

theorem addAll_append (queue : Queue Job) (jobs others : List Job) :
    queue.addAll (jobs ++ others) = (queue.addAll jobs).addAll others := by
  simp [addAll]

end Queue

/-- Work is only queued for what stands in the document. -/
def Placement.queued : Placement → List Job → List Job
  | .document, jobs => jobs
  | .argument, _ => []

theorem Placement.queued_append (placement : Placement) (jobs others : List Job) :
    placement.queued (jobs ++ others) = placement.queued jobs ++ placement.queued others := by
  cases placement <;> rfl

@[simp] theorem Placement.queued_nil (placement : Placement) : placement.queued [] = [] := by
  cases placement <;> rfl

namespace Draft
open Reference

theorem set_eq {target : Reference} {root root' v : Value} {queue : Queue Job}
    (h : target.set root v = .ok root') : set ⟨root, queue⟩ target v = .ok ⟨root', queue⟩ := by
  rw [set, h]
  rfl

theorem addCalls_eq (d : Draft) (target : Reference) (calls : List (Call Tree)) :
    d.addCalls target calls = ⟨d.root, d.queue.addAll (Tree.chainJobs target calls)⟩ := by
  unfold addCalls Tree.chainJobs
  split
  · simp
  · rfl

theorem foldl_addCalls_eq (d : Draft) (target : Reference) (calls : List (Call Tree)) :
    calls.foldl (fun d call => d.addCalls target [call]) d =
      ⟨d.root, d.queue.addAll (calls.map fun call => .directives target [call])⟩ := by
  induction calls generalizing d with
  | nil => simp
  | cons call rest ih =>
    rw [List.foldl_cons, ih, addCalls_eq]
    exact congrArg (Draft.mk d.root)
      (Queue.addAll_append d.queue [.directives target [call]] _).symm

theorem writeTemplate_eq {interpolate : Bool} {placement : Placement} {source : String}
    {target : Reference} {root : Value} {queue : Queue Job} {context : Value → Value}
    (h : target.Opens root context) :
    writeTemplate interpolate placement source target ⟨root, queue⟩ =
      .ok ⟨context (if Tree.isActive interpolate source then .template ⟨source⟩ else .string source),
        queue.addAll (placement.queued (Tree.jobs interpolate (.complexString source) target))⟩ := by
  rw [writeTemplate, Tree.jobs]
  cases hactive : Tree.isActive interpolate source with
  | false =>
    rw [if_pos (by simpa [Tree.isActive, Classical.or_iff_not_imp_left] using hactive)]
    simp [set_eq (h.set _)]
  | true =>
    rw [if_neg (by simpa [Tree.isActive] using hactive)]
    simp only [set_eq (h.set _)]
    cases placement with
    | document => rfl
    | argument => simp [bind, Except.bind, pure, Except.pure, Placement.queued]

theorem addBlockCalls_eq (placement : Placement) (calls : List (Call Tree)) (target : Reference)
    (d : Draft) : addBlockCalls placement calls target d =
      match placement with
      | .document => .ok ⟨d.root, d.queue.addAll (calls.map fun call => .directives target [call])⟩
      | .argument => if calls.isEmpty then .ok d else .error (.invalidNode .directive) := by
  cases placement with
  | document => exact congrArg Except.ok (foldl_addCalls_eq d target calls)
  | argument => rfl

mutual

/-- Writing a tree into a slot puts its value there and its work behind the queue. -/
theorem write_eq (interpolate : Bool) (placement : Placement) (tree : Tree) (target : Reference)
    (root : Value) (queue : Queue Job) (context : Value → Value) (h : target.Opens root context) :
    write interpolate placement tree target ⟨root, queue⟩ =
      (tree.initial interpolate placement).map fun v =>
        ⟨context v, queue.addAll (placement.queued (tree.jobs interpolate target))⟩ := by
  cases tree with
  | numeric x => simp [write, Tree.initial, Tree.jobs, set_eq (h.set _), Except.map]
  | boolean b => simp [write, Tree.initial, Tree.jobs, set_eq (h.set _), Except.map]
  | rawString s => simp [write, Tree.initial, Tree.jobs, set_eq (h.set _), Except.map]
  | complexString s =>
    rw [write, writeTemplate_eq h, Tree.initial]
    rfl
  | array items =>
    rw [write, set_eq (h.set _), Tree.initial, Tree.jobs]
    refine (writeItems_eq interpolate placement items [] target queue context h.focuses).trans ?_
    cases Tree.initialItems interpolate placement items <;> rfl
  | map entries =>
    rw [write, set_eq (h.set _), Tree.initial, Tree.jobs]
    refine (writeEntries_eq interpolate placement false entries [] target queue context
      h.focuses).trans ?_
    cases Tree.initialEntries interpolate placement false entries [] <;> rfl
  | block entries =>
    rw [write, set_eq (h.set _), Tree.initial, Tree.jobs]
    have hw := writeEntries_eq interpolate placement true entries [] target queue context h.focuses
    refine (congrArg (· >>= _) hw).trans ?_
    cases Tree.initialEntries interpolate placement true entries [] with
    | error e => rfl
    | ok members =>
      refine (addBlockCalls_eq placement _ target _).trans ?_
      cases placement with
      | document => simp [Except.map, bind, Except.bind, Placement.queued, Queue.addAll_append]
      | argument =>
        dsimp only [bind, Except.bind]
        split <;> simp [Except.map, Placement.queued]
  | piped raw chain =>
    cases placement with
    | argument => simp [write, Tree.initial, Except.map]
    | document =>
      rw [write, Tree.initial, Tree.jobs, write_eq interpolate .document raw target root queue
        context h]
      cases Tree.initial interpolate .document raw with
      | error e => rfl
      | ok v => simp [Except.map, bind, Except.bind, pure, Except.pure, addCalls_eq,
          Placement.queued, Queue.addAll_append]
  | directive call => simp [write, Tree.initial, Except.map]
termination_by structural tree

theorem writeItems_eq (interpolate : Bool) (placement : Placement) (items : List Tree)
    (before : List Value) (target : Reference) (queue : Queue Job) (context : Value → Value)
    (h : target.Focuses context) :
    writeItems interpolate placement items before.length target ⟨context (.array before), queue⟩ =
      (Tree.initialItems interpolate placement items).map fun vs => ⟨context (.array (before ++ vs)),
        queue.addAll (placement.queued (Tree.itemJobs interpolate items before.length target))⟩ := by
  cases items with
  | nil => simp [writeItems, Tree.initialItems, Tree.itemJobs, Except.map]
  | cons item rest =>
    rw [writeItems, Tree.initialItems, Tree.itemJobs, Reference.index, h.descend rfl]
    have hw := write_eq interpolate placement item _ _ queue _ (h.opens_item before)
    refine (congrArg (· >>= _) hw).trans ?_
    cases Tree.initial interpolate placement item with
    | error e => rfl
    | ok v =>
      have hr := writeItems_eq interpolate placement rest (before ++ [v]) target
        (queue.addAll (placement.queued
          (item.jobs interpolate (target.below (.index before.length))))) context h
      rw [List.length_append, List.length_singleton] at hr
      refine Eq.trans hr ?_
      cases Tree.initialItems interpolate placement rest with
      | error e => rfl
      | ok vs => simp [Except.map, bind, Except.bind, pure, Except.pure,
          Placement.queued_append, Queue.addAll_append]
termination_by structural items

theorem writeEntries_eq (interpolate : Bool) (placement : Placement) (inBlock : Bool)
    (entries : List (Entry Tree)) (members : Table Value) (target : Reference) (queue : Queue Job)
    (context : Value → Value) (h : target.Focuses context) :
    writeEntries interpolate placement inBlock entries target ⟨context (.object members), queue⟩ =
      (Tree.initialEntries interpolate placement inBlock entries members).map fun members' =>
        ⟨context (.object members'),
          queue.addAll (placement.queued (Tree.entryJobs interpolate entries target))⟩ := by
  cases entries with
  | nil => simp [writeEntries, Tree.initialEntries, Tree.entryJobs, Except.map]
  | cons entry rest =>
    obtain ⟨key, value⟩ := entry
    rw [writeEntries, Tree.initialEntries, Tree.entryJobs]
    split
    · cases inBlock with
      | false => rfl
      | true => exact writeEntries_eq interpolate placement true rest members target queue context h
    · rw [Reference.child, h.descend rfl]
      have hw := write_eq interpolate placement value _ _ queue _ (h.opens_member members key)
      refine (congrArg (· >>= _) hw).trans ?_
      cases Tree.initial interpolate placement value with
      | error e => rfl
      | ok v =>
        refine (writeEntries_eq interpolate placement inBlock rest (members.insert key v) target _
          context h).trans ?_
        rw [Placement.queued_append, Queue.addAll_append]
        rfl
termination_by structural entries

end

theorem writeArguments_eq (interpolate : Bool) (base : String) (args : List Tree)
    (before : List Value) (queue : Queue Job) :
    writeArguments interpolate base args before.length ⟨.array before, queue⟩ =
      (Tree.initialItems interpolate .argument args).map fun vs =>
        ⟨.array (before ++ vs), queue⟩ := by
  induction args generalizing before with
  | nil => simp [writeArguments, Tree.initialItems, Except.map]
  | cons arg rest ih =>
    rw [writeArguments, Tree.initialItems]
    have hw := write_eq interpolate .argument arg _ _ queue _
      (opens_next ((Segment.index before.length).below base) before)
    refine (congrArg (· >>= _) hw).trans ?_
    cases Tree.initial interpolate .argument arg with
    | error e => rfl
    | ok v =>
      have hr := ih (before ++ [v])
      rw [List.length_append, List.length_singleton] at hr
      simp only [Except.map, bind, Except.bind, Placement.queued, Queue.addAll_nil]
      rw [hr]
      cases Tree.initialItems interpolate .argument rest <;> simp [Except.map, pure, Except.pure]

/-- Evaluating arguments depends on nothing but the arguments and the sources of their templates. -/
theorem evaluateArguments_eq (interpolate : Bool) (sources : List Value) (target : Reference)
    (call : Call Tree) (queue : Queue Job) :
    evaluateArguments interpolate sources target call queue = (do
      let vs ← Tree.initialItems interpolate .argument call.args
      let args ← vs.mapM fun v => v.resolveAll interpolate sources
      pure (args, queue)) := by
  have hw := writeArguments_eq interpolate (target.path ++ "@" ++ call.name) call.args [] queue
  rw [evaluateArguments]
  refine (congrArg (· >>= _) hw).trans ?_
  cases Tree.initialItems interpolate .argument call.args <;> rfl

/-- What the start of a compilation leaves: the document as it is written, and its work in order
with the sweep behind it. -/
theorem ofTree_eq (interpolate : Bool) {tree : Tree} {entries : List (Entry Tree)}
    (h : tree.entries? = some entries) :
    ofTree interpolate tree = ((Tree.block entries).initial interpolate .document).map fun v =>
      ⟨rootOf v, (Queue.empty.addAll
        ((Tree.block entries).jobs interpolate document)).addPersistent .interpolation .sweep⟩ := by
  have hw := write_eq interpolate .document (.block entries) document emptyRoot Queue.empty rootOf
    (focuses_document.opens Value.empty)
  rw [ofTree, h]
  refine (congrArg (· >>= _) hw).trans ?_
  cases (Tree.block entries).initial interpolate .document <;> rfl

end Draft

end ConfigDoc
