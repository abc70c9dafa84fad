import ConfigDoc.Proofs.Draft.Outline

namespace ConfigDoc

namespace Tree

mutual

/-- The tree with every double-quoted string single-quoted, in the arguments of calls too. -/
def verbatim : Tree → Tree
  | .numeric x => .numeric x
  | .boolean b => .boolean b
  | .rawString s => .rawString s
  | .complexString s => .rawString s
  | .block entries => .block (verbatimEntries entries)
  | .map entries => .map (verbatimEntries entries)
  | .array items => .array (verbatimItems items)
  | .directive ⟨name, args⟩ => .directive ⟨name, verbatimItems args⟩
  | .piped raw chain => .piped (verbatim raw) (verbatimCalls chain)
termination_by structural tree => tree

def verbatimItems : List Tree → List Tree
  | [] => []
  | item :: rest => verbatim item :: verbatimItems rest
termination_by structural items => items

def verbatimEntries : List (Entry Tree) → List (Entry Tree)
  | [] => []
  | ⟨key, value⟩ :: rest => ⟨key, verbatim value⟩ :: verbatimEntries rest
termination_by structural entries => entries

def verbatimCalls : List (Call Tree) → List (Call Tree)
  | [] => []
  | ⟨name, args⟩ :: rest => ⟨name, verbatimItems args⟩ :: verbatimCalls rest
termination_by structural calls => calls

end

end Tree

def Job.verbatim : Job → Job
  | .interpolate target template => .interpolate target template
  | .directives target calls => .directives target (Tree.verbatimCalls calls)
  | .sweep => .sweep

namespace Tree

theorem asCall?_verbatim (tree : Tree) :
    tree.verbatim.asCall? = tree.asCall?.map fun call => ⟨call.name, verbatimItems call.args⟩ := by
  cases tree <;> rfl

theorem isSome_asCall?_verbatim (tree : Tree) :
    tree.verbatim.asCall?.isSome = tree.asCall?.isSome := by
  rw [asCall?_verbatim, Option.isSome_map]

theorem filterMap_asCall?_verbatimEntries (entries : List (Entry Tree)) :
    ((verbatimEntries entries).filterMap fun entry => entry.value.asCall?) =
      verbatimCalls (entries.filterMap fun entry => entry.value.asCall?) := by
  induction entries with
  | nil => rfl
  | cons entry rest ih =>
    obtain ⟨key, value⟩ := entry
    rw [verbatimEntries, List.filterMap_cons, List.filterMap_cons, ih, asCall?_verbatim]
    cases value.asCall? <;> rfl

theorem isEmpty_verbatimCalls (calls : List (Call Tree)) :
    (verbatimCalls calls).isEmpty = calls.isEmpty := by
  cases calls <;> rfl

theorem entries?_verbatim (tree : Tree) :
    tree.verbatim.entries? = tree.entries?.map verbatimEntries := by
  cases tree <;> rfl

variable {interpolate : Bool} {placement : Placement}

mutual

/-- A verbatim tree is written, or refused, as the tree is without interpolation. -/
theorem initial_verbatim (tree : Tree) :
    tree.verbatim.initial interpolate placement = tree.initial false placement := by
  cases tree with
  | numeric x | boolean b | rawString s | complexString s | directive call => rfl
  | array items => exact congrArg (Except.map Value.array) (initialItems_verbatim items)
  | map entries =>
    exact congrArg (Except.map Value.object) (initialEntries_verbatim entries false [])
  | block entries =>
    rw [verbatim, initial, initial, initialEntries_verbatim entries true [],
      filterMap_asCall?_verbatimEntries, isEmpty_verbatimCalls]
  | piped raw chain =>
    have hraw := initial_verbatim raw
    cases placement with
    | argument => rfl
    | document => exact hraw
termination_by structural tree

theorem initialItems_verbatim (items : List Tree) :
    initialItems interpolate placement (verbatimItems items) =
      initialItems false placement items := by
  cases items with
  | nil => rfl
  | cons item rest =>
    rw [verbatimItems, initialItems, initialItems, initial_verbatim item, initialItems_verbatim rest]
termination_by structural items

theorem initialEntries_verbatim (entries : List (Entry Tree)) (inBlock : Bool)
    (table : Table Value) :
    initialEntries interpolate placement inBlock (verbatimEntries entries) table =
      initialEntries false placement inBlock entries table := by
  cases entries with
  | nil => rfl
  | cons entry rest =>
    obtain ⟨key, value⟩ := entry
    rw [verbatimEntries, initialEntries, initialEntries, isSome_asCall?_verbatim,
      initial_verbatim value]
    simp only [initialEntries_verbatim rest]
termination_by structural entries

end

theorem chainJobs_verbatimCalls (target : Reference) (calls : List (Call Tree)) :
    chainJobs target (verbatimCalls calls) = (chainJobs target calls).map Job.verbatim := by
  cases calls <;> rfl

theorem blockJobs_verbatimCalls (target : Reference) (calls : List (Call Tree)) :
    ((verbatimCalls calls).map fun call => Job.directives target [call]) =
      (calls.map fun call => Job.directives target [call]).map Job.verbatim := by
  induction calls with
  | nil => rfl
  | cons call rest ih =>
    rw [verbatimCalls, List.map_cons, List.map_cons, List.map_cons, ih]
    rfl

mutual

/-- A verbatim tree queues what the tree queues without interpolation. -/
theorem jobs_verbatim (tree : Tree) (target : Reference) :
    tree.verbatim.jobs interpolate target = (tree.jobs false target).map Job.verbatim := by
  cases tree with
  | numeric x | boolean b | rawString s | complexString s | directive call => rfl
  | array items => exact itemJobs_verbatim items 0 target
  | map entries => exact entryJobs_verbatim entries target
  | block entries =>
    rw [verbatim, jobs, jobs, List.map_append, entryJobs_verbatim entries target,
      filterMap_asCall?_verbatimEntries, blockJobs_verbatimCalls]
  | piped raw chain =>
    rw [verbatim, jobs, jobs, List.map_append, jobs_verbatim raw target, chainJobs_verbatimCalls]
termination_by structural tree

theorem itemJobs_verbatim (items : List Tree) (position : Nat) (target : Reference) :
    itemJobs interpolate (verbatimItems items) position target =
      (itemJobs false items position target).map Job.verbatim := by
  cases items with
  | nil => rfl
  | cons item rest =>
    rw [verbatimItems, itemJobs, itemJobs, List.map_append, jobs_verbatim item,
      itemJobs_verbatim rest]
termination_by structural items

theorem entryJobs_verbatim (entries : List (Entry Tree)) (target : Reference) :
    entryJobs interpolate (verbatimEntries entries) target =
      (entryJobs false entries target).map Job.verbatim := by
  cases entries with
  | nil => rfl
  | cons entry rest =>
    obtain ⟨key, value⟩ := entry
    rw [verbatimEntries, entryJobs, entryJobs, List.map_append, entryJobs_verbatim rest,
      isSome_asCall?_verbatim]
    split
    · rfl
    · rw [jobs_verbatim value]
termination_by structural entries

end

/-- Without interpolation no template is queued. -/
theorem interpolate_not_mem_jobs_false (tree : Tree) (target slot : Reference) (t : Template) :
    .interpolate slot t ∉ tree.jobs false target := by
  intro hm
  exact Bool.false_ne_true (causes_of_mem_jobs tree target hm).2

end Tree

end ConfigDoc
