import ConfigDoc.Proofs.Session.Journal

namespace ConfigDoc

namespace Tree

def callsOn (slot : Reference) (calls : List (Call Tree)) : List (String × Reference) :=
  calls.map fun call => (call.name, slot)

mutual

/-- The calls of a tree that stands in a slot, each with its node. What is inside comes first: items
and entries from left to right, then the calls that are entries of a block; the value of a pipe, then
its chain. -/
def postorder (tree : Tree) (slot : Reference) : List (String × Reference) :=
  match tree with
  | .array items => itemPostorder items 0 slot
  | .map entries => entryPostorder entries slot
  | .block entries => entryPostorder entries slot ++
      callsOn slot (entries.filterMap fun entry => entry.value.asCall?)
  | .piped raw chain => postorder raw slot ++ callsOn slot chain
  | _ => []
termination_by structural tree

def itemPostorder (items : List Tree) (position : Nat) (slot : Reference) :
    List (String × Reference) :=
  match items with
  | [] => []
  | item :: rest =>
    postorder item (slot.below (.index position)) ++ itemPostorder rest (position + 1) slot
termination_by structural items

/-- The calls inside the entries; an entry that is a call itself waits for the end of its block. -/
def entryPostorder (entries : List (Entry Tree)) (slot : Reference) : List (String × Reference) :=
  match entries with
  | [] => []
  | ⟨key, value⟩ :: rest => postorder value (slot.below (.key key)) ++ entryPostorder rest slot
termination_by structural entries

end

/-- The calls of a whole configuration, whose root counts as a block even if it is a map. -/
def callOrder (tree : Tree) : List (String × Reference) :=
  match tree.entries? with
  | some entries => (block entries).postorder .document
  | none => []

theorem applications_chainJobs (slot : Reference) (calls : List (Call Tree)) :
    (chainJobs slot calls).flatMap Job.applications = callsOn slot calls := by
  cases calls with
  | nil => rfl
  | cons call rest => exact List.append_nil _

theorem applications_blockCalls (slot : Reference) (calls : List (Call Tree)) :
    (calls.map fun call => Job.directives slot [call]).flatMap Job.applications =
      callsOn slot calls := by
  induction calls with
  | nil => rfl
  | cons call rest ih =>
    rw [List.map_cons, List.flatMap_cons, ih]
    rfl

mutual

theorem applications_jobs (interpolate : Bool) (tree : Tree) (slot : Reference) :
    (tree.jobs interpolate slot).flatMap Job.applications = tree.postorder slot := by
  cases tree with
  | numeric x | boolean b | rawString s | directive call => rfl
  | complexString s =>
    rw [jobs]
    split <;> rfl
  | array items => exact applications_itemJobs interpolate items 0 slot
  | map entries => exact applications_entryJobs interpolate entries slot
  | block entries =>
    rw [jobs, List.flatMap_append, applications_entryJobs, applications_blockCalls]
    rfl
  | piped raw chain =>
    rw [jobs, List.flatMap_append, applications_jobs interpolate raw slot, applications_chainJobs]
    rfl
termination_by structural tree

theorem applications_itemJobs (interpolate : Bool) (items : List Tree) (position : Nat)
    (slot : Reference) :
    (itemJobs interpolate items position slot).flatMap Job.applications =
      itemPostorder items position slot := by
  cases items with
  | nil => rfl
  | cons item rest =>
    rw [itemJobs, List.flatMap_append, applications_jobs interpolate item,
      applications_itemJobs interpolate rest]
    rfl
termination_by structural items

theorem applications_entryJobs (interpolate : Bool) (entries : List (Entry Tree))
    (slot : Reference) :
    (entryJobs interpolate entries slot).flatMap Job.applications = entryPostorder entries slot := by
  cases entries with
  | nil => rfl
  | cons entry rest =>
    obtain ⟨key, value⟩ := entry
    have hv := applications_jobs interpolate value (slot.below (.key key))
    rw [entryJobs, List.flatMap_append, applications_entryJobs interpolate rest, entryPostorder,
      ← hv]
    cases value <;> rfl
termination_by structural entries

end

end Tree

namespace Config
open Session

variable {σ : Type}

/-- Whatever the handlers do, they are applied in the order of the tree, from the first call on and
without a gap; if the compilation succeeds, all calls have been applied, each of them once. -/
theorem runTree_applications (config : Config σ) (mode : Mode) (tree : Tree) (host : σ) :
    (config.runTree mode tree host).2.applications <+: tree.callOrder ∧
      ∀ document, (config.runTree mode tree host).1 = .ok document →
        (config.runTree mode tree host).2.applications = tree.callOrder := by
  rcases runTree_cases config mode tree host with ⟨e, h⟩ | ⟨entries, v, hr, hj, hok⟩
  · rw [h]
    exact ⟨List.nil_prefix, nofun⟩
  · have hf := follows_runPasses config mode
      (plan ((Tree.block entries).jobs config.interpolate .document)) (start host v)
    rw [applications_plan, Tree.applications_jobs] at hf
    rw [applications, hj, Tree.callOrder, hr]
    exact ⟨hf.start, fun document h => hf.whole (hok document h)⟩

/-- The call of the inner block comes before the chain behind it, that of the whole text last. -/
example : (Tree.block [.ofCall ⟨"last", []⟩,
      ⟨"a", .array [.piped (.block [.ofCall ⟨"first", []⟩]) [⟨"second", []⟩]]⟩]).callOrder.map
        (fun call => (call.1, call.2.path)) =
    [("first", "document.a[0]"), ("second", "document.a[0]"), ("last", "document")] := by
  decide +kernel

end Config

end ConfigDoc
