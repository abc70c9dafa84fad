import ConfigDoc.Tree.Basic

namespace ConfigDoc.Tree

mutual

/-- All nodes of a tree from the root down, those in the arguments of calls included. -/
def nodes : Tree → List Tree
  | .block entries => .block entries :: entryNodes entries
  | .map entries => .map entries :: entryNodes entries
  | .array items => .array items :: itemNodes items
  | .directive ⟨name, args⟩ => .directive ⟨name, args⟩ :: itemNodes args
  | .piped raw chain => .piped raw chain :: (nodes raw ++ callNodes chain)
  | .numeric x => [.numeric x]
  | .boolean b => [.boolean b]
  | .rawString s => [.rawString s]
  | .complexString s => [.complexString s]
termination_by structural tree => tree

def itemNodes : List Tree → List Tree
  | [] => []
  | item :: rest => nodes item ++ itemNodes rest
termination_by structural items => items

def entryNodes : List (Entry Tree) → List Tree
  | [] => []
  | ⟨_, value⟩ :: rest => nodes value ++ entryNodes rest
termination_by structural entries => entries

def callNodes : List (Call Tree) → List Tree
  | [] => []
  | ⟨_, args⟩ :: rest => itemNodes args ++ callNodes rest
termination_by structural calls => calls

end

theorem itemNodes_eq (items : List Tree) : itemNodes items = items.flatMap nodes := by
  induction items with
  | nil => rfl
  | cons item rest ih => rw [itemNodes, ih, List.flatMap_cons]

theorem entryNodes_eq (entries : List (Entry Tree)) :
    entryNodes entries = entries.flatMap fun entry => entry.value.nodes := by
  induction entries with
  | nil => rfl
  | cons entry rest ih => rw [entryNodes, ih, List.flatMap_cons]

theorem callNodes_eq (calls : List (Call Tree)) :
    callNodes calls = calls.flatMap fun call => call.args.flatMap nodes := by
  induction calls with
  | nil => rfl
  | cons call rest ih => rw [callNodes, ih, itemNodes_eq, List.flatMap_cons]

theorem self_mem_nodes (tree : Tree) : tree ∈ tree.nodes := by
  cases tree <;> simp [nodes]

mutual

/-- The nodes of a node are nodes of the tree. -/
theorem nodes_subset_of_mem (tree : Tree) {node : Tree} (h : node ∈ tree.nodes) :
    node.nodes ⊆ tree.nodes := by
  cases tree with
  | array items =>
    rcases List.mem_cons.1 h with rfl | h
    · exact List.Subset.refl _
    · exact List.subset_cons_of_subset _ (nodes_subset_of_mem_itemNodes items h)
  | map entries | block entries =>
    rcases List.mem_cons.1 h with rfl | h
    · exact List.Subset.refl _
    · exact List.subset_cons_of_subset _ (nodes_subset_of_mem_entryNodes entries h)
  | directive call =>
    obtain ⟨name, args⟩ := call
    rcases List.mem_cons.1 h with rfl | h
    · exact List.Subset.refl _
    · exact List.subset_cons_of_subset _ (nodes_subset_of_mem_itemNodes args h)
  | piped raw chain =>
    rcases List.mem_cons.1 h with rfl | h
    · exact List.Subset.refl _
    refine List.subset_cons_of_subset _ ?_
    rcases List.mem_append.1 h with h | h
    · exact List.subset_append_of_subset_left _ (nodes_subset_of_mem raw h)
    · exact List.subset_append_of_subset_right _ (nodes_subset_of_mem_callNodes chain h)
  | numeric x | boolean b | rawString s | complexString s =>
    cases List.mem_singleton.1 h
    exact List.Subset.refl _
termination_by structural tree

theorem nodes_subset_of_mem_itemNodes (items : List Tree) {node : Tree}
    (h : node ∈ itemNodes items) : node.nodes ⊆ itemNodes items := by
  cases items with
  | nil => cases h
  | cons item rest =>
    rcases List.mem_append.1 h with h | h
    · exact List.subset_append_of_subset_left _ (nodes_subset_of_mem item h)
    · exact List.subset_append_of_subset_right _ (nodes_subset_of_mem_itemNodes rest h)
termination_by structural items

theorem nodes_subset_of_mem_entryNodes (entries : List (Entry Tree)) {node : Tree}
    (h : node ∈ entryNodes entries) : node.nodes ⊆ entryNodes entries := by
  cases entries with
  | nil => cases h
  | cons entry rest =>
    obtain ⟨key, value⟩ := entry
    rcases List.mem_append.1 h with h | h
    · exact List.subset_append_of_subset_left _ (nodes_subset_of_mem value h)
    · exact List.subset_append_of_subset_right _ (nodes_subset_of_mem_entryNodes rest h)
termination_by structural entries

theorem nodes_subset_of_mem_callNodes (calls : List (Call Tree)) {node : Tree}
    (h : node ∈ callNodes calls) : node.nodes ⊆ callNodes calls := by
  cases calls with
  | nil => cases h
  | cons call rest =>
    obtain ⟨name, args⟩ := call
    rcases List.mem_append.1 h with h | h
    · exact List.subset_append_of_subset_left _ (nodes_subset_of_mem_itemNodes args h)
    · exact List.subset_append_of_subset_right _ (nodes_subset_of_mem_callNodes rest h)
termination_by structural calls

end

section
variable {P : Tree → Prop}

theorem forall_nodes_array {items : List Tree} : (∀ node ∈ (array items).nodes, P node) ↔
    P (.array items) ∧ ∀ item ∈ items, ∀ node ∈ item.nodes, P node := by
  simp only [nodes, itemNodes_eq, List.forall_mem_cons, List.forall_mem_flatMap]

theorem forall_nodes_map {entries : List (Entry Tree)} :
    (∀ node ∈ (map entries).nodes, P node) ↔
      P (.map entries) ∧ ∀ entry ∈ entries, ∀ node ∈ entry.value.nodes, P node := by
  simp only [nodes, entryNodes_eq, List.forall_mem_cons, List.forall_mem_flatMap]

theorem forall_nodes_block {entries : List (Entry Tree)} :
    (∀ node ∈ (block entries).nodes, P node) ↔
      P (.block entries) ∧ ∀ entry ∈ entries, ∀ node ∈ entry.value.nodes, P node := by
  simp only [nodes, entryNodes_eq, List.forall_mem_cons, List.forall_mem_flatMap]

theorem forall_nodes_directive {call : Call Tree} :
    (∀ node ∈ (directive call).nodes, P node) ↔
      P (.directive call) ∧ ∀ arg ∈ call.args, ∀ node ∈ arg.nodes, P node := by
  simp only [nodes, itemNodes_eq, List.forall_mem_cons, List.forall_mem_flatMap]

theorem forall_nodes_piped {raw : Tree} {chain : List (Call Tree)} :
    (∀ node ∈ (piped raw chain).nodes, P node) ↔
      P (.piped raw chain) ∧ (∀ node ∈ raw.nodes, P node) ∧
        ∀ call ∈ chain, ∀ arg ∈ call.args, ∀ node ∈ arg.nodes, P node := by
  simp only [nodes, callNodes_eq, List.forall_mem_cons, List.forall_mem_append,
    List.forall_mem_flatMap]

/-- A document is written as a block; below the root that changes nothing. -/
theorem forall_nodes_of_entries? {tree : Tree} {entries : List (Entry Tree)}
    (hr : tree.entries? = some entries) (h : ∀ node ∈ tree.nodes, P node)
    (hroot : P (.block entries)) : ∀ node ∈ (block entries).nodes, P node := by
  cases tree with
  | block _ =>
    cases hr
    exact h
  | map _ =>
    cases hr
    exact forall_nodes_block.2 ⟨hroot, (forall_nodes_map.1 h).2⟩
  | _ => cases hr

end

def ownCalls : Tree → List (Call Tree)
  | .piped _ chain => chain
  | .directive call => [call]
  | _ => []

theorem nodes_subset_of_arg {node : Tree} {call : Call Tree} (hc : call ∈ node.ownCalls) {arg : Tree}
    (ha : arg ∈ call.args) : arg.nodes ⊆ node.nodes := by
  have hsub : ∀ inner ∈ arg.nodes, inner ∈ call.args.flatMap nodes := fun inner hi =>
    List.mem_flatMap.2 ⟨arg, ha, hi⟩
  intro inner hi
  cases node with
  | directive made =>
    cases List.mem_singleton.1 hc
    rw [nodes, itemNodes_eq]
    exact List.mem_cons_of_mem _ (hsub inner hi)
  | piped raw chain =>
    rw [nodes, callNodes_eq]
    exact List.mem_cons_of_mem _
      (List.mem_append_right _ (List.mem_flatMap.2 ⟨call, hc, hsub inner hi⟩))
  | _ => cases hc

/-- Whether a tree is a value without pipes or calls in it at any depth. -/
def Plain (tree : Tree) : Prop := ∀ node ∈ tree.nodes, node.kind ≠ .piped ∧ node.kind ≠ .directive

theorem plain_array {items : List Tree} : (array items).Plain ↔ ∀ item ∈ items, item.Plain := by
  simp [Plain, forall_nodes_array, kind]

theorem plain_map {entries : List (Entry Tree)} :
    (map entries).Plain ↔ ∀ entry ∈ entries, entry.value.Plain := by
  simp [Plain, forall_nodes_map, kind]

theorem plain_block {entries : List (Entry Tree)} :
    (block entries).Plain ↔ ∀ entry ∈ entries, entry.value.Plain := by
  simp [Plain, forall_nodes_block, kind]

theorem asCall?_eq_some_iff {tree : Tree} {call : Call Tree} :
    tree.asCall? = some call ↔ tree = .directive call := by
  cases tree <;> simp [asCall?]

theorem Plain.asCall? {tree : Tree} (h : tree.Plain) : tree.asCall? = none := by
  cases tree with
  | directive call => exact absurd rfl (h _ (self_mem_nodes _)).2
  | _ => rfl

theorem not_plain_piped (raw : Tree) (chain : List (Call Tree)) : ¬ (piped raw chain).Plain :=
  fun h => (h _ (self_mem_nodes _)).1 rfl

end ConfigDoc.Tree
