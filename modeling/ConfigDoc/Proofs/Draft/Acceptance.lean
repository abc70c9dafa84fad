import ConfigDoc.Proofs.Draft.Members

/-! Which trees can be written: those in which no call stands in the place of a value. -/

namespace ConfigDoc

namespace Tree

mutual

/-- All nodes of a tree from the root down, those in the arguments of calls left out. -/
def outerNodes : Tree → List Tree
  | .block entries => .block entries :: outerEntryNodes entries
  | .map entries => .map entries :: outerEntryNodes entries
  | .array items => .array items :: outerItemNodes items
  | .piped raw chain => .piped raw chain :: outerNodes raw
  | .directive call => [.directive call]
  | .numeric x => [.numeric x]
  | .boolean b => [.boolean b]
  | .rawString s => [.rawString s]
  | .complexString s => [.complexString s]
termination_by structural tree => tree

def outerItemNodes : List Tree → List Tree
  | [] => []
  | item :: rest => outerNodes item ++ outerItemNodes rest
termination_by structural items => items

def outerEntryNodes : List (Entry Tree) → List Tree
  | [] => []
  | ⟨_, value⟩ :: rest => outerNodes value ++ outerEntryNodes rest
termination_by structural entries => entries

end

mutual

theorem outerNodes_subset (tree : Tree) : tree.outerNodes ⊆ tree.nodes := by
  cases tree with
  | array items => exact List.cons_subset_cons _ (outerItemNodes_subset items)
  | map entries | block entries => exact List.cons_subset_cons _ (outerEntryNodes_subset entries)
  | piped raw chain =>
    exact List.cons_subset_cons _ (List.subset_append_of_subset_left _ (outerNodes_subset raw))
  | directive call => exact List.cons_subset_cons _ (List.nil_subset _)
  | numeric x | boolean b | rawString s | complexString s => exact List.Subset.refl _
termination_by structural tree

theorem outerItemNodes_subset (items : List Tree) : outerItemNodes items ⊆ itemNodes items := by
  cases items with
  | nil => exact List.Subset.refl _
  | cons item rest =>
    exact List.append_subset.2 ⟨List.subset_append_of_subset_left _ (outerNodes_subset item),
      List.subset_append_of_subset_right _ (outerItemNodes_subset rest)⟩
termination_by structural items

theorem outerEntryNodes_subset (entries : List (Entry Tree)) :
    outerEntryNodes entries ⊆ entryNodes entries := by
  cases entries with
  | nil => exact List.Subset.refl _
  | cons entry rest =>
    obtain ⟨key, value⟩ := entry
    exact List.append_subset.2 ⟨List.subset_append_of_subset_left _ (outerNodes_subset value),
      List.subset_append_of_subset_right _ (outerEntryNodes_subset rest)⟩
termination_by structural entries

end

/-- What is asked of a node: no item, no entry of a map and no value of a pipe may be a call. Among
arguments a block may not have calls either, and there are no pipes. -/
def Fitting (placement : Placement) : Tree → Prop
  | .array items => ∀ item ∈ items, item.asCall? = none
  | .map entries => ∀ entry ∈ entries, entry.value.asCall? = none
  | .block entries => placement = .argument → ∀ entry ∈ entries, entry.value.asCall? = none
  | .piped raw _ => placement = .document ∧ raw.asCall? = none
  | _ => True

def Writable (placement : Placement) (tree : Tree) : Prop :=
  tree.asCall? = none ∧ ∀ node ∈ tree.outerNodes, node.Fitting placement

variable {interpolate : Bool} {placement : Placement} {e : Error}

theorem outerItemNodes_eq (items : List Tree) : outerItemNodes items = items.flatMap outerNodes := by
  induction items with
  | nil => rfl
  | cons item rest ih => rw [outerItemNodes, ih, List.flatMap_cons]

theorem outerEntryNodes_eq (entries : List (Entry Tree)) :
    outerEntryNodes entries = entries.flatMap fun entry => entry.value.outerNodes := by
  induction entries with
  | nil => rfl
  | cons entry rest ih => rw [outerEntryNodes, ih, List.flatMap_cons]

theorem writable_array {items : List Tree} :
    (array items).Writable placement ↔ ∀ item ∈ items, item.Writable placement := by
  simp only [Writable, outerNodes, outerItemNodes_eq, List.forall_mem_cons,
    List.forall_mem_flatMap, Fitting, asCall?, true_and, forall_and]

def WritableEntries (placement : Placement) (entries : List (Entry Tree)) : Prop :=
  ∀ entry ∈ entries, ∀ node ∈ entry.value.outerNodes, node.Fitting placement

theorem writable_map {entries : List (Entry Tree)} : (map entries).Writable placement ↔
    (∀ entry ∈ entries, entry.value.asCall? = none) ∧ WritableEntries placement entries := by
  simp only [Writable, WritableEntries, outerNodes, outerEntryNodes_eq, List.forall_mem_cons,
    List.forall_mem_flatMap, Fitting, asCall?, true_and]

theorem writable_block {entries : List (Entry Tree)} : (block entries).Writable placement ↔
    (placement = .argument → ∀ entry ∈ entries, entry.value.asCall? = none) ∧
      WritableEntries placement entries := by
  simp only [Writable, WritableEntries, outerNodes, outerEntryNodes_eq, List.forall_mem_cons,
    List.forall_mem_flatMap, Fitting, asCall?, true_and]

theorem writable_piped {raw : Tree} {chain : List (Call Tree)} :
    (piped raw chain).Writable placement ↔ placement = .document ∧ raw.Writable placement := by
  simp only [Writable, outerNodes, List.forall_mem_cons, Fitting, asCall?, true_and, and_assoc]

mutual

/-- A tree can be written exactly if it may stand where it stands. -/
theorem initial_isOk_iff (tree : Tree) :
    (∃ v, tree.initial interpolate placement = .ok v) ↔ tree.Writable placement := by
  cases tree with
  | numeric x | boolean b | rawString s | complexString s =>
    simp [initial, Writable, outerNodes, Fitting, asCall?]
  | directive call => simp [initial, Writable, asCall?]
  | array items =>
    rw [writable_array, ← initialItems_isOk_iff items]
    simp [initial, map_eq_ok_iff]
  | map entries =>
    rw [writable_map, ← initialMembers_isOk_iff entries]
    simp [initial_map_eq_ok_iff]
  | block entries =>
    rw [writable_block, ← initialMembers_isOk_iff entries]
    simp [initial_block_eq_ok_iff]
  | piped raw chain =>
    rw [writable_piped, ← initial_isOk_iff raw]
    cases placement <;> simp [initial]
termination_by structural tree

theorem initialItems_isOk_iff (items : List Tree) :
    (∃ vs, initialItems interpolate placement items = .ok vs) ↔
      ∀ item ∈ items, item.Writable placement := by
  cases items with
  | nil => simp [initialItems]
  | cons item rest =>
    rw [List.forall_mem_cons, ← initial_isOk_iff item, ← initialItems_isOk_iff rest]
    simp [initialItems_cons_eq_ok_iff]
termination_by structural items

theorem initialMembers_isOk_iff (entries : List (Entry Tree)) :
    (∃ members, initialMembers interpolate placement entries = .ok members) ↔
      WritableEntries placement entries := by
  cases entries with
  | nil => simp [initialMembers, WritableEntries]
  | cons entry rest =>
    obtain ⟨key, value⟩ := entry
    rw [WritableEntries, List.forall_mem_cons]
    by_cases hc : value.asCall?.isSome
    · obtain ⟨call, rfl⟩ : ∃ call, value = .directive call :=
        (Option.isSome_iff_exists.1 hc).imp fun _ => asCall?_eq_some_iff.1
      rw [initialMembers, if_pos hc, initialMembers_isOk_iff rest, WritableEntries]
      simp [outerNodes, Fitting]
    · have hv := initial_isOk_iff value
      have hr := initialMembers_isOk_iff rest
      rw [Writable, and_iff_right (Option.not_isSome_iff_eq_none.1 hc)] at hv
      rw [WritableEntries] at hr
      rw [← hv, ← hr]
      simp [initialMembers_cons_eq_ok_iff hc]
termination_by structural entries

end

mutual

/-- Only pipes and calls in the wrong place are refused, and pipes only in arguments. -/
theorem error_of_initial (tree : Tree) (h : tree.initial interpolate placement = .error e) :
    ∃ kind, e = .invalidNode kind ∧ (placement = .document → kind = .directive) := by
  cases tree with
  | numeric x | boolean b | rawString s | complexString s => cases h
  | array items => exact error_of_initialItems items (map_eq_error_iff.1 h)
  | map entries => exact error_of_initialEntries entries [] false (map_eq_error_iff.1 h)
  | block entries =>
    rcases bind_eq_error_iff.1 h with h | ⟨members, -, h⟩
    · exact error_of_initialEntries entries [] true h
    · cases placement with
      | document => cases h
      | argument =>
        dsimp only at h
        split at h
        · cases h
        · cases h
          exact ⟨_, rfl, nofun⟩
  | directive call =>
    cases h
    exact ⟨_, rfl, fun _ => rfl⟩
  | piped raw chain =>
    have hraw := error_of_initial raw
    cases placement with
    | argument =>
      cases h
      exact ⟨_, rfl, nofun⟩
    | document => exact hraw h
termination_by structural tree

theorem error_of_initialItems (items : List Tree)
    (h : initialItems interpolate placement items = .error e) :
    ∃ kind, e = .invalidNode kind ∧ (placement = .document → kind = .directive) := by
  cases items with
  | nil => cases h
  | cons item rest =>
    rcases bind_eq_error_iff.1 h with h | ⟨v, -, h⟩
    · exact error_of_initial item h
    rcases bind_eq_error_iff.1 h with h | ⟨vs, -, h⟩
    · exact error_of_initialItems rest h
    · cases h
termination_by structural items

theorem error_of_initialEntries (entries : List (Entry Tree)) (table : Table Value)
    (inBlock : Bool) (h : initialEntries interpolate placement inBlock entries table = .error e) :
    ∃ kind, e = .invalidNode kind ∧ (placement = .document → kind = .directive) := by
  cases entries with
  | nil => cases h
  | cons entry rest =>
    obtain ⟨key, value⟩ := entry
    rw [initialEntries] at h
    split at h
    · split at h
      · exact error_of_initialEntries rest table inBlock h
      · cases h
        exact ⟨_, rfl, fun _ => rfl⟩
    · rcases bind_eq_error_iff.1 h with h | ⟨v, -, h⟩
      · exact error_of_initial value h
      · exact error_of_initialEntries rest _ inBlock h
termination_by structural entries

end

/-- Whether a whole configuration can be written: it is a block or a map, either of which may have
calls as entries, and everything below may stand where it stands. -/
def Acceptable (tree : Tree) : Prop :=
  ∃ entries, tree.entries? = some entries ∧ WritableEntries .document entries

def refusedKind (tree : Tree) : Kind := if tree.entries?.isSome then .directive else tree.kind

end Tree

namespace Draft
open Reference

theorem ofTree_isOk_iff {interpolate : Bool} {tree : Tree} :
    (∃ draft, ofTree interpolate tree = .ok draft) ↔ tree.Acceptable := by
  cases hr : tree.entries? with
  | none => simp [ofTree, Tree.Acceptable, hr]
  | some entries =>
    have hv : (∃ v, (Tree.block entries).initial interpolate .document = .ok v) ↔
        (Tree.block entries).Writable .document := Tree.initial_isOk_iff _
    simp only [Tree.writable_block, reduceCtorEq, false_implies, true_and] at hv
    simp only [ofTree_eq interpolate hr, map_eq_ok_iff, Tree.Acceptable, hr, Option.some.injEq,
      exists_eq_left', ← hv]
    constructor
    · rintro ⟨_, v, h, -⟩
      exact ⟨v, h⟩
    · rintro ⟨v, h⟩
      exact ⟨_, v, h, rfl⟩

theorem error_of_ofTree {interpolate : Bool} {tree : Tree} {e : Error}
    (h : ofTree interpolate tree = .error e) : e = .invalidNode tree.refusedKind := by
  cases hr : tree.entries? with
  | none =>
    rw [ofTree, hr] at h
    cases h
    simp [Tree.refusedKind, hr]
  | some entries =>
    rw [ofTree_eq interpolate hr, map_eq_error_iff] at h
    obtain ⟨kind, rfl, hk⟩ := Tree.error_of_initial _ h
    simp [Tree.refusedKind, hr, hk]

end Draft

end ConfigDoc
