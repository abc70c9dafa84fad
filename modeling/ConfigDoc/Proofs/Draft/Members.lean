import ConfigDoc.Proofs.Draft.Initial
import ConfigDoc.Proofs.Tree.Nodes

namespace ConfigDoc.Tree

/-- The keys of the entries that are no calls. -/
def keys : List (Entry Tree) → List String
  | [] => []
  | ⟨key, value⟩ :: rest => if value.asCall?.isSome then keys rest else key :: keys rest

def Distinct (node : Tree) : Prop :=
  ∀ entries, node.entries? = some entries → (keys entries).Nodup

theorem distinct_block {tree : Tree} {entries : List (Entry Tree)}
    (hr : tree.entries? = some entries) (hd : ∀ node ∈ tree.nodes, node.Distinct) :
    ∀ node ∈ (block entries).nodes, node.Distinct :=
  forall_nodes_of_entries? hr hd fun _ he => by
    cases he
    exact hd tree (self_mem_nodes tree) _ hr

def initialMembers (interpolate : Bool) (placement : Placement) :
    List (Entry Tree) → Except Error (Table Value)
  | [] => .ok []
  | ⟨key, value⟩ :: rest =>
    if value.asCall?.isSome then initialMembers interpolate placement rest
    else do
      let v ← initial interpolate placement value
      let members ← initialMembers interpolate placement rest
      pure ((key, v) :: members)

variable {interpolate : Bool} {placement : Placement} {inBlock : Bool}

theorem initialItems_cons_eq_ok_iff {item : Tree} {rest : List Tree} {vs : List Value} :
    initialItems interpolate placement (item :: rest) = .ok vs ↔
      ∃ v others, item.initial interpolate placement = .ok v ∧
        initialItems interpolate placement rest = .ok others ∧ vs = v :: others := by
  rw [initialItems, bind_eq_ok_iff]
  constructor
  · rintro ⟨v, hv, h⟩
    obtain ⟨others, hr, h⟩ := bind_eq_ok_iff.1 h
    cases h
    exact ⟨v, others, hv, hr, rfl⟩
  · rintro ⟨v, others, hv, hr, rfl⟩
    exact ⟨v, hv, bind_eq_ok_iff.2 ⟨others, hr, rfl⟩⟩

theorem initialMembers_cons_eq_ok_iff {key : String} {value : Tree} {rest : List (Entry Tree)}
    {members : Table Value} (hc : ¬ value.asCall?.isSome) :
    initialMembers interpolate placement (⟨key, value⟩ :: rest) = .ok members ↔
      ∃ v others, value.initial interpolate placement = .ok v ∧
        initialMembers interpolate placement rest = .ok others ∧
        members = (key, v) :: others := by
  rw [initialMembers, if_neg hc, bind_eq_ok_iff]
  constructor
  · rintro ⟨v, hv, h⟩
    obtain ⟨others, hm, h⟩ := bind_eq_ok_iff.1 h
    cases h
    exact ⟨v, others, hv, hm, rfl⟩
  · rintro ⟨v, others, hv, hm, rfl⟩
    exact ⟨v, hv, bind_eq_ok_iff.2 ⟨others, hm, rfl⟩⟩

theorem names_initialMembers {entries : List (Entry Tree)} {members : Table Value}
    (h : initialMembers interpolate placement entries = .ok members) :
    members.names = keys entries := by
  induction entries generalizing members with
  | nil =>
    cases h
    rfl
  | cons entry rest ih =>
    obtain ⟨key, value⟩ := entry
    by_cases hc : value.asCall?.isSome
    · rw [initialMembers, if_pos hc] at h
      rw [keys, if_pos hc]
      exact ih h
    · obtain ⟨v, others, -, hm, rfl⟩ := (initialMembers_cons_eq_ok_iff hc).1 h
      rw [keys, if_neg hc]
      exact congrArg _ (ih hm)

/-- Only a block may have calls as entries, and its members are inserted one after the other. -/
theorem initialEntries_eq_ok_iff {entries : List (Entry Tree)} {table result : Table Value} :
    initialEntries interpolate placement inBlock entries table = .ok result ↔
      (inBlock = true ∨ ∀ entry ∈ entries, entry.value.asCall? = none) ∧
      ∃ members, initialMembers interpolate placement entries = .ok members ∧
        result = members.foldl (fun table pair => table.insert pair.1 pair.2) table := by
  induction entries generalizing table with
  | nil => simp [initialEntries, initialMembers, eq_comm]
  | cons entry rest ih =>
    obtain ⟨key, value⟩ := entry
    rw [initialEntries, initialMembers]
    split
    · rename_i hc
      cases inBlock with
      | true => simpa using ih
      | false =>
        have hn : value.asCall? ≠ none := Option.isSome_iff_ne_none.1 hc
        simp [hn]
    · rename_i hc
      have hn : value.asCall? = none := Option.not_isSome_iff_eq_none.1 hc
      cases initial interpolate placement value with
      | error e => simp [bind, Except.bind]
      | ok v =>
        dsimp only [bind, Except.bind]
        rw [ih, List.forall_mem_cons]
        cases initialMembers interpolate placement rest <;> simp [hn, pure, Except.pure]

theorem initialEntries_nil_eq_ok_iff {entries : List (Entry Tree)} {result : Table Value} :
    initialEntries interpolate placement inBlock entries [] = .ok result ↔
      (inBlock = true ∨ ∀ entry ∈ entries, entry.value.asCall? = none) ∧
      ∃ members, initialMembers interpolate placement entries = .ok members ∧
        result = Table.ofList members :=
  initialEntries_eq_ok_iff

/-- A map is accepted if none of its entries is a call and the others are accepted. -/
theorem initial_map_eq_ok_iff {entries : List (Entry Tree)} {v : Value} :
    (map entries).initial interpolate placement = .ok v ↔
      (∀ entry ∈ entries, entry.value.asCall? = none) ∧
      ∃ members, initialMembers interpolate placement entries = .ok members ∧
        v = .object (Table.ofList members) := by
  rw [initial, map_eq_ok_iff]
  constructor
  · rintro ⟨table, h, rfl⟩
    obtain ⟨hn, members, hm, rfl⟩ := initialEntries_nil_eq_ok_iff.1 h
    exact ⟨hn.resolve_left Bool.false_ne_true, members, hm, rfl⟩
  · rintro ⟨hn, members, hm, rfl⟩
    exact ⟨_, initialEntries_nil_eq_ok_iff.2 ⟨.inr hn, members, hm, rfl⟩, rfl⟩

/-- A block may have calls as entries, but not in an argument. -/
theorem initial_block_eq_ok_iff {entries : List (Entry Tree)} {v : Value} :
    (block entries).initial interpolate placement = .ok v ↔
      (placement = .argument → ∀ entry ∈ entries, entry.value.asCall? = none) ∧
      ∃ members, initialMembers interpolate placement entries = .ok members ∧
        v = .object (Table.ofList members) := by
  have hcalls : (entries.filterMap fun entry => entry.value.asCall?).isEmpty = true ↔
      ∀ entry ∈ entries, entry.value.asCall? = none := by
    rw [List.isEmpty_iff, List.filterMap_eq_nil_iff]
  rw [initial, bind_eq_ok_iff]
  constructor
  · rintro ⟨table, ht, h⟩
    obtain ⟨-, members, hm, rfl⟩ := initialEntries_nil_eq_ok_iff.1 ht
    cases placement with
    | document =>
      cases h
      exact ⟨nofun, members, hm, rfl⟩
    | argument =>
      dsimp only at h
      split at h
      · rename_i hc
        cases h
        exact ⟨fun _ => hcalls.1 hc, members, hm, rfl⟩
      · cases h
  · rintro ⟨hn, members, hm, rfl⟩
    refine ⟨_, initialEntries_nil_eq_ok_iff.2 ⟨.inl rfl, members, hm, rfl⟩, ?_⟩
    cases placement with
    | document => rfl
    | argument => exact if_pos (hcalls.2 (hn rfl))

/-- Without repeated keys the members stand in the order of the entries. -/
theorem ofList_initialMembers {entries : List (Entry Tree)} {members : Table Value}
    (hd : (keys entries).Nodup) (h : initialMembers interpolate placement entries = .ok members) :
    Table.ofList members = members :=
  Table.ofList_of_nodup (by rwa [names_initialMembers h])

/-- A job resolves an active string of the tree, or applies calls of one of its nodes. -/
def Causes (interpolate : Bool) (nodes : List Tree) : Job → Prop
  | .interpolate _ template =>
    .complexString template.source ∈ nodes ∧ isActive interpolate template.source = true
  | .directives _ calls => ∃ node ∈ nodes, calls ≠ [] ∧ ∀ call ∈ calls, call ∈ node.ownCalls
  | .sweep => False

theorem Causes.mono {nodes nodes' : List Tree} {job : Job} (h : Causes interpolate nodes job)
    (hs : nodes ⊆ nodes') : Causes interpolate nodes' job := by
  cases job with
  | interpolate target template => exact ⟨hs h.1, h.2⟩
  | directives target calls =>
    obtain ⟨node, hn, hc⟩ := h
    exact ⟨node, hs hn, hc⟩
  | sweep => exact h

mutual

theorem causes_of_mem_jobs (tree : Tree) (target : Reference) {job : Job}
    (h : job ∈ tree.jobs interpolate target) : Causes interpolate tree.nodes job := by
  cases tree with
  | numeric x | boolean b | rawString s | directive call => cases h
  | complexString s =>
    rw [jobs] at h
    split at h
    · rename_i ha
      cases List.mem_singleton.1 h
      exact ⟨self_mem_nodes _, ha⟩
    · cases h
  | array items =>
    exact (causes_of_mem_itemJobs items 0 target h).mono (List.subset_cons_self _ _)
  | map entries =>
    exact (causes_of_mem_entryJobs entries target h).mono (List.subset_cons_self _ _)
  | block entries =>
    rw [jobs, List.mem_append] at h
    rcases h with h | h
    · exact (causes_of_mem_entryJobs entries target h).mono (List.subset_cons_self _ _)
    · obtain ⟨call, hc, rfl⟩ := List.mem_map.1 h
      obtain ⟨entry, he, hv⟩ := List.mem_filterMap.1 hc
      rw [asCall?_eq_some_iff] at hv
      refine ⟨.directive call, ?_, by simp, by simp [ownCalls]⟩
      rw [nodes, entryNodes_eq]
      exact List.mem_cons_of_mem _ (List.mem_flatMap.2 ⟨entry, he, hv ▸ self_mem_nodes _⟩)
  | piped raw chain =>
    rw [jobs, List.mem_append] at h
    rcases h with h | h
    · refine (causes_of_mem_jobs raw target h).mono fun node hn => ?_
      rw [nodes]
      exact List.mem_cons_of_mem _ (List.mem_append_left _ hn)
    · unfold chainJobs at h
      split at h
      · cases h
      · rename_i hc
        cases List.mem_singleton.1 h
        exact ⟨_, self_mem_nodes _, by simpa using hc, fun call hm => hm⟩
termination_by structural tree

theorem causes_of_mem_itemJobs (items : List Tree) (position : Nat) (target : Reference)
    {job : Job} (h : job ∈ itemJobs interpolate items position target) :
    Causes interpolate (itemNodes items) job := by
  cases items with
  | nil => cases h
  | cons item rest =>
    rw [itemJobs, List.mem_append] at h
    rw [itemNodes]
    rcases h with h | h
    · exact (causes_of_mem_jobs item _ h).mono (List.subset_append_left _ _)
    · exact (causes_of_mem_itemJobs rest _ target h).mono (List.subset_append_right _ _)
termination_by structural items

theorem causes_of_mem_entryJobs (entries : List (Entry Tree)) (target : Reference) {job : Job}
    (h : job ∈ entryJobs interpolate entries target) :
    Causes interpolate (entryNodes entries) job := by
  cases entries with
  | nil => cases h
  | cons entry rest =>
    obtain ⟨key, value⟩ := entry
    rw [entryJobs, List.mem_append] at h
    rw [entryNodes]
    rcases h with h | h
    · split at h
      · cases h
      · exact (causes_of_mem_jobs value _ h).mono (List.subset_append_left _ _)
    · exact (causes_of_mem_entryJobs rest target h).mono (List.subset_append_right _ _)
termination_by structural entries

end

end ConfigDoc.Tree
