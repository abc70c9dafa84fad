import ConfigDoc.Proofs.Compile.Direct
import ConfigDoc.Proofs.Compile.Interpolation

/-! A tree in which nothing waits compiles to the value that it denotes. -/

namespace ConfigDoc

namespace Tree
open Value

mutual

/-- What a tree says by itself: strings are taken as they are, and the entries of a container are
inserted one after the other. Pipes are not followed, and a call says nothing. -/
def denote : Tree → Value
  | .numeric x => .number x
  | .boolean b => .bool b
  | .rawString s => .string s
  | .complexString s => .string s
  | .array items => .array (denoteItems items)
  | .map entries => .object (Table.ofList (denoteMembers entries))
  | .block entries => .object (Table.ofList (denoteMembers entries))
  | .piped raw _ => denote raw
  | .directive _ => .null
termination_by structural tree => tree

def denoteItems : List Tree → List Value
  | [] => []
  | item :: rest => denote item :: denoteItems rest
termination_by structural items => items

/-- All entries in order, those that are overwritten included. -/
def denoteMembers : List (Entry Tree) → Table Value
  | [] => []
  | ⟨key, value⟩ :: rest => (key, denote value) :: denoteMembers rest
termination_by structural entries => entries

end

theorem denoteMembers_eq (entries : List (Entry Tree)) :
    denoteMembers entries = entries.map fun entry => (entry.key, entry.value.denote) := by
  induction entries with
  | nil => rfl
  | cons entry rest ih => rw [denoteMembers, ih, List.map_cons]

theorem denote_of_entries? {tree : Tree} {entries : List (Entry Tree)}
    (h : tree.entries? = some entries) :
    tree.denote = .object (Table.ofList (denoteMembers entries)) := by
  cases tree with
  | map es | block es =>
    cases h
    rfl
  | _ => cases h

theorem names_denoteMembers (entries : List (Entry Tree)) :
    (denoteMembers entries).names = entries.map Entry.key := by
  rw [denoteMembers_eq, Table.names, List.map_map]
  rfl

/-- A key stands for what its last entry denotes. -/
theorem find?_denoteMembers (entries : List (Entry Tree)) (key : String) :
    (Table.ofList (denoteMembers entries)).find? key =
      (entries.reverse.find? fun entry => entry.key = key).map fun entry => entry.value.denote := by
  rw [Table.find?_ofList, denoteMembers_eq, ← List.map_reverse, List.find?_map, Option.map_map]
  rfl

mutual

theorem templates_denote (tree : Tree) : tree.denote.templates = [] := by
  cases tree with
  | array items =>
    rw [denote, templates, itemTemplates_eq]
    exact List.flatMap_eq_nil_iff.2 (templates_denoteItems items)
  | map entries | block entries =>
    rw [denote, templates, memberTemplates_eq]
    exact List.flatMap_eq_nil_iff.2 fun member hm =>
      templates_denoteMembers entries member (Table.mem_of_mem_ofList hm)
  | piped raw chain => exact templates_denote raw
  | _ => rfl
termination_by structural tree

theorem templates_denoteItems (items : List Tree) : ∀ v ∈ denoteItems items, v.templates = [] := by
  cases items with
  | nil => exact nofun
  | cons item rest =>
    exact List.forall_mem_cons.2 ⟨templates_denote item, templates_denoteItems rest⟩
termination_by structural items

theorem templates_denoteMembers (entries : List (Entry Tree)) :
    ∀ member ∈ denoteMembers entries, member.2.templates = [] := by
  cases entries with
  | nil => exact nofun
  | cons entry rest =>
    obtain ⟨key, value⟩ := entry
    exact List.forall_mem_cons.2 ⟨templates_denote value, templates_denoteMembers rest⟩
termination_by structural entries

end

/-- A node of which nothing has to wait: it makes no call and is no template. -/
structure Inert (interpolate : Bool) (node : Tree) : Prop where
  ownCalls_eq : node.ownCalls = []
  inactive {source : String} (h : node = .complexString source) :
    isActive interpolate source = false

variable {interpolate : Bool}

mutual

/-- An inert tree is written as what it denotes. -/
theorem initial_of_inert (tree : Tree) (h : ∀ node ∈ tree.nodes, node.Inert interpolate) :
    tree.initial interpolate .document = .ok tree.denote := by
  cases tree with
  | numeric x | boolean b | rawString s => rfl
  | complexString s =>
    rw [initial, (h _ (self_mem_nodes _)).inactive rfl]
    rfl
  | array items =>
    rw [initial, initialItems_of_inert items (forall_nodes_array.1 h).2]
    rfl
  | map entries =>
    obtain ⟨hn, hm⟩ := initialMembers_of_inert entries (forall_nodes_map.1 h).2
    exact initial_map_eq_ok_iff.2 ⟨hn, _, hm, rfl⟩
  | block entries =>
    obtain ⟨hn, hm⟩ := initialMembers_of_inert entries (forall_nodes_block.1 h).2
    exact initial_block_eq_ok_iff.2 ⟨fun _ => hn, _, hm, rfl⟩
  | piped raw chain => exact initial_of_inert raw (forall_nodes_piped.1 h).2.1
  | directive call => cases (h _ (self_mem_nodes _)).ownCalls_eq
termination_by structural tree

theorem initialItems_of_inert (items : List Tree)
    (h : ∀ item ∈ items, ∀ node ∈ item.nodes, node.Inert interpolate) :
    initialItems interpolate .document items = .ok (denoteItems items) := by
  cases items with
  | nil => rfl
  | cons item rest =>
    obtain ⟨hi, hr⟩ := List.forall_mem_cons.1 h
    rw [initialItems, initial_of_inert item hi, initialItems_of_inert rest hr]
    rfl
termination_by structural items

theorem initialMembers_of_inert (entries : List (Entry Tree))
    (h : ∀ entry ∈ entries, ∀ node ∈ entry.value.nodes, node.Inert interpolate) :
    (∀ entry ∈ entries, entry.value.asCall? = none) ∧
      initialMembers interpolate .document entries = .ok (denoteMembers entries) := by
  cases entries with
  | nil => exact ⟨nofun, rfl⟩
  | cons entry rest =>
    obtain ⟨key, value⟩ := entry
    obtain ⟨hi, hr⟩ := List.forall_mem_cons.1 h
    have hn : value.asCall? = none := asCall?_of_ownCalls (hi _ (self_mem_nodes _)).ownCalls_eq
    obtain ⟨hns, hm⟩ := initialMembers_of_inert rest hr
    refine ⟨List.forall_mem_cons.2 ⟨hn, hns⟩, ?_⟩
    rw [initialMembers, hn, initial_of_inert value hi, hm]
    rfl
termination_by structural entries

end

/-- An inert tree queues no work. -/
theorem jobs_of_inert (tree : Tree) (h : ∀ node ∈ tree.nodes, node.Inert interpolate)
    (target : Reference) : tree.jobs interpolate target = [] := by
  refine List.eq_nil_iff_forall_not_mem.2 fun job hm => ?_
  have hcauses := causes_of_mem_jobs tree target hm
  cases job with
  | interpolate slot template =>
    have hactive := hcauses.2
    rw [(h _ hcauses.1).inactive rfl] at hactive
    cases hactive
  | directives slot calls =>
    exact directives_not_mem_jobs (fun node hn => (h node hn).ownCalls_eq) target slot calls hm
  | sweep => exact hcauses

end Tree

namespace Config
open Session ConfigDoc.Tree

variable {σ : Type}

/-- A tree without calls in which no string is a template compiles to what it denotes, and the state
of the host stays as it is. There a container has each of its keys once, in the order in which they
come first, and a key stands for what its last entry denotes by itself. -/
theorem compileTree_eq_denote (config : Config σ) (mode : Mode) {tree : Tree}
    {entries : List (Entry Tree)} (host : σ) (hr : tree.entries? = some entries)
    (hc : ∀ node ∈ tree.nodes, node.ownCalls = [])
    (hi : config.interpolate = false ∨
      ∀ source, .complexString source ∈ tree.nodes → (Template.mk source).hasTokens = false) :
    config.compileTree mode tree host = (.ok tree.denote, host) ∧
    ∀ node ∈ tree.nodes, ∀ inner, node.entries? = some inner →
      ∃ members : Table Value, node.denote = .object members ∧
        members.names = (inner.map Entry.key).eraseDups ∧
        ∀ key, members.find? key =
          (inner.reverse.find? fun entry => entry.key = key).map fun entry => entry.value.denote := by
  have hinert : ∀ node ∈ tree.nodes, node.Inert config.interpolate := fun node hn => by
    refine ⟨hc node hn, ?_⟩
    rintro source rfl
    rcases hi with hi | hi
    · rw [isActive, hi, Bool.false_and]
    · rw [isActive, hi source hn, Bool.and_false]
  have hb : ∀ node ∈ (block entries).nodes, node.Inert config.interpolate :=
    forall_nodes_of_entries? hr hinert ⟨rfl, fun h => by cases h⟩
  constructor
  · have hsettled : (block entries).denote.hasTemplate = false :=
      (Value.hasTemplate_eq_false_iff _).2 (templates_denote (block entries))
    have hreaches : ∀ s : Session σ, s.root = Reference.rootOf (block entries).denote →
        Reaches config mode [] s Reference.rootOf (.ok (block entries).denote) :=
      fun s hs => reaches_nil hs
    obtain ⟨after, hp, hh, hroot⟩ := runPasses_of_reaches config mode
      (fun _ hm => absurd hm List.not_mem_nil) host hsettled (fun w hw => by cases hw; exact hsettled)
      hreaches
    rw [compileTree_eq config mode host hr (initial_of_inert _ hb), jobs_of_inert _ hb, hp]
    dsimp only [Except.map]
    rw [document_of_root (hroot _ rfl), hh, denote_of_entries? hr]
    rfl
  · intro node _ inner he
    refine ⟨_, denote_of_entries? he, ?_, find?_denoteMembers inner⟩
    rw [Table.names_ofList, names_denoteMembers]

/-- A key that comes again, for another container: the first one is not merged into it, and the key
keeps its place. -/
theorem compileTree_again :
    let config : Config Unit := ⟨true, false, []⟩
    let tree : Tree := .map [⟨"a", .map [⟨"x", .boolean true⟩]⟩, ⟨"b", .complexString "$x"⟩,
      ⟨"a", .block [⟨"y", .array [.piped (.rawString "s") [], .map []]⟩]⟩]
    config.compileTree .blocking tree () = (.ok (.object [
      ("a", .object [("y", .array [.string "s", .object []])]), ("b", .string "$x")]), ()) := by
  intro config tree
  refine (compileTree_eq_denote config .blocking () rfl ?_ (.inr ?_)).1.trans rfl
  · simp [tree, nodes, entryNodes, itemNodes, callNodes, ownCalls]
  · intro source hs
    simp only [tree, nodes, entryNodes, itemNodes, callNodes, List.append_nil, List.nil_append,
      List.cons_append, List.mem_cons, List.not_mem_nil, or_false, reduceCtorEq, false_or,
      complexString.injEq] at hs
    subst hs
    decide +kernel

end Config

end ConfigDoc
