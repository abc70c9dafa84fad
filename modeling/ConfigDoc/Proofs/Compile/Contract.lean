import ConfigDoc.Proofs.Draft.Acceptance
import ConfigDoc.Proofs.Preparation
import ConfigDoc.Proofs.Session.Failure
import ConfigDoc.Proofs.Tree.Contract
import Mathlib

/-! Texts compile without a complaint about a node: what the grammar guarantees is all that writing a
tree and evaluating arguments ask for. -/

namespace ConfigDoc

variable {σ : Type}

namespace Tree

/-- A regular node may stand in a document; without pipes and blocks, also in an argument. -/
theorem Regular.fitting {node : Tree} {placement : Placement} (h : node.Regular)
    (hp : placement = .argument → node.kind ≠ .block ∧ node.kind ≠ .piped) :
    node.Fitting placement := by
  cases node with
  | array items => exact fun item hm => asCall?_eq_none_iff.2 (h item hm)
  | map entries => exact fun entry hm => asCall?_eq_none_iff.2 (h entry hm)
  | block entries => exact fun ha => absurd rfl (hp ha).1
  | piped raw chain =>
    refine ⟨?_, asCall?_eq_none_iff.2 h.1⟩
    cases placement with
    | document => rfl
    | argument => exact absurd rfl (hp rfl).2
  | _ => trivial

theorem acceptable_of_regular {tree : Tree} (hk : tree.kind = .block)
    (h : ∀ node ∈ tree.nodes, node.Regular) : tree.Acceptable := by
  cases tree with
  | block entries =>
    refine ⟨entries, rfl, fun entry hm node hn => ?_⟩
    exact ((forall_nodes_block.1 h).2 entry hm node (outerNodes_subset _ hn)).fitting nofun
  | _ => cases hk

/-- The arguments of the calls of a regular tree can be written among arguments. -/
theorem writable_of_ownCalls {tree node : Tree} (h : ∀ node ∈ tree.nodes, node.Regular)
    (hn : node ∈ tree.nodes) {call : Call Tree} (hc : call ∈ node.ownCalls) :
    ∀ arg ∈ call.args, arg.Writable .argument := by
  have hargs : ∀ arg ∈ call.args, arg.nodes ⊆ tree.nodes := fun arg hm =>
    List.Subset.trans (nodes_subset_of_arg hc hm) (nodes_subset_of_mem tree hn)
  intro arg hm
  have hplain := (h node hn).plain call hc arg hm
  refine ⟨asCall?_eq_none_iff.2 (hplain arg (self_mem_nodes arg)).2.2, fun inner hi => ?_⟩
  have hi := outerNodes_subset arg hi
  exact (h inner (hargs arg hm hi)).fitting fun _ => ⟨(hplain inner hi).1, (hplain inner hi).2.1⟩

theorem ownCalls_of_mem_jobs {interpolate : Bool} {tree : Tree} {slot : Reference} {job : Job}
    (h : job ∈ tree.jobs interpolate slot) :
    ∀ call ∈ job.calls, ∃ node ∈ tree.nodes, call ∈ node.ownCalls := by
  have hcauses := causes_of_mem_jobs tree slot h
  intro call hm
  cases job with
  | directives target calls =>
    obtain ⟨node, hn, -, hc⟩ := hcauses
    exact ⟨node, hn, hc call hm⟩
  | _ => cases hm

end Tree

def Error.IsClash (e : Error) : Prop :=
  (∃ name, e = .duplicateHandler name) ∨ ∃ name, e = .nameConflict name

theorem Table.isClash_of_extend {α : Type} {table others : Table α} {e : Error}
    (h : table.extend others = .error e) : e.IsClash := by
  rcases extend_cases table others with ⟨hok, -⟩ | ⟨name, he, -⟩
  · cases h.symm.trans hok
  · cases h.symm.trans he
    exact .inl ⟨name, rfl⟩

theorem Plugin.isClash_of_merge {merged : Handlers σ} {plugins : List (Plugin σ)} {e : Error}
    (h : Plugin.merge merged plugins = .error e) : e.IsClash := by
  rcases merge_cases merged plugins with ⟨hok, -⟩ | ⟨name, he, -⟩
  · cases h.symm.trans hok
  · cases h.symm.trans he
    exact .inl ⟨name, rfl⟩

namespace Config
open Session

theorem isClash_of_install {directives : Table (DirectiveHandler σ)}
    {mappers : Table (MapperHandler σ)} {e : Error} (h : install directives mappers = .error e) :
    e.IsClash := by
  induction mappers generalizing directives with
  | nil => cases h
  | cons entry rest ih =>
    rw [install] at h
    split at h
    · cases h
      exact .inr ⟨_, rfl⟩
    · exact ih h

theorem isClash_of_prepare {registered : List (Plugin σ)} {options : Options σ} {e : Error}
    (h : prepare registered options = .error e) : e.IsClash := by
  rcases bind_eq_error_iff.1 h with h | ⟨fromPlugins, -, h⟩
  · exact Plugin.isClash_of_merge h
  rcases bind_eq_error_iff.1 h with h | ⟨mappers, -, h⟩
  · exact Table.isClash_of_extend h
  rcases bind_eq_error_iff.1 h with h | ⟨directives, -, h⟩
  · exact Table.isClash_of_extend h
  rcases bind_eq_error_iff.1 h with h | ⟨handlers, -, h⟩
  · exact isClash_of_install h
  · cases h

/-- In a regular tree only a handler complains about a node. -/
theorem raised_of_regular {config : Config σ} {mode : Mode} {tree : Tree} {host : σ}
    {kind : Tree.Kind} (hk : tree.kind = .block) (hr : ∀ node ∈ tree.nodes, node.Regular)
    (h : (config.runTree mode tree host).1 = .error (.invalidNode kind)) :
    Raised config (.invalidNode kind) (config.runTree mode tree host).2 := by
  rcases error_of_runTree h with hd | ⟨entries, job, he, hj, hb⟩
  · obtain ⟨draft, hok⟩ := Draft.ofTree_isOk_iff.2 (Tree.acceptable_of_regular hk hr)
    cases hd.symm.trans hok
  cases tree with
  | block entries' =>
    cases he
    cases hb with
    | circle chain h => cases h
    | slot v h =>
      obtain ⟨fault, hf⟩ := Reference.error_of_replace h
      cases hf
    | unknown call hm hn h => cases h
    | argument call hm h =>
      rcases hj with hj | rfl
      · obtain ⟨node, hn, hc⟩ := Tree.ownCalls_of_mem_jobs hj call hm
        obtain ⟨vs, hok⟩ := Tree.initialItems_isOk_iff call.args |>.2
          (Tree.writable_of_ownCalls hr hn hc)
        cases h.symm.trans hok
      · cases hm
    | misuse name h => cases h
    | raised h => exact h
  | _ => cases hk

/-- A text that can be read gives a regular tree. So its document is written, the arguments of its
calls are never refused for a node, and if compiling it, with whatever options, ends with a complaint
about a node, then it is that of a handler. -/
theorem compile_of_ofText (config : Config σ) (mode : Mode) {text : String} {tree : Tree} (host : σ)
    (h : Tree.ofText text = .ok tree) :
    (∀ node ∈ tree.nodes, node.Regular) ∧
    (∃ draft, Draft.ofTree config.interpolate tree = .ok draft) ∧
    (∀ node ∈ tree.nodes, ∀ call ∈ node.ownCalls, ∀ sources target queue kind,
      Draft.evaluateArguments config.interpolate sources target call queue ≠
        .error (.invalidNode kind)) ∧
    (∀ kind, (config.compile mode text host).1 = .error (.invalidNode kind) →
      Raised config (.invalidNode kind) (config.runTree mode tree host).2) ∧
    ∀ registered options kind,
      (compileText registered options mode text host).1 = .error (.invalidNode kind) →
        ∃ made, prepare registered (options.forMode mode) = .ok made ∧
          Raised made (.invalidNode kind) (made.runTree mode tree host).2 := by
  obtain ⟨hk, hr⟩ := Tree.regular_of_ofText h
  have hcompile : ∀ made : Config σ, made.compile mode text host =
      ((made.runTree mode tree host).1, (made.runTree mode tree host).2.host) := fun made => by
    rw [compile, h]
    rfl
  refine ⟨hr, Draft.ofTree_isOk_iff.2 (Tree.acceptable_of_regular hk hr), ?_, ?_, ?_⟩
  · intro node hn call hc sources target queue kind he
    rw [Draft.evaluateArguments_eq] at he
    obtain ⟨vs, hvs⟩ := Tree.initialItems_isOk_iff call.args |>.2
      (Tree.writable_of_ownCalls hr hn hc)
    rcases bind_eq_error_iff.1 he with he | ⟨vs, -, he⟩
    · cases he.symm.trans hvs
    rcases bind_eq_error_iff.1 he with he | ⟨args, -, he⟩
    · obtain ⟨v, -, he⟩ := error_of_mapM he
      obtain ⟨chain, hchain⟩ := error_of_resolveAll he
      cases hchain
    · cases he
  · intro kind hc
    rw [hcompile] at hc
    exact raised_of_regular hk hr hc
  · intro registered options kind hc
    rw [compileText] at hc
    split at hc
    · rename_i hp
      cases hc
      rcases isClash_of_prepare hp with ⟨name, hn⟩ | ⟨name, hn⟩ <;> cases hn
    · rename_i made hp
      rw [hcompile] at hc
      exact ⟨made, hp, raised_of_regular hk hr hc⟩

def noLists : Config Unit where
  interpolate := true
  asynchronous := false
  handlers := [("f", fun _ args =>
    if args.any fun v => v.asArray?.isSome then .fail (.invalidNode .array) else .done .ready)]

/-- The list in the argument is fine as such; the complaint about it is the directive's own. -/
theorem compile_noLists : Raised noLists (.invalidNode .array) (noLists.runTree .blocking
    (.block [⟨"a", .piped (.rawString "x") [⟨"f", [.rawString "y"]⟩]⟩,
      ⟨"b", .block [.ofCall ⟨"f", [.array [.boolean true]]⟩]⟩]) ()).2 := by
  have hread : Tree.ofText "a = 'x' |> @f('y')\nb \x7b\n@f([true])\n\x7d\n" =
      .ok (.block [⟨"a", .piped (.rawString "x") [⟨"f", [.rawString "y"]⟩]⟩,
        ⟨"b", .block [.ofCall ⟨"f", [.array [.boolean true]]⟩]⟩]) := by cbv
  refine (compile_of_ofText noLists .blocking () hread).2.2.2.1 .array ?_
  exact map_eq_error_iff.1 (by decide +kernel : Except.map Value.text _ = _)

end Config

end ConfigDoc
