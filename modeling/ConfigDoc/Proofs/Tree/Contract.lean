import ConfigDoc.Proofs.Tree.Soundness

/-! What the grammar guarantees of the trees that it gives: calls stand in their places only, and the
arguments of calls are plain data. -/

namespace ConfigDoc

/-- Whether the arguments of a call are data at every depth: no block, no pipe and no call. -/
def Call.Plain (call : Call Tree) : Prop :=
  ∀ arg ∈ call.args, ∀ node ∈ arg.nodes,
    node.kind ≠ .block ∧ node.kind ≠ .piped ∧ node.kind ≠ .directive

namespace Tree

/-- What a node of a tree of the grammar is like: items, members of maps and values of pipes are no
calls, a call among the entries of a block is listed under its name, the value of a pipe is no pipe
itself and its chain is not empty, and the arguments of calls are plain. -/
def Regular : Tree → Prop
  | .array items => ∀ item ∈ items, item.kind ≠ .directive
  | .map entries => ∀ entry ∈ entries, entry.value.kind ≠ .directive
  | .block entries => ∀ entry ∈ entries, ∀ call, entry.value = .directive call → entry.key = call.name
  | .directive call => call.Plain
  | .piped raw chain => raw.kind ≠ .directive ∧ raw.kind ≠ .piped ∧ chain ≠ [] ∧
      ∀ call ∈ chain, call.Plain
  | _ => True

theorem asCall?_eq_none_iff {tree : Tree} : tree.asCall? = none ↔ tree.kind ≠ .directive := by
  cases tree <;> simp [asCall?, kind]

theorem Regular.plain {node : Tree} (h : node.Regular) : ∀ call ∈ node.ownCalls, call.Plain := by
  intro call hm
  cases node with
  | directive made => exact List.mem_singleton.1 hm ▸ h
  | piped raw chain => exact h.2.2.2 call hm
  | _ => cases hm

def Literal (tree : Tree) : Prop := ∀ node ∈ tree.nodes, node.Regular ∧ node.kind ≠ .block

theorem Literal.regular {tree : Tree} (h : tree.Literal) : ∀ node ∈ tree.nodes, node.Regular :=
  fun node hm => (h node hm).1

theorem literal_array {items : List Tree}
    (h : ∀ item ∈ items, item.Literal ∧ item.kind ≠ .directive) : (array items).Literal :=
  forall_nodes_array.2 ⟨⟨fun item hm => (h item hm).2, nofun⟩, fun item hm => (h item hm).1⟩

theorem literal_map {entries : List (Entry Tree)}
    (h : ∀ entry ∈ entries, entry.value.Literal ∧ entry.value.kind ≠ .directive) :
    (map entries).Literal :=
  forall_nodes_map.2 ⟨⟨fun entry hm => (h entry hm).2, nofun⟩, fun entry hm => (h entry hm).1⟩

theorem literal_directive {call : Call Tree} :
    (directive call).Literal ↔ call.Plain ∧ ∀ arg ∈ call.args, arg.Literal := by
  simp [Literal, forall_nodes_directive, Regular, kind]

theorem literal_piped {raw : Tree} {chain : List (Call Tree)} (hr : raw.Literal)
    (hd : raw.kind ≠ .directive) (hp : raw.kind ≠ .piped) (hn : chain ≠ [])
    (hc : ∀ call ∈ chain, (directive call).Literal) : (piped raw chain).Literal := by
  have hplain : ∀ call ∈ chain, call.Plain := fun call hm => (literal_directive.1 (hc call hm)).1
  exact forall_nodes_piped.2 ⟨⟨⟨hd, hp, hn, hplain⟩, nofun⟩, hr,
    fun call hm => (literal_directive.1 (hc call hm)).2⟩

/-- Arguments that are read without pipes and calls are plain: only statements hold blocks. -/
theorem literal_call {name : String} {args : List Tree} (h : ∀ arg ∈ args, arg.Literal)
    (hp : ∀ arg ∈ args, arg.Plain) : (directive ⟨name, args⟩).Literal :=
  literal_directive.2 ⟨fun arg hm node hn => ⟨(h arg hm node hn).2, hp arg hm node hn⟩, h⟩

end Tree

namespace Grammar
open ConfigDoc.Tree

def Phrase.Regular : Phrase → Prop
  | .body entries => ∀ node ∈ (Tree.block entries).nodes, node.Regular
  | .statement entry => (∀ call, entry.value = .directive call → entry.key = call.name) ∧
      ∀ node ∈ entry.value.nodes, node.Regular
  | .expression tree => tree.Literal ∧ tree.kind ≠ .directive
  | .rightPipes calls => ∀ call ∈ calls, (Tree.directive call).Literal
  | .leftPipes calls => calls ≠ [] ∧ ∀ call ∈ calls, (Tree.directive call).Literal
  | .value tree => tree.Literal ∧ tree.kind ≠ .directive ∧ tree.kind ≠ .piped
  | .items trees => ∀ tree ∈ trees, tree.Literal ∧ tree.kind ≠ .directive
  | .members entries => ∀ entry ∈ entries, entry.value.Literal ∧ entry.value.kind ≠ .directive
  | .call made => (Tree.directive made).Literal

theorem regular_of_scalar {token : Token} {tree : Tree} (h : Scalar token tree) :
    (Phrase.value tree).Regular := by
  cases h <;> simp [Phrase.Regular, Literal, nodes, Tree.Regular, kind]

/-- Everything that the grammar derives is regular. -/
theorem regular_of_derives {phrase : Phrase} {us : List Token} (h : Derives phrase us) :
    phrase.Regular := by
  induction h with
  | emptyBody => exact forall_nodes_block.2 ⟨nofun, nofun⟩
  | bodyCons _ _ _ _ _ ihf ihr =>
    obtain ⟨hn, hr⟩ := forall_nodes_block.1 ihr
    exact forall_nodes_block.2
      ⟨List.forall_mem_cons.2 ⟨ihf.1, hn⟩, List.forall_mem_cons.2 ⟨ihf.2, hr⟩⟩
  | callStatement _ ih =>
    refine ⟨fun call hc => ?_, ih.regular⟩
    cases hc
    rfl
  | assignment _ _ _ ih =>
    exact ⟨fun call hc => absurd (congrArg Tree.kind hc) ih.2, ih.1.regular⟩
  | block _ _ ih => exact ⟨nofun, ih⟩
  | unpiped _ ih => exact ⟨ih.1, ih.2.1⟩
  | rightPiped _ _ hn ih ihc => exact ⟨literal_piped ih.1 ih.2.1 ih.2.2 hn ihc, nofun⟩
  | leftPiped _ _ ihc ih =>
    refine ⟨literal_piped ih.1 ih.2.1 ih.2.2 (by simpa using ihc.1) fun call hm => ?_, nofun⟩
    exact ihc.2 call (List.mem_reverse.1 hm)
  | noRightPipe => exact nofun
  | rightPipe _ _ _ _ ih ihc => exact List.forall_mem_cons.2 ⟨ih, ihc⟩
  | lastLeftPipe _ _ _ ih => exact ⟨List.cons_ne_nil _ _, List.forall_mem_singleton.2 ih⟩
  | leftPipe _ _ _ _ ih ihc => exact ⟨List.cons_ne_nil _ _, List.forall_mem_cons.2 ⟨ih, ihc.2⟩⟩
  | scalar hs => exact regular_of_scalar hs
  | emptyArray => exact ⟨literal_array nofun, nofun, nofun⟩
  | array _ _ ih => exact ⟨literal_array ih, nofun, nofun⟩
  | emptyMap => exact ⟨literal_map nofun, nofun, nofun⟩
  | map _ _ ih => exact ⟨literal_map ih, nofun, nofun⟩
  | lastItem _ _ _ ih => exact List.forall_mem_singleton.2 ih
  | item _ _ _ _ ih iht => exact List.forall_mem_cons.2 ⟨ih, iht⟩
  | lastMember _ _ _ _ _ _ ih => exact List.forall_mem_singleton.2 ih
  | member _ _ _ _ _ _ _ ih ihe => exact List.forall_mem_cons.2 ⟨ih, ihe⟩
  | bareCall | emptyCall => exact literal_call nofun nofun
  | fullCall _ _ _ hp ih => exact literal_call (fun arg hm => (ih arg hm).1) hp

end Grammar

namespace Tree
open Grammar

theorem derives_of_ofText {text : String} {tree : Tree} (h : ofText text = .ok tree) :
    ∃ entries us, tree = .block entries ∧ Derives (.body entries) us := by
  obtain ⟨ts, -, h⟩ := bind_eq_ok_iff.1 h
  obtain ⟨⟨entries, rest⟩, hs, h⟩ := bind_eq_ok_iff.1 h
  cases h
  obtain ⟨us, -, hd, -⟩ := (sound _).statements (by decide) hs
  exact ⟨entries, us, rfl, hd⟩

/-- A text stands for a block, and every node of its tree is regular. -/
theorem regular_of_ofText {text : String} {tree : Tree} (h : ofText text = .ok tree) :
    tree.kind = .block ∧ ∀ node ∈ tree.nodes, node.Regular := by
  obtain ⟨entries, us, rfl, hd⟩ := derives_of_ofText h
  exact ⟨rfl, regular_of_derives hd⟩

end Tree

end ConfigDoc
