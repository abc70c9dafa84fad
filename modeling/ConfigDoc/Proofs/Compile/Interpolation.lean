import ConfigDoc.Proofs.Draft.Targets
import ConfigDoc.Proofs.Session.Interpolation

/-! Compiling a tree without calls resolves all of its templates at once, or finds a circle. -/

namespace ConfigDoc

namespace Tree
open Value

variable {interpolate : Bool}

theorem asCall?_of_ownCalls {tree : Tree} (h : tree.ownCalls = []) : tree.asCall? = none := by
  cases tree with
  | directive call => cases h
  | _ => rfl

/-- Without calls nothing but templates is left for later. -/
theorem directives_not_mem_jobs {tree : Tree} (h : ∀ node ∈ tree.nodes, node.ownCalls = [])
    (slot target : Reference) (calls : List (Call Tree)) :
    .directives target calls ∉ tree.jobs interpolate slot := by
  intro hm
  obtain ⟨node, hn, hne, hown⟩ := causes_of_mem_jobs tree slot hm
  rw [h node hn] at hown
  exact hne (List.eq_nil_iff_forall_not_mem.2 fun call hc => nomatch hown call hc)

mutual

/-- Nothing is refused but calls. -/
theorem initial_of_ownCalls (interpolate : Bool) (tree : Tree)
    (h : ∀ node ∈ tree.nodes, node.ownCalls = []) :
    ∃ v, tree.initial interpolate .document = .ok v := by
  cases tree with
  | numeric x | boolean b | rawString s | complexString s => exact ⟨_, rfl⟩
  | array items =>
    obtain ⟨vs, hi⟩ := initialItems_of_ownCalls interpolate items (forall_nodes_array.1 h).2
    exact ⟨_, by rw [initial, hi]; rfl⟩
  | map entries =>
    obtain ⟨hn, ms, hi⟩ := initialMembers_of_ownCalls interpolate entries (forall_nodes_map.1 h).2
    exact ⟨_, initial_map_eq_ok_iff.2 ⟨hn, ms, hi, rfl⟩⟩
  | block entries =>
    obtain ⟨hn, ms, hi⟩ := initialMembers_of_ownCalls interpolate entries (forall_nodes_block.1 h).2
    exact ⟨_, initial_block_eq_ok_iff.2 ⟨fun _ => hn, ms, hi, rfl⟩⟩
  | piped raw chain => exact initial_of_ownCalls interpolate raw (forall_nodes_piped.1 h).2.1
  | directive call => cases h _ (self_mem_nodes _)
termination_by structural tree

theorem initialItems_of_ownCalls (interpolate : Bool) (items : List Tree)
    (h : ∀ item ∈ items, ∀ node ∈ item.nodes, node.ownCalls = []) :
    ∃ vs, initialItems interpolate .document items = .ok vs := by
  cases items with
  | nil => exact ⟨[], rfl⟩
  | cons item rest =>
    obtain ⟨hi, hr⟩ := List.forall_mem_cons.1 h
    obtain ⟨v, hv⟩ := initial_of_ownCalls interpolate item hi
    obtain ⟨vs, hvs⟩ := initialItems_of_ownCalls interpolate rest hr
    exact ⟨v :: vs, by rw [initialItems, hv, hvs]; rfl⟩
termination_by structural items

theorem initialMembers_of_ownCalls (interpolate : Bool) (entries : List (Entry Tree))
    (h : ∀ entry ∈ entries, ∀ node ∈ entry.value.nodes, node.ownCalls = []) :
    (∀ entry ∈ entries, entry.value.asCall? = none) ∧
      ∃ ms, initialMembers interpolate .document entries = .ok ms := by
  cases entries with
  | nil => exact ⟨nofun, [], rfl⟩
  | cons entry rest =>
    obtain ⟨key, value⟩ := entry
    obtain ⟨hi, hr⟩ := List.forall_mem_cons.1 h
    have hn : value.asCall? = none := asCall?_of_ownCalls (hi _ (self_mem_nodes _))
    obtain ⟨v, hv⟩ := initial_of_ownCalls interpolate value hi
    obtain ⟨hns, ms, hms⟩ := initialMembers_of_ownCalls interpolate rest hr
    refine ⟨List.forall_mem_cons.2 ⟨hn, hns⟩, (key, v) :: ms, ?_⟩
    rw [initialMembers, hn, hv, hms]
    rfl
termination_by structural entries

end

end Tree

namespace Session
open Template Value

/-- All jobs of a tree without calls resolve templates of its document. -/
theorem awaits_of_mem_jobs {interpolate : Bool} {tree : Tree}
    (hd : ∀ node ∈ tree.nodes, node.Distinct) (hc : ∀ node ∈ tree.nodes, node.ownCalls = [])
    {document : Value} (hv : tree.initial interpolate .document = .ok document) {job : Job}
    (hm : job ∈ tree.jobs interpolate Reference.document) :
    Awaits document job ∧ ∃ target t, job = .interpolate target t := by
  have hcauses := Tree.causes_of_mem_jobs tree _ hm
  cases job with
  | interpolate target t =>
    exact ⟨Tree.pointsTo_of_mem_jobs tree hd hv _ _ Reference.focuses_document hm, _, _, rfl⟩
  | directives target calls => exact absurd hm (Tree.directives_not_mem_jobs hc _ target calls)
  | sweep => exact hcauses.elim

/-- Whether jobs out of a queue, in any order and however often each, do all that there is to do:
the sweep is among them, or every other job. -/
def Suffices (queue : Queue Job) (order : List Job) : Prop :=
  order ⊆ queue.waiting ∧ (.sweep ∈ order ∨ ∀ job ∈ queue.waiting, job ≠ .sweep → job ∈ order)

section
variable {σ : Type} {config : Config σ} {tree : Tree} {document : Value}

/-- Jobs that suffice finish the document, or meet a circle. -/
theorem runAll_of_suffices (mode : Mode) (hi : config.interpolate = true)
    (hd : ∀ node ∈ tree.nodes, node.Distinct) (hc : ∀ node ∈ tree.nodes, node.ownCalls = [])
    (hv : tree.initial config.interpolate .document = .ok document) {queue : Queue Job}
    (hq : queue.waiting = tree.jobs config.interpolate Reference.document ++ [.sweep])
    {order : List Job} (ho : Suffices queue order) {s : Session σ}
    (hs : s.root = Reference.rootOf document) :
    ((∀ t ∈ document.templates, Ready document t) →
      ∃ after, runAll config mode order s = (.ok (), after) ∧ after.host = s.host ∧
        after.root = Reference.rootOf (document.fill (textOf document.get?))) ∧
    ((¬ ∀ t ∈ document.templates, Ready document t) →
      ∃ chain after, runAll config mode order s = (.error (.circularTemplate chain), after) ∧
        after.host = s.host) := by
  obtain ⟨hmem, hall⟩ := ho
  rw [hq] at hmem hall
  refine runAll_interpolation mode hi (fun job hm => ?_) hs fun later hsettled hdone => ?_
  · rcases List.mem_append.1 (hmem hm) with hj | hj
    · exact (awaits_of_mem_jobs hd hc hv hj).1
    · cases List.mem_singleton.1 hj
      trivial
  · rcases hall with hsweep | hjobs
    · exact (hasTemplate_rootOf later).symm.trans (hdone _ hsweep)
    · refine Tree.hasTemplate_of_jobs tree hd hv hsettled _ _ Reference.focuses_document
        fun r t hm => hdone _ (hjobs _ (List.mem_append_left _ hm) nofun)

/-- The passes of a compilation come to the jobs in the order of the queue. -/
theorem runPasses_of_interpolates (mode : Mode) {jobs : List Job}
    (hj : ∀ job ∈ jobs, ∃ target t, job = .interpolate target t) (s : Session σ) :
    runPasses config mode (plan jobs) s =
      match runAll config mode (jobs ++ [.sweep]) (s.record (.pass .interpolation)) with
      | (.error e, after) => (.error e, after)
      | (.ok (), after) => runAll config mode [.sweep]
          ((after.record (.pass .directives)).record (.pass .interpolation)) := by
  have hfirst : inPass .interpolation jobs = jobs := by
    refine List.filter_eq_self.2 fun job hm => ?_
    obtain ⟨target, t, rfl⟩ := hj job hm
    rfl
  have hsecond : inPass .directives jobs = [] := by
    refine List.filter_eq_nil_iff.2 fun job hm => ?_
    obtain ⟨target, t, rfl⟩ := hj job hm
    exact Bool.false_ne_true
  rw [plan, hfirst, hsecond]
  simp only [runPasses]
  rcases runAll config mode (jobs ++ [Job.sweep]) (s.record (.pass .interpolation)) with
    ⟨_ | _, after⟩
  · rfl
  · dsimp only [runAll]
    rcases runJob config mode .sweep
      ((after.record (.pass .directives)).record (.pass .interpolation)) with ⟨_ | _, last⟩ <;> rfl

end

end Session

namespace Config
open Session Template Value

variable {σ : Type}

/-- What a block without calls compiles to, by what is written. -/
theorem compileTree_of_ownCalls (config : Config σ) (mode : Mode) (hi : config.interpolate = true)
    {tree : Tree} {entries : List (Entry Tree)} (host : σ) (hr : tree.entries? = some entries)
    (hd : ∀ node ∈ (Tree.block entries).nodes, node.Distinct)
    (hc : ∀ node ∈ (Tree.block entries).nodes, node.ownCalls = []) {document : Value}
    (hv : (Tree.block entries).initial config.interpolate .document = .ok document) :
    ((∀ t ∈ document.templates, Ready document t) →
      config.compileTree mode tree host = (.ok (document.fill (textOf document.get?)), host)) ∧
    ((¬ ∀ t ∈ document.templates, Ready document t) →
      ∃ chain, config.compileTree mode tree host = (.error (.circularTemplate chain), host)) := by
  have hq := waiting_draft
    ((Tree.block entries).jobs config.interpolate Reference.document)
  have ho : Suffices _ _ := ⟨fun job hm => hq.symm ▸ hm,
    .inl (List.mem_append_right _ (List.mem_singleton_self Job.sweep))⟩
  have hrun := runAll_of_suffices mode hi hd hc hv hq ho
    (show ((start host document).record (.pass .interpolation)).root = _ from rfl)
  rw [compileTree_eq config mode host hr hv,
    runPasses_of_interpolates mode fun job hm => (awaits_of_mem_jobs hd hc hv hm).2]
  constructor
  · intro hready
    obtain ⟨after, he, hh, hroot⟩ := hrun.1 hready
    obtain ⟨last, hl, hroot', hh'⟩ := runAll_sweep config mode
      (s := (after.record (.pass .directives)).record (.pass .interpolation)) hroot
      (hasTemplate_fill _ document)
    rw [he]
    dsimp only
    rw [hl]
    dsimp only
    rw [document_of_root (hroot'.trans hroot), hh']
    exact congrArg _ hh
  · intro hnot
    obtain ⟨chain, after, he, hh⟩ := hrun.2 hnot
    refine ⟨chain, ?_⟩
    rw [he]
    exact congrArg _ hh

/-- A tree without calls or repeated keys compiles to the document as it is written, with every
template in it replaced at once by its text, the texts of the tokens being the only ones that fit
together. That fails exactly if some token that is needed depends on itself. Any other order of
the jobs comes to the same, and so does the sweep alone. -/
theorem compileTree_interpolation (config : Config σ) (mode : Mode)
    (hi : config.interpolate = true) {tree : Tree} {entries : List (Entry Tree)} (host : σ)
    (hr : tree.entries? = some entries) (hd : ∀ node ∈ tree.nodes, node.Distinct)
    (hc : ∀ node ∈ tree.nodes, node.ownCalls = []) :
    ∃ draft, Draft.ofTree config.interpolate tree = .ok draft ∧
      let s := ofDraft host draft
      let find := s.document.get?
      (Circular find s.document.tokenKeys →
        (∃ chain, config.compileTree mode tree host = (.error (.circularTemplate chain), host)) ∧
        ∀ order, Suffices draft.queue order → ∃ chain,
          (runAll config mode order s).1 = .error (.circularTemplate chain)) ∧
      (¬ Circular find s.document.tokenKeys →
        ∃ textOf, (∀ other, Solves find other ↔ other = textOf) ∧
          config.compileTree mode tree host = (.ok (s.document.fill textOf), host) ∧
          ∀ order, Suffices draft.queue order → ∃ after,
            runAll config mode order s = (.ok (), after) ∧
              after.document = s.document.fill textOf) := by
  replace hd := Tree.distinct_block hr hd
  replace hc : ∀ node ∈ (Tree.block entries).nodes, node.ownCalls = [] :=
    Tree.forall_nodes_of_entries? hr hc rfl
  obtain ⟨v, hv⟩ := Tree.initial_of_ownCalls config.interpolate _ hc
  have hcompile := compileTree_of_ownCalls config mode hi host hr hd hc hv
  have hq := waiting_draft
    ((Tree.block entries).jobs config.interpolate Reference.document)
  refine ⟨_, by rw [Draft.ofTree_eq _ hr, hv]; rfl, ?_⟩
  -- The document of the draft is what the tree stands for at first.
  intro s find
  have hs : s.root = Reference.rootOf v := rfl
  have hfind : find = v.get? := congrArg Value.get? (document_of_root hs)
  rw [hfind, document_of_root hs]
  constructor
  · intro hcirc
    have hnot := mt (not_circular_iff_ready v).2 (not_not.2 hcirc)
    refine ⟨hcompile.2 hnot, fun order ho => ?_⟩
    obtain ⟨chain, after, he, -⟩ := (runAll_of_suffices mode hi hd hc hv hq ho hs).2 hnot
    exact ⟨chain, congrArg Prod.fst he⟩
  · intro hcirc
    have hready := (not_circular_iff_ready v).1 hcirc
    refine ⟨textOf v.get?, fun other => solves_iff_of_ready hready, hcompile.1 hready,
      fun order ho => ?_⟩
    obtain ⟨after, he, -, hroot⟩ := (runAll_of_suffices mode hi hd hc hv hq ho hs).1 hready
    exact ⟨after, he, document_of_root hroot⟩

/-- Templates that need each other forwards: `{ a = "${b}!", b = "<${c}>", c = true }`. -/
theorem compileTree_forward :
    let tree : Tree := .block [⟨"a", .complexString "$\x7bb\x7d!"⟩,
      ⟨"b", .complexString "<$\x7bc\x7d>"⟩, ⟨"c", .boolean true⟩]
    let config : Config Unit := ⟨true, false, []⟩
    ∃ draft after, Draft.ofTree config.interpolate tree = .ok draft ∧
      runAll config .blocking [.sweep] (ofDraft () draft) = (.ok (), after) ∧
        config.compileTree .blocking tree () = (.ok after.document, ()) := by
  intro tree config
  have hok : (config.compileTree .blocking tree ()).1.isOk = true := by decide +kernel
  obtain ⟨draft, hd, hcirc, hfill⟩ := compileTree_interpolation config .blocking rfl () rfl
    (show ∀ node ∈ tree.nodes, node.Distinct by
      simp [tree, Tree.nodes, Tree.entryNodes, Tree.Distinct, Tree.entries?, Tree.keys,
        Tree.asCall?])
    (by simp [tree, Tree.nodes, Tree.entryNodes, Tree.ownCalls])
  obtain ⟨textOf, -, hc, horder⟩ := hfill fun h => by
    obtain ⟨⟨chain, he⟩, -⟩ := hcirc h
    rw [he] at hok
    cases hok
  have hs : Suffices draft.queue [.sweep] := by
    rw [Draft.ofTree_eq _ rfl] at hd
    obtain ⟨v, -, rfl⟩ := map_eq_ok_iff.1 hd
    exact ⟨by simp [waiting_draft], .inl (List.mem_singleton_self _)⟩
  obtain ⟨after, hr, ha⟩ := horder _ hs
  exact ⟨draft, after, hd, hr, ha.symm ▸ hc⟩

end Config

end ConfigDoc
