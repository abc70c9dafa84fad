import ConfigDoc.Proofs.Session.Confinement

/-! Without repeated keys, handlers that keep to their nodes never meet a slot that is not there. -/

namespace ConfigDoc

variable {σ : Type}

namespace Tree
open Reference Value

variable {interpolate : Bool} {v : Value}

theorem location_of_mem_documentJobs {tree : Tree} (hd : ∀ node ∈ tree.nodes, node.Distinct)
    (hv : tree.initial interpolate .document = .ok v) {job : Job}
    (h : job ∈ tree.jobs interpolate document) :
    (rootOf v).Paved job.slot.location ∧ job.Spares document.location := by
  obtain ⟨rest, hl, hp⟩ := paved_of_mem_jobs tree hd hv document h
  rw [Job.Spares, hl]
  exact ⟨⟨rfl, v, rfl, hp⟩, .inr (Path.spares_append _ _)⟩

/-- The slot of a template has nothing below it. -/
theorem spares_of_interpolate {tree : Tree} (hd : ∀ node ∈ tree.nodes, node.Distinct)
    (hv : tree.initial interpolate .document = .ok v) {i j : Job}
    (hi : i ∈ Session.inPass .interpolation (tree.jobs interpolate document))
    (hj : j ∈ tree.jobs interpolate document) : i.Spares j.slot.location := by
  obtain ⟨hm, hs⟩ := List.mem_filter.1 hi
  cases i with
  | interpolate target template =>
    have ht := pointsTo_of_mem_jobs tree hd hv document rootOf focuses_document hm
    exact .inr (spares_of_template ht.lookup (location_of_mem_documentJobs hd hv hj).1)
  | directives target calls => cases hs
  | sweep => exact .inl rfl

/-- In the order of the passes, too, no job works below the slot of an earlier one. -/
theorem pairwise_plan {tree : Tree} (hd : ∀ node ∈ tree.nodes, node.Distinct)
    (hv : tree.initial interpolate .document = .ok v) :
    ((Session.plan (tree.jobs interpolate document)).flatMap Prod.snd).Pairwise
      fun i j => i.Spares j.slot.location := by
  have hflat : (Session.plan (tree.jobs interpolate document)).flatMap Prod.snd =
      Session.inPass .interpolation (tree.jobs interpolate document) ++
        .sweep :: (Session.inPass .directives (tree.jobs interpolate document) ++ [.sweep]) := by
    simp [Session.plan]
  have hp := pairwise_jobs tree hd hv document
  have hdocument : ∀ job ∈ tree.jobs interpolate document, job.Spares Job.sweep.slot.location :=
    fun job hm => (location_of_mem_documentJobs hd hv hm).2
  have hlater : (Session.inPass .directives (tree.jobs interpolate document) ++
      [Job.sweep]).Pairwise fun i j => i.Spares j.slot.location := by
    refine List.pairwise_append.2 ⟨hp.filter _, List.pairwise_singleton _ _, fun i hi j hj => ?_⟩
    cases List.mem_singleton.1 hj
    exact hdocument i (List.mem_filter.1 hi).1
  rw [hflat]
  refine List.pairwise_append.2 ⟨hp.filter _, List.pairwise_cons.2 ⟨fun j _ => .inl rfl, hlater⟩,
    fun i hi j hj => ?_⟩
  rcases List.mem_cons.1 hj with rfl | hj
  · exact hdocument i (List.mem_filter.1 hi).1
  rcases List.mem_append.1 hj with hj | hj
  · exact spares_of_interpolate hd hv hi (List.mem_filter.1 hj).1
  · cases List.mem_singleton.1 hj
    exact hdocument i (List.mem_filter.1 hi).1

theorem paved_of_mem_plan {tree : Tree} (hd : ∀ node ∈ tree.nodes, node.Distinct)
    (hv : tree.initial interpolate .document = .ok v) {job : Job}
    (h : job ∈ (Session.plan (tree.jobs interpolate document)).flatMap Prod.snd) :
    (rootOf v).Paved job.slot.location := by
  rcases Session.mem_plan (List.mem_flatMap.1 h) with h | rfl
  · exact (location_of_mem_documentJobs hd hv h).1
  · exact ⟨rfl, v, rfl, trivial⟩

end Tree

namespace Config
open Session Reference

/-- In a tree without repeated keys every handler is applied to a slot that is there, in a container
of the right kind, as long as handlers change only the nodes that they are applied to, and to whatever
they change them. None of their changes is refused, and a compilation that ends with a complaint about
a reference ends with that of a handler. -/
theorem runTree_references (config : Config σ) (mode : Mode) {tree : Tree} (host : σ)
    (hd : ∀ node ∈ tree.nodes, node.Distinct) (hc : config.Confined) :
    (∀ name target root args,
      .applied name target root args ∈ (config.runTree mode tree host).2.journal →
        (∃ v, PointsTo root target v) ∧
        ∀ handler, config.handler? name = some handler → handler.Unrefused target args root) ∧
    ∀ path message, (config.runTree mode tree host).1 = .error (.invalidReference path message) →
      Raised config (.invalidReference path message) (config.runTree mode tree host).2 := by
  suffices h : (config.runTree mode tree host).2.InPlace ∧ ∀ path message,
      (config.runTree mode tree host).1 = .error (.invalidReference path message) →
        Raised config (.invalidReference path message) (config.runTree mode tree host).2 by
    refine ⟨fun name target root args hm => ?_, h.2⟩
    have hp := h.1 name target root args hm
    exact ⟨pointsTo_of_paved hp, fun handler hh => (hc name handler hh).unrefused hp args⟩
  rcases runTree_split config mode tree host with ⟨e, he, hrun⟩ | ⟨entries, v, queue, hr, hv, hrun⟩
  · rw [hrun]
    refine ⟨nofun, fun path message h => ?_⟩
    cases h
    cases Draft.error_of_ofTree he
  · have hd := Tree.distinct_block hr hd
    have hk := keeps_runPasses mode (s := start host v) hc
      (fun job hm => Tree.paved_of_mem_plan hd hv hm) (Tree.pairwise_plan hd hv)
    rw [hrun _ rfl]
    exact ⟨hk.inPlace nofun, fun path message h =>
      (hk.raised path message (map_eq_error_iff.1 h)).withQueue queue⟩

def intoLists : Config Unit where
  interpolate := true
  asynchronous := false
  handlers := [("f", .ofMapper (.ofHost fun v _ host => (.ok (.array [v]), host)))]

/-- The mapper is applied to a string, then to the blocks around it, each of them still in place. -/
theorem runTree_intoLists :
    let tree := Tree.block [.ofCall ⟨"f", []⟩,
      ⟨"a", .block [⟨"b", .piped (.rawString "x") [⟨"f", []⟩]⟩, .ofCall ⟨"f", []⟩]⟩]
    let after := (intoLists.runTree .blocking tree ()).2
    (∀ name target root args, .applied name target root args ∈ after.journal →
      ∃ v, PointsTo root target v) ∧
    after.applications.map (fun call => call.2.path) = ["document.a.b", "document.a", "document"] := by
  intro tree after
  have hd : ∀ node ∈ tree.nodes, node.Distinct := by
    simp [tree, Tree.nodes, Tree.entryNodes, Tree.itemNodes, Tree.callNodes, Tree.Distinct,
      Tree.entries?, Tree.keys, Tree.asCall?, Entry.ofCall]
  have hc : intoLists.Confined :=
    confined_of_handlers (List.forall_mem_singleton.2 (DirectiveHandler.confined_ofMapper _))
  exact ⟨fun name target root args hm =>
    ((runTree_references intoLists .blocking () hd hc).1 name target root args hm).1,
    by decide +kernel⟩

end Config

end ConfigDoc
