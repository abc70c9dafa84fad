import ConfigDoc.Proofs.Draft.Targets
import ConfigDoc.Proofs.Session.Agreement
import ConfigDoc.Proofs.Session.Interpolation

namespace ConfigDoc

namespace Session
open Template Value

variable {σ : Type} {config : Config σ} {tree : Tree} {document : Value} {s s' : Session σ}

theorem losslessArgs_of_mem_jobs {interpolate : Bool}
    (ha : ∀ node ∈ tree.nodes, ∀ call ∈ node.ownCalls,
      Tree.LosslessItems interpolate .argument call.args)
    {job : Job} (hm : job ∈ tree.jobs interpolate Reference.document) :
    LosslessArgs interpolate job := by
  have hcauses := Tree.causes_of_mem_jobs tree _ hm
  cases job with
  | directives target calls =>
    obtain ⟨node, hn, -, hown⟩ := hcauses
    exact fun call hc => ha node hn call (hown call hc)
  | interpolate target t => trivial
  | sweep => trivial

/-- The first pass of a compilation: all jobs that resolve templates, and the sweep. -/
def firstPass (jobs : List Job) : List Job := inPass .interpolation jobs ++ [.sweep]

theorem mem_firstPass_iff {jobs : List Job} {job : Job} :
    job ∈ firstPass jobs ↔ (job ∈ jobs ∧ job.stage = .interpolation) ∨ job = .sweep := by
  rw [firstPass, List.mem_append, List.mem_singleton, inPass, List.mem_filter]
  cases job <;> simp [Job.stage, Stage.runsIn]

theorem mem_firstPass_of_perm {jobs jobs' : List Job} (hp : (jobs.map Job.dedup).Perm jobs')
    {job : Job} (hm : job ∈ firstPass jobs) : job ∈ firstPass jobs' := by
  rw [mem_firstPass_iff] at hm ⊢
  apply hm.imp_left
  rintro ⟨hm, hs⟩
  have hsame : job.dedup = job := by
    cases job with
    | directives target calls => cases hs
    | _ => rfl
  exact ⟨hp.mem_iff.1 (List.mem_map.2 ⟨job, hm, hsame⟩), hs⟩

/-- Without interpolation there is nothing but the sweep in the first pass. -/
theorem firstPass_of_interpolate (tree : Tree) :
    firstPass (tree.jobs false Reference.document) = [.sweep] := by
  refine congrArg (· ++ [Job.sweep]) (List.filter_eq_nil_iff.2 fun job hm => ?_)
  have hcauses := Tree.causes_of_mem_jobs tree _ hm
  cases job with
  | interpolate target t => cases hcauses.2
  | directives target calls => exact Bool.false_ne_true
  | sweep => exact hcauses.elim

theorem awaits_of_mem_firstPass {interpolate : Bool}
    (hd : ∀ node ∈ tree.nodes, node.Distinct)
    (hv : tree.initial interpolate .document = .ok document) {job : Job}
    (hm : job ∈ firstPass (tree.jobs interpolate Reference.document)) : Awaits document job := by
  rcases mem_firstPass_iff.1 hm with ⟨hm, hs⟩ | rfl
  · cases job with
    | interpolate target t =>
      exact Tree.pointsTo_of_mem_jobs tree hd hv _ _ Reference.focuses_document hm
    | sweep => trivial
    | directives target calls => cases hs
  · trivial

/-- Whatever the order in which templates are resolved, it ends in the same way. -/
theorem firstPass_endsLike (mode : Mode) (hl : tree.Lossless config.interpolate .document)
    (hv : tree.initial config.interpolate .document = .ok document)
    (hr : s.root = Reference.rootOf document) (h : s.Agrees s') :
    EndsLike
      (runAll config mode (firstPass (tree.dedup.jobs config.interpolate Reference.document)) s)
      (runAll config mode (firstPass (tree.jobs config.interpolate Reference.document)) s') := by
  cases hi : config.interpolate with
  | false =>
    rw [firstPass_of_interpolate, firstPass_of_interpolate]
    exact runAll_dedup mode [.sweep] (by simp [LosslessArgs]) h
  | true =>
    rw [hi] at hl hv
    have hawaits : ∀ job ∈ firstPass (tree.dedup.jobs true Reference.document),
        Awaits document job := fun job hm =>
      awaits_of_mem_firstPass (Tree.distinct_dedup tree) (Tree.initial_dedup hl ▸ hv) hm
    have hawaits' : ∀ job ∈ firstPass (tree.jobs true Reference.document),
        Awaits document job := fun job hm =>
      hawaits job (mem_firstPass_of_perm (Tree.jobs_dedup_perm tree hl _) hm)
    have hsweep (jobs : List Job) (later : Value)
        (hdone : ∀ job ∈ firstPass jobs, Done (Reference.rootOf later) job) :
        later.hasTemplate = false :=
      (hasTemplate_rootOf later).symm.trans (hdone _ (mem_firstPass_iff.2 (.inr rfl)))
    obtain ⟨hok, herr⟩ := runAll_interpolation mode hi hawaits hr fun later _ => hsweep _ later
    obtain ⟨hok', herr'⟩ := runAll_interpolation mode hi hawaits' (h.root.symm.trans hr)
      fun later _ => hsweep _ later
    -- Which way it ends depends on the document alone, and that is the same for both.
    by_cases hready : ∀ t ∈ document.templates, Ready document t
    · obtain ⟨after, he, hh, hroot⟩ := hok hready
      obtain ⟨after', he', hh', hroot'⟩ := hok' hready
      rw [he, he']
      exact Agrees.endsLike ⟨hroot.trans hroot'.symm, hh.trans (h.host.trans hh'.symm)⟩ _
    · obtain ⟨chain, after, he, hh⟩ := herr hready
      obtain ⟨chain', after', he', hh'⟩ := herr' hready
      rw [he, he']
      exact endsLike_error rfl (hh.trans (h.host.trans hh'.symm))

theorem runPasses_endsLike (mode : Mode) {jobs jobs' : List Job}
    (hfirst : ∀ s s' : Session σ, s.root = Reference.rootOf document → s.Agrees s' →
      EndsLike (runAll config mode (firstPass jobs') s) (runAll config mode (firstPass jobs) s'))
    (hsecond : inPass .directives jobs' = (inPass .directives jobs).map Job.dedup)
    (hl : ∀ job ∈ jobs, LosslessArgs config.interpolate job)
    (hr : s.root = Reference.rootOf document) (h : s.Agrees s') :
    EndsLike (runPasses config mode (plan jobs') s) (runPasses config mode (plan jobs) s') := by
  have hl' : ∀ job ∈ inPass .directives jobs, LosslessArgs config.interpolate job :=
    fun job hm => hl job (List.mem_filter.1 hm).1
  have hone := hfirst (s.record (.pass .interpolation)) (s'.record (.pass .interpolation)) hr
    (h.record _ _)
  rw [plan, plan, hsecond]
  apply hone.andThen
  intro _ _ h₁
  apply (runAll_dedup mode _ hl' (h₁.record _ _)).andThen
  intro _ _ h₂
  apply (runAll_dedup mode [.sweep] (by simp [LosslessArgs]) (h₂.record _ _)).andThen
  intro _ _ h₃
  exact h₃.endsLike _

end Session

namespace Config
open Session

variable {σ : Type}

/-- With every key given once in its first place and with its last value, a tree stands for the
same document at first, with the same work but for its order, provided that the values that are
overwritten are accepted and have no work queued. If the calls are also applied in the same order,
the tree compiles to the same document, whatever the handlers do, or fails in the same way; only
which circle and which sort of refused argument an error names may differ. -/
theorem compileTree_dedup (config : Config σ) (mode : Mode) {tree : Tree}
    {entries : List (Entry Tree)} (host : σ) (hr : tree.entries? = some entries)
    (hl : (Tree.block entries).Lossless config.interpolate .document)
    (ha : ∀ node ∈ (Tree.block entries).nodes, ∀ call ∈ node.ownCalls,
      Tree.LosslessItems config.interpolate .argument call.args) :
    (Draft.ofTree config.interpolate tree.dedup).map Draft.root =
        (Draft.ofTree config.interpolate tree).map Draft.root ∧
      (∀ draft draft', Draft.ofTree config.interpolate tree = .ok draft →
        Draft.ofTree config.interpolate tree.dedup = .ok draft' →
          (draft.queue.waiting.map Job.dedup).Perm draft'.queue.waiting) ∧
      ((∀ draft draft', Draft.ofTree config.interpolate tree = .ok draft →
        Draft.ofTree config.interpolate tree.dedup = .ok draft' →
          Queue.due .directives draft'.queue.tasks =
            (Queue.due .directives draft.queue.tasks).map Job.dedup) →
        (config.compileTree mode tree.dedup host).1.mapError Error.coarse =
            (config.compileTree mode tree host).1.mapError Error.coarse ∧
          (config.compileTree mode tree.dedup host).2 = (config.compileTree mode tree host).2) := by
  let block := Tree.block entries
  let i := config.interpolate
  have hr' : tree.dedup.entries? =
      some (Tree.entriesOf (Table.ofList (Tree.dedupMembers entries))) := by
    cases tree with
    | block _ | map _ =>
      cases hr
      rfl
    | _ => cases hr
  have hsame : block.dedup.initial i .document = block.initial i .document := Tree.initial_dedup hl
  have hperm := Tree.jobs_dedup_perm block hl Reference.document
  have hdraft := Draft.ofTree_eq i hr
  have hdraft' : Draft.ofTree i tree.dedup = (block.dedup.initial i .document).map fun v =>
      ⟨Reference.rootOf v, (Queue.empty.addAll
        (block.dedup.jobs i Reference.document)).addPersistent .interpolation .sweep⟩ :=
    Draft.ofTree_eq i hr'
  rw [hdraft, hdraft', hsame]
  cases hv : block.initial i .document with
  | error e =>
    refine ⟨rfl, nofun, fun _ => ?_⟩
    rw [compileTree_of_error config mode host hr hv,
      compileTree_of_error config mode host hr' (hsame.trans hv)]
    exact ⟨rfl, rfl⟩
  | ok v =>
    refine ⟨rfl, ?_, fun horder => ?_⟩
    · rintro draft draft' ⟨⟩ ⟨⟩
      rw [waiting_draft, waiting_draft, List.map_append]
      exact hperm.append_right _
    · have hsecond := horder _ _ rfl rfl
      rw [due_directives, due_directives] at hsecond
      -- The first passes agree whatever their order; the second ones run the same calls in one order.
      have hends := runPasses_endsLike mode
        (fun s s' hroot h => firstPass_endsLike mode hl hv hroot h) hsecond
        (fun job hm => losslessArgs_of_mem_jobs ha hm)
        (show (start host v).root = _ from rfl) ⟨rfl, rfl⟩
      have hc := compileTree_eq config mode host hr hv
      have hc' := compileTree_eq config mode host hr' (hsame.trans hv)
      rw [show Tree.block (Tree.entriesOf (Table.ofList (Tree.dedupMembers entries))) =
        block.dedup from rfl] at hc'
      rw [hc, hc']
      rcases hends.cases with ⟨e, e', s, s', h, h', he, hh⟩ | ⟨_, s, s', h, h', hs⟩
      · rw [h, h']
        exact ⟨congrArg Except.error he, hh⟩
      · rw [h, h']
        exact ⟨congrArg Except.ok hs.document, hs.host⟩

/-- A text, a template and a pipe under the same key: only the pipe is left, in the first place. -/
theorem compileTree_dedup_pipe :
    let mapper : MapperHandler Unit := .ofHost fun v args host => (.ok (.array (v :: args)), host)
    let config : Config Unit := ⟨true, false, [("wrap", .ofMapper mapper)]⟩
    let tree : Tree := .block [⟨"a", .rawString "old"⟩, ⟨"b", .complexString "<$\x7ba\x7d>"⟩,
      ⟨"a", .piped (.rawString "new") [⟨"wrap", [.boolean true]⟩]⟩]
    (config.compileTree .blocking tree.dedup ()).1.mapError Error.coarse =
      (config.compileTree .blocking tree ()).1.mapError Error.coarse := by
  intro mapper config tree
  have hidle : Tree.Idle true .document (.rawString "old") := ⟨⟨_, rfl⟩, fun _ => rfl⟩
  have hdedup : tree.dedup = .block [⟨"a", .piped (.rawString "new") [⟨"wrap", [.boolean true]⟩]⟩,
      ⟨"b", .complexString "<$\x7ba\x7d>"⟩] := by
    simp [tree, Tree.dedup, Tree.dedupMembers, Tree.dedupCalls, Tree.dedupItems, Table.ofList,
      Table.insert, Tree.entriesOf]
  refine ((compileTree_dedup config .blocking () rfl ?_ ?_).2.2 ?_).1
  · simp [Tree.Lossless, Tree.LosslessEntries, Tree.Overwrites, Tree.asCall?, config, hidle]
  · simp [Tree.nodes, Tree.entryNodes, Tree.callNodes, Tree.itemNodes, Tree.ownCalls,
      Tree.LosslessItems, Tree.Lossless]
  · intro draft draft' h h'
    rw [hdedup] at h'
    rw [Draft.ofTree_eq _ rfl] at h h'
    obtain ⟨v, -, rfl⟩ := map_eq_ok_iff.1 h
    obtain ⟨v', -, rfl⟩ := map_eq_ok_iff.1 h'
    rw [due_directives, due_directives]
    simp only [Tree.jobs, Tree.entryJobs]
    cases Tree.isActive config.interpolate "<$\x7ba\x7d>" <;> rfl

/-- Work is done in the order in which it is written, so giving a key in its first place may change
what another call gets to see:
`{ a = false, z = false |> @const("${a}"), a = 'raw' |> @const('new') }`. -/
theorem compileTree_dedup_ne :
    let mapper : MapperHandler Unit := .ofHost fun _ args host => (.ok (args.headD .null), host)
    let config : Config Unit := ⟨true, false, [("const", .ofMapper mapper)]⟩
    let tree : Tree := .block [⟨"a", .boolean false⟩,
      ⟨"z", .piped (.boolean false) [⟨"const", [.complexString "$\x7ba\x7d"]⟩]⟩,
      ⟨"a", .piped (.rawString "raw") [⟨"const", [.rawString "new"]⟩]⟩]
    (config.compileTree .blocking tree.dedup ()).1 ≠ (config.compileTree .blocking tree ()).1 := by
  intro mapper config tree
  let z (result : Except Error Value) : String :=
    (result.toOption.bind fun v => v.member? (.key "z")).elim "" Value.text
  have hnew : z (config.compileTree .blocking tree.dedup ()).1 = "new" := by decide +kernel
  have hraw : z (config.compileTree .blocking tree ()).1 = "raw" := by decide +kernel
  intro h
  rw [h, hraw] at hnew
  exact absurd hnew (by decide)

end Config

end ConfigDoc
