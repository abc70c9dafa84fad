import ConfigDoc.Proofs.Draft.Verbatim
import ConfigDoc.Proofs.Session.Simulation
import ConfigDoc.Proofs.Session.Untemplated

/-! Without interpolation a double-quoted string is as good as a single-quoted one. -/

namespace ConfigDoc

variable {σ : Type}

def Event.applied? : Event → Option (String × Reference × Value × List Value)
  | .applied name target root args => some (name, target, root, args)
  | _ => none

namespace Config

def withInterpolate (config : Config σ) (interpolate : Bool) : Config σ :=
  { config with interpolate := interpolate }

theorem KeepsUntemplated.withInterpolate {config : Config σ} {inOrder : σ → Prop}
    (h : config.KeepsUntemplated inOrder) (interpolate : Bool) :
    (config.withInterpolate interpolate).KeepsUntemplated inOrder := h

end Config

namespace Session

/-- Sessions without templates that have applied the same handlers to the same. -/
structure SameUntemplated (inOrder : σ → Prop) (s s' : Session σ) : Prop where
  same : SameView Event.applied? s s'
  left : s.Untemplated inOrder
  right : s'.Untemplated inOrder

def SameJob (job job' : Job) : Prop :=
  job' = job.verbatim ∧ ∀ target t, job ≠ .interpolate target t

variable {config : Config σ} {mode : Mode} {inOrder : σ → Prop} {s s' : Session σ}

theorem SameUntemplated.record (h : SameUntemplated inOrder s s') {event event' : Event}
    (hv : event.applied? = event'.applied?) (he : event.Untemplated) (he' : event'.Untemplated) :
    SameUntemplated inOrder (s.record event) (s'.record event') :=
  ⟨h.same.record hv, h.left.record he, h.right.record he'⟩

/-- The calls of a verbatim tree are bound to what those of the tree are without interpolation. -/
theorem bound_verbatim (config : Config σ) (sources : List Value) (calls : List (Call Tree)) :
    bound (config.withInterpolate true) sources (Tree.verbatimCalls calls) =
      bound (config.withInterpolate false) sources calls := by
  induction calls with
  | nil => rfl
  | cons call rest ih =>
    obtain ⟨name, args⟩ := call
    rw [Tree.verbatimCalls, bound, bound, ih, Tree.initialItems_verbatim]
    dsimp only [Config.withInterpolate, Config.handler?]
    cases config.handlers.find? name with
    | none => rfl
    | some handler =>
      cases hv : Tree.initialItems false .argument args with
      | error e => rfl
      | ok vs =>
        have ht := Tree.anyTemplate_initialItems_false hv
        dsimp only [bind, Except.bind]
        rw [resolveAll_of_anyTemplate true sources ht, resolveAll_of_anyTemplate false sources ht]

theorem applyAll_sameUntemplated {target : Reference} {calls : List (BoundCall σ)}
    (hh : ∀ call ∈ calls, call.handler.KeepsUntemplated inOrder)
    (ha : ∀ call ∈ calls, Value.anyTemplate call.args = false)
    (h : SameUntemplated inOrder s s') :
    Simulates (SameUntemplated inOrder) (applyAll mode target calls s)
      (applyAll mode target calls s') := by
  induction calls generalizing s s' with
  | nil => exact ⟨rfl, h⟩
  | cons call rest ih =>
    obtain ⟨hcall, hrest⟩ := List.forall_mem_cons.1 hh
    obtain ⟨hargs, hothers⟩ := List.forall_mem_cons.1 ha
    have happly := h.same.apply mode target call
    have hone : Simulates (SameUntemplated inOrder) (apply mode target call s)
        (apply mode target call s') :=
      ⟨happly.result, happly.session, untemplated_apply mode hcall hargs h.left,
        untemplated_apply mode hcall hargs h.right⟩
    apply hone.andThen
    intro after after' hafter
    exact ih hrest hothers hafter

/-- A job does without interpolation what its verbatim counterpart does in any case. -/
theorem runJob_verbatim (hc : config.KeepsUntemplated inOrder) {job : Job}
    (hj : ∀ target t, job ≠ .interpolate target t) (h : SameUntemplated inOrder s s') :
    Simulates (SameUntemplated inOrder) (runJob (config.withInterpolate false) mode job s)
      (runJob (config.withInterpolate true) mode job.verbatim s') := by
  cases job with
  | interpolate target t => exact absurd rfl (hj target t)
  | sweep =>
    have hr : SameUntemplated inOrder (s.record (.job .sweep)) (s'.record (.job .sweep)) :=
      h.record rfl trivial trivial
    rw [Job.verbatim, runJob, runJob, sweep_of_untemplated _ hr.left, sweep_of_untemplated _ hr.right]
    exact ⟨rfl, hr⟩
  | directives target calls =>
    have hr : SameUntemplated inOrder (s.record (.job (.directives target calls)))
        (s'.record (.job (.directives target (Tree.verbatimCalls calls)))) :=
      h.record rfl trivial trivial
    rw [Job.verbatim, runJob_directives, runJob_directives, bound_verbatim, h.same.sources]
    cases hb : bound (config.withInterpolate false) s'.sources calls with
    | error e => exact ⟨rfl, hr⟩
    | ok made =>
      have hh : ∀ call ∈ made, call.handler.KeepsUntemplated inOrder := fun call hm =>
        hc _ _ (handlers_of_bound hb call hm)
      exact applyAll_sameUntemplated hh (anyTemplate_of_bound hb) hr

theorem inStep_verbatim (hc : config.KeepsUntemplated inOrder) :
    InStep (config.withInterpolate false) (config.withInterpolate true) mode mode
      (SameUntemplated inOrder) SameJob where
  root h := h.same.root
  pass h _ := h.record rfl trivial trivial
  queue h _ _ := ⟨⟨h.same.root, h.same.host, h.same.seen⟩, ⟨h.left.state, h.left.journal⟩,
    ⟨h.right.state, h.right.journal⟩⟩
  sweep := ⟨rfl, nofun⟩
  stage := by
    rintro job _ ⟨rfl, -⟩
    cases job <;> rfl
  runJob := by
    rintro job _ s s' ⟨rfl, hj⟩ h
    exact runJob_verbatim hc hj h

end Session

namespace Config
open Session

variable {config : Config σ} {mode : Mode} {inOrder : σ → Prop}

theorem untemplated_start {v : Value} (hv : v.hasTemplate = false) {host : σ} (hh : inOrder host) :
    (start host v).Untemplated inOrder :=
  ⟨⟨(hasTemplate_rootOf v).trans hv, hh⟩, nofun⟩

theorem forall₂_sameJob (tree : Tree) (target : Reference) :
    List.Forall₂ SameJob (tree.jobs false target) (tree.verbatim.jobs true target) := by
  rw [Tree.jobs_verbatim, List.forall₂_map_right_iff, List.forall₂_same]
  intro job hm
  refine ⟨rfl, fun slot t he => ?_⟩
  exact Tree.interpolate_not_mem_jobs_false tree target slot t (he ▸ hm)

theorem kind_verbatim {tree : Tree} (h : ∀ source, tree ≠ .complexString source) :
    tree.verbatim.kind = tree.kind := by
  cases tree with
  | complexString s => exact absurd rfl (h s)
  | _ => rfl

/-- A tree without entries is refused by its kind. -/
theorem runTree_of_no_entries {tree : Tree} (host : σ) (h : tree.entries? = none) :
    config.runTree mode tree host =
      (.error (.invalidNode tree.kind), ⟨Reference.emptyRoot, Queue.empty, host, []⟩) := by
  apply runTree_of_error
  rw [Draft.ofTree, h]

/-- A tree with entries is refused for the same reason, or both runs stay in step. -/
theorem runTree_verbatim_of_entries (hc : config.KeepsUntemplated inOrder) (mode : Mode)
    {tree : Tree} {entries : List (Entry Tree)} (h : tree.entries? = some entries) {host : σ}
    (hh : inOrder host) :
    ((config.withInterpolate false).runTree mode tree host).1 =
        ((config.withInterpolate true).runTree mode tree.verbatim host).1 ∧
      SameUntemplated inOrder ((config.withInterpolate false).runTree mode tree host).2
        ((config.withInterpolate true).runTree mode tree.verbatim host).2 := by
  have h' : tree.verbatim.entries? = some (Tree.verbatimEntries entries) := by
    rw [Tree.entries?_verbatim, h]
    rfl
  have hi : (Tree.block (Tree.verbatimEntries entries)).initial true .document =
      (Tree.block entries).initial false .document := Tree.initial_verbatim (.block entries)
  cases hv : (Tree.block entries).initial false .document with
  | error e =>
    rw [hv] at hi
    have hd : Draft.ofTree false tree = .error e := by
      rw [Draft.ofTree_eq _ h, hv]
      rfl
    have hd' : Draft.ofTree true tree.verbatim = .error e := by
      rw [Draft.ofTree_eq _ h', hi]
      rfl
    rw [runTree_of_error (config.withInterpolate false) mode host hd,
      runTree_of_error (config.withInterpolate true) mode host hd']
    exact ⟨rfl, ⟨rfl, rfl, rfl⟩, ⟨⟨rfl, hh⟩, nofun⟩, ⟨⟨rfl, hh⟩, nofun⟩⟩
  | ok v =>
    have hs := untemplated_start (Tree.hasTemplate_initial_false hv) hh
    exact runTree_inStep (inStep_verbatim hc) h h' hv (hi.trans hv)
      (forall₂_sameJob (.block entries) .document) ⟨⟨rfl, rfl, rfl⟩, hs, hs⟩

/-- The finished document is the one in the tree that is left. -/
theorem document_of_runTree {tree : Tree} {host : σ} {document : Value}
    (h : (config.runTree mode tree host).1 = .ok document) :
    document = (config.runTree mode tree host).2.document := by
  rcases runTree_split config mode tree host with ⟨e, -, hrun⟩ | ⟨_, _, queue, -, -, hrun⟩
  · rw [hrun] at h
    cases h
  · rw [hrun _ rfl] at h ⊢
    obtain ⟨_, -, rfl⟩ := map_eq_ok_iff.1 h
    rfl

theorem hasTemplate_document {s : Session σ} (h : s.root.hasTemplate = false) :
    s.document.hasTemplate = false := by
  rw [Session.document, Reference.get?_eq_lookup?]
  cases hl : s.root.lookup? Reference.document.location with
  | none => rfl
  | some v => exact Value.hasTemplate_of_lookup? hl h

theorem uncircular_runTree (hi : config.interpolate = false) (hc : config.KeepsUntemplated inOrder)
    (tree : Tree) {host : σ} (hh : inOrder host) {chain : List String}
    (h : (config.runTree mode tree host).1 = .error (.circularTemplate chain)) :
    Raised config (.circularTemplate chain) (config.runTree mode tree host).2 := by
  rcases runTree_split config mode tree host with ⟨e, hd, hrun⟩ | ⟨entries, v, queue, -, hv, hrun⟩
  · rw [hrun] at h
    cases h
    cases Draft.error_of_ofTree hd
  · rw [hrun _ rfl] at h ⊢
    rw [hi] at hv h ⊢
    have hj : ∀ pass ∈ plan ((Tree.block entries).jobs false .document), ∀ job ∈ pass.2,
        ∀ target t, job ≠ .interpolate target t := by
      rintro pass hp job hm target t rfl
      rcases mem_plan ⟨pass, hp, hm⟩ with hm | hm
      · exact Tree.interpolate_not_mem_jobs_false _ _ target t hm
      · cases hm
    have hs := untemplated_start (Tree.hasTemplate_initial_false hv) hh
    apply Raised.withQueue
    apply (uncircular_runPasses hi hc hj hs).raised chain
    exact map_eq_error_iff.1 h

/-- Switching templates off has the effect of single quotes, wherever handlers never write a template:
the same handlers are applied to the same nodes of the same trees with the same arguments, no template
is ever to be replaced, and the result is the same. Only where a whole configuration is a string, its
refusal names the quotes; no handler has been applied then. No circle is complained about but by a
handler. -/
theorem runTree_verbatim (config : Config σ) (hc : config.KeepsUntemplated inOrder) (mode : Mode)
    (tree : Tree) {host : σ} (hh : inOrder host) :
    let off := (config.withInterpolate false).runTree mode tree host
    let plain := (config.withInterpolate true).runTree mode tree.verbatim host
    ((∀ source, tree ≠ .complexString source) → off.1 = plain.1) ∧
    (∀ source, tree = .complexString source → off.1 = .error (.invalidNode .complexString) ∧
      plain.1 = .error (.invalidNode .rawString) ∧ off.2.journal = [] ∧ plain.2.journal = []) ∧
    SameUntemplated inOrder off.2 plain.2 ∧
    (∀ document, off.1 = .ok document → document.hasTemplate = false) ∧
    ∀ chain, off.1 = .error (.circularTemplate chain) →
      Raised (config.withInterpolate false) (.circularTemplate chain) off.2 := by
  intro off plain
  have hcircle : ∀ chain, off.1 = .error (.circularTemplate chain) →
      Raised (config.withInterpolate false) (.circularTemplate chain) off.2 := fun chain h =>
    uncircular_runTree rfl (hc.withInterpolate false) tree hh h
  suffices hs : ((∀ source, tree ≠ .complexString source) → off.1 = plain.1) ∧
      (∀ source, tree = .complexString source → off.1 = .error (.invalidNode .complexString) ∧
        plain.1 = .error (.invalidNode .rawString) ∧ off.2.journal = [] ∧ plain.2.journal = []) ∧
      SameUntemplated inOrder off.2 plain.2 by
    refine ⟨hs.1, hs.2.1, hs.2.2, fun document h => ?_, hcircle⟩
    rw [document_of_runTree h]
    exact hasTemplate_document hs.2.2.left.state.root
  cases hr : tree.entries? with
  | none =>
    have hr' : tree.verbatim.entries? = none := by
      rw [Tree.entries?_verbatim, hr]
      rfl
    -- Both are refused before anything is written, each by its own kind.
    have hoff : off = _ := runTree_of_no_entries host hr
    have hplain : plain = _ := runTree_of_no_entries host hr'
    rw [hoff, hplain]
    refine ⟨fun hne => ?_, ?_, ⟨rfl, rfl, rfl⟩, ⟨⟨rfl, hh⟩, nofun⟩, ⟨⟨rfl, hh⟩, nofun⟩⟩
    · rw [kind_verbatim hne]
    · rintro source rfl
      exact ⟨rfl, rfl, rfl, rfl⟩
  | some entries =>
    obtain ⟨hresult, hs⟩ := runTree_verbatim_of_entries hc mode hr hh
    refine ⟨fun _ => hresult, ?_, hs⟩
    rintro source rfl
    cases hr

def listing : Config Unit where
  interpolate := true
  asynchronous := false
  handlers := [("list", .ofMapper (.ofHost fun v args host => (.ok (.array (v :: args)), host)))]

theorem keepsUntemplated_listing : listing.KeepsUntemplated fun _ => True := by
  refine keepsUntemplated_of_handlers (List.forall_mem_singleton.2 ?_)
  apply DirectiveHandler.keepsUntemplated_ofMapper
  intro v args host hv ha _
  refine ⟨trivial, fun w hw => ?_⟩
  cases hw
  exact Bool.or_eq_false_iff.2 ⟨hv, ha⟩

/-- Tokens stay as they are written, also in an argument. -/
theorem runTree_listing :
    let tree := Tree.block [⟨"a", .piped (.complexString "$\x7bb\x7d")
      [⟨"list", [.complexString "<$\x7ba\x7d>"]⟩]⟩, ⟨"b", .rawString "x"⟩]
    let off := (listing.withInterpolate false).runTree .blocking tree ()
    off.1 = ((listing.withInterpolate true).runTree .blocking tree.verbatim ()).1 ∧
    off.1.map Value.text =
      .ok "\x7b\"a\":[\"$\x7bb\x7d\",\"<$\x7ba\x7d>\"],\"b\":\"x\"\x7d" := by
  intro tree off
  exact ⟨(runTree_verbatim listing keepsUntemplated_listing .blocking tree trivial).1 nofun,
    by decide +kernel⟩

/-- A directive that fails as if it had met a circle. -/
def failing : Config Unit :=
  ⟨true, false, [("fail", fun _ _ => .fail (.circularTemplate ["a"]))]⟩

/-- A configuration that is a string tells its quotes, and a handler may complain about a circle. -/
theorem runTree_failing :
    let root := Tree.complexString "x"
    let tree := Tree.block [⟨"a", .piped (.rawString "x") [⟨"fail", []⟩]⟩]
    failing.KeepsUntemplated (fun _ => True) ∧
    ((failing.withInterpolate false).runTree .blocking root ()).1 ≠
      ((failing.withInterpolate true).runTree .blocking root.verbatim ()).1 ∧
    ((failing.withInterpolate false).runTree .blocking tree ()).1 =
      .error (.circularTemplate ["a"]) := by
  intro root tree
  refine ⟨?_, ?_, ?_⟩
  · refine keepsUntemplated_of_handlers (List.forall_mem_singleton.2 ?_)
    exact ⟨fun _ _ _ _ _ h => h, fun _ _ _ _ _ _ _ hr => nomatch hr⟩
  · intro h
    cases h
  · exact map_eq_error_iff.1 (by decide +kernel : Except.map Value.text _ = _)

end Config

end ConfigDoc
