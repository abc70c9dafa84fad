import ConfigDoc.Proofs.Draft.Targets
import ConfigDoc.Proofs.Session.Journal

/-! No template survives a drain of templates: handlers start from a tree without any, and no
finished document has one. -/

namespace ConfigDoc

variable {σ : Type}

def Event.sight? : Event → Option Value
  | .applied _ _ root _ => some root
  | _ => none

/-- Jobs that put texts in the place of templates, all within the document. -/
def Job.Resolves : Job → Prop
  | .interpolate target _ => Reference.document.location <+: target.location
  | .directives _ _ => False
  | .sweep => True

namespace Session
open Reference

variable {config : Config σ} {mode : Mode} {s after : Session σ}

theorem templates_of_resolveAll {interpolate : Bool} {sources : List Value} {v w : Value}
    (h : v.resolveAll interpolate sources = .ok w) : w.templates = [] := by
  refine Value.templates_of_mapTemplates (fun t u hu => ?_) v h
  obtain ⟨text, -, hu⟩ := bind_eq_ok_iff.1 hu
  cases hu
  rfl

/-- A sweep that succeeds leaves no template in the document, whatever handlers have put there. -/
theorem document_of_sweep (h : sweep config s = (.ok (), after)) :
    after.document.templates = [] := by
  rw [sweep] at h
  dsimp only at h
  split at h
  · split at h
    · rename_i hw
      cases h
      obtain ⟨resolved, hr, hw⟩ := bind_eq_ok_iff.1 hw
      rw [Session.document, get?_of_set hw]
      exact templates_of_resolveAll hr
    · cases h
  · rename_i ht
    cases h
    rw [value] at ht
    rw [Session.document]
    cases hd : Reference.document.get? s.root with
    | none => rfl
    | some v =>
      rw [hd] at ht
      exact (Value.hasTemplate_eq_false_iff v).1 (Bool.eq_false_iff.2 ht)

theorem document_of_runAll {jobs : List Job}
    (h : runAll config mode (jobs ++ [.sweep]) s = (.ok (), after)) :
    after.document.templates = [] := by
  rw [runAll_append] at h
  split at h
  · cases h
  · rw [runAll] at h
    split at h
    · cases h
    · rename_i hs
      cases h
      exact document_of_sweep hs

/-- The sweep waits behind all other tasks, and goes on waiting when it has run. -/
def SweepsLast (s : Session σ) : Prop :=
  ∃ tasks, s.queue.live = tasks ++ [⟨.interpolation, true, some .sweep⟩]

theorem sweepsLast_ofDraft {interpolate : Bool} {tree : Tree} {draft : Draft} (host : σ)
    (h : Draft.ofTree interpolate tree = .ok draft) : (ofDraft host draft).SweepsLast := by
  cases hr : tree.entries? with
  | none =>
    rw [Draft.ofTree, hr] at h
    cases h
  | some entries =>
    rw [Draft.ofTree_eq _ hr] at h
    obtain ⟨v, -, rfl⟩ := map_eq_ok_iff.1 h
    exact ⟨_, Queue.live_addPersistent _ _ _⟩

/-- Nothing is ever queued behind the sweep. -/
theorem SweepsLast.drain (hs : s.SweepsLast) {stage : Stage}
    (h : drain config mode stage s = (.ok (), after)) : after.SweepsLast := by
  obtain ⟨tasks, ht⟩ := hs
  obtain ⟨queue, hd, hl⟩ := drain_eq config mode stage s
  have hq : after.queue = queue := congrArg (fun run => run.2.queue) (h.symm.trans hd)
  refine ⟨Queue.left stage tasks, ?_⟩
  rw [hq, hl (congrArg Prod.fst h), ht, Queue.left_append]
  rfl

theorem SweepsLast.document (hs : s.SweepsLast)
    (h : Session.drain config mode .interpolation s = (.ok (), after)) :
    after.document.templates = [] := by
  obtain ⟨tasks, ht⟩ := hs
  obtain ⟨queue, hd, -⟩ := drain_eq config mode .interpolation s
  rw [ht, Queue.due_append, show Queue.due .interpolation
    [(⟨.interpolation, true, some .sweep⟩ : Task Job)] = [.sweep] from rfl] at hd
  rw [hd] at h
  rcases hr : runAll config mode (Queue.due .interpolation tasks ++ [.sweep])
    (s.record (.pass .interpolation)) with ⟨result, mid⟩
  rw [hr] at h
  cases h
  have hm : mid.document.templates = [] := document_of_runAll hr
  exact hm

/-- Whatever has been drained before, a drain of templates leaves none. -/
theorem SweepsLast.drainAll (hs : s.SweepsLast) (stages : List Stage)
    (h : Session.drainAll config mode (stages ++ [.interpolation]) s = (.ok (), after)) :
    after.document.templates = [] := by
  induction stages generalizing s with
  | nil =>
    rw [List.nil_append, Session.drainAll] at h
    split at h
    · cases h
    · rename_i hd
      cases h
      exact hs.document hd
  | cons stage rest ih =>
    rw [List.cons_append, Session.drainAll] at h
    split at h
    · cases h
    · rename_i hd
      exact ih (hs.drain hd) h

theorem resolves_of_mem {interpolate : Bool} {tree : Tree} {job : Job}
    (h : job ∈ inPass .interpolation (tree.jobs interpolate .document)) : job.Resolves := by
  obtain ⟨hm, hs⟩ := List.mem_filter.1 h
  cases job with
  | interpolate target template => exact Tree.location_of_mem_jobs tree _ hm
  | directives target calls => cases hs
  | sweep => trivial

theorem rootOf_runJob (config : Config σ) (mode : Mode) {job : Job} (hj : job.Resolves) {v : Value}
    (h : s.root = rootOf v) : ∃ v', (runJob config mode job s).2.root = rootOf v' := by
  cases job with
  | interpolate target template =>
    rw [runJob, interpolate]
    split
    · rename_i hw
      obtain ⟨text, -, hw⟩ := bind_eq_ok_iff.1 hw
      rw [show (s.record (.job (.interpolate target template))).root = rootOf v from h] at hw
      exact rootOf_of_set hj hw
    · exact ⟨v, h⟩
  | directives target calls => cases hj
  | sweep =>
    rw [runJob, sweep_eq config (s := s.record (.job .sweep)) h]
    split
    · split
      · exact ⟨_, rfl⟩
      · exact ⟨v, h⟩
    · exact ⟨v, h⟩

theorem rootOf_runAll (config : Config σ) (mode : Mode) {jobs : List Job}
    (hj : ∀ job ∈ jobs, job.Resolves) {v : Value} (h : s.root = rootOf v) :
    ∃ v', (runAll config mode jobs s).2.root = rootOf v' := by
  induction jobs generalizing s v with
  | nil => exact ⟨v, h⟩
  | cons job rest ih =>
    obtain ⟨hf, hr⟩ := List.forall_mem_cons.1 hj
    exact andThen_keeps (P := fun after => ∃ v', after.root = rootOf v')
      (rootOf_runJob config mode hf h) fun after ⟨v', ha⟩ => ih hr ha

def firstSight (s : Session σ) : Option Value := s.journal.findSome? Event.sight?

/-- The tree that handlers have started from, or are to start from. -/
def outset (s : Session σ) : Value := s.firstSight.getD s.root

theorem firstSight_of_append {rest : List Event} (h : after.journal = s.journal ++ rest) :
    after.firstSight = s.firstSight.or (rest.findSome? Event.sight?) := by
  rw [firstSight, h, List.findSome?_append]
  rfl

/-- Without an application there is nothing to be seen. -/
theorem firstSight_of_follows {run : Except Error Unit × Session σ} (he : Extends s run)
    (hf : Follows [] s run) : run.2.firstSight = s.firstSight := by
  obtain ⟨rest, hj⟩ := he
  have hl := hf.start.length_le
  rw [← hj, List.filterMap_append, List.append_nil, List.length_append] at hl
  have hn : rest.filterMap Event.application? = [] := List.length_eq_zero_iff.1 (by omega)
  have hs : rest.findSome? Event.sight? = none := by
    refine List.findSome?_eq_none_iff.2 fun event hm => ?_
    have ha := List.filterMap_eq_nil_iff.1 hn event hm
    cases event with
    | applied name target root args => cases ha
    | _ => rfl
  rw [firstSight_of_append hj.symm, hs, Option.or_none]

theorem outset_record (event : Event) (h : event.sight? = none) (s : Session σ) :
    (s.record event).outset = s.outset := by
  have hf : (s.record event).firstSight = s.firstSight.or ([event].findSome? Event.sight?) :=
    firstSight_of_append rfl
  rw [outset, hf, List.findSome?_singleton, h, Option.or_none]
  rfl

theorem outset_apply (mode : Mode) (target : Reference) (call : BoundCall σ) (s : Session σ) :
    (apply mode target call s).2.outset = s.outset := by
  obtain ⟨rest, hj, -⟩ := journal_apply mode target call s
  rw [outset, firstSight_of_append hj, outset]
  cases s.firstSight <;> rfl

theorem outset_applyAll (mode : Mode) (target : Reference) (calls : List (BoundCall σ))
    (s : Session σ) : (applyAll mode target calls s).2.outset = s.outset := by
  induction calls generalizing s with
  | nil => rfl
  | cons call rest ih =>
    exact andThen_keeps (P := fun after => after.outset = s.outset)
      (outset_apply mode target call s) fun after ha => (ih after).trans ha

theorem outset_runAll (config : Config σ) (mode : Mode) (jobs : List Job)
    (hj : ∀ job ∈ jobs, job.stage.runsIn .directives) (s : Session σ) :
    (runAll config mode jobs s).2.outset = s.outset := by
  induction jobs generalizing s with
  | nil => rfl
  | cons job rest ih =>
    obtain ⟨hf, hr⟩ := List.forall_mem_cons.1 hj
    cases job with
    | interpolate target template => cases hf
    | sweep => cases hf
    | directives target calls =>
      have ho : (runJob config mode (.directives target calls) s).2.outset = s.outset := by
        have hrec := outset_record (.job (.directives target calls)) rfl s
        rw [runJob_directives]
        split
        · exact hrec
        · exact (outset_applyAll mode target _ _).trans hrec
      exact andThen_keeps (P := fun after => after.outset = s.outset) ho fun after ha =>
        (ih hr after).trans ha

/-- The first pass applies no handlers, and leaves no template behind. -/
theorem runAll_firstPass (config : Config σ) (mode : Mode) {jobs : List Job}
    (hj : ∀ job ∈ inPass .interpolation jobs, job.Resolves) {v : Value} (h : s.root = rootOf v) :
    (runAll config mode (inPass .interpolation jobs ++ [.sweep]) s).2.firstSight = s.firstSight ∧
      ∀ after, runAll config mode (inPass .interpolation jobs ++ [.sweep]) s = (.ok (), after) →
        after.root.templates = [] := by
  constructor
  · have hf := follows_runAll config mode (inPass .interpolation jobs ++ [.sweep]) s
    rw [List.flatMap_append, applications_interpolation] at hf
    exact firstSight_of_follows (extends_runAll config mode _ s) hf
  · intro after ha
    have hall : ∀ job ∈ inPass .interpolation jobs ++ [.sweep], job.Resolves :=
      List.forall_mem_append.2 ⟨hj, List.forall_mem_singleton.2 trivial⟩
    obtain ⟨v', hroot⟩ := rootOf_runAll config mode hall h
    have hd := document_of_runAll ha
    rw [ha] at hroot
    rw [document_of_root hroot] at hd
    rw [hroot]
    exact List.append_eq_nil_iff.2 ⟨hd, rfl⟩

/-- The second pass starts from the tree as it finds it, and the third one applies no handlers. -/
theorem eq_outset_of_laterPasses {jobs : List Job} {root : Value}
    (h : (runPasses config mode [(.directives, inPass .directives jobs), (.interpolation, [.sweep])]
      s).2.firstSight = some root) : root = s.outset := by
  have hsame : ∀ after : Session σ, after.outset = s.outset → after.firstSight = some root →
      root = s.outset := fun after ho hs => by
    rwa [outset, hs, Option.getD_some] at ho
  have hout := outset_runAll config mode (inPass .directives jobs)
    (fun job hm => (List.mem_filter.1 hm).2) (s.record (.pass .directives))
  rw [outset_record (.pass .directives) rfl] at hout
  rw [runPasses] at h
  rcases hr : runAll config mode (inPass .directives jobs) (s.record (.pass .directives)) with
    ⟨_ | _, after⟩ <;> rw [hr] at h hout
  · exact hsame after hout h
  · have hlast : (runPasses config mode [(.interpolation, [.sweep])] after).2.firstSight =
        after.firstSight := firstSight_of_follows (extends_runPasses config mode _ after)
      (follows_runPasses config mode [(.interpolation, [.sweep])] after)
    exact hsame after hout (hlast.symm.trans h)

/-- The first handler meets the tree as the first pass has left it. -/
theorem templates_of_firstSight {jobs : List Job}
    (hj : ∀ job ∈ inPass .interpolation jobs, job.Resolves) {host : σ} {v root : Value}
    (h : (runPasses config mode (plan jobs) (start host v)).2.firstSight = some root) :
    root.templates = [] := by
  obtain ⟨hnone, hclean⟩ := runAll_firstPass config mode hj
    (s := (start host v).record (.pass .interpolation)) rfl
  rw [plan, runPasses] at h
  rcases hr : runAll config mode (inPass .interpolation jobs ++ [.sweep])
    ((start host v).record (.pass .interpolation)) with ⟨_ | _, after⟩ <;> rw [hr] at h hnone
  · cases hnone.symm.trans h
  · have hroot : after.outset = after.root := by
      rw [outset, hnone]
      rfl
    rw [eq_outset_of_laterPasses h, hroot]
    exact hclean after hr

end Session

namespace Config
open Session

/-- Whatever handlers put into the tree: a drain of templates that succeeds leaves none in the
document; the first handler is applied to a tree without any; a finished document has none. -/
theorem runTree_resolved (config : Config σ) (mode : Mode) (tree : Tree) (host : σ) :
    (∀ draft stages s, Draft.ofTree config.interpolate tree = .ok draft →
      drainAll config mode (stages ++ [.interpolation]) (ofDraft host draft) = (.ok (), s) →
        s.document.templates = []) ∧
    (∀ root, (config.runTree mode tree host).2.firstSight = some root → root.templates = []) ∧
    ∀ document, (config.runTree mode tree host).1 = .ok document → document.templates = [] := by
  refine ⟨fun draft stages s hd h => (sweepsLast_ofDraft host hd).drainAll stages h, fun root h => ?_,
    fun document h => ?_⟩
  · rcases runTree_cases config mode tree host with ⟨e, hr⟩ | ⟨entries, v, -, hj, -⟩
    · rw [hr] at h
      cases h
    · rw [firstSight, hj] at h
      exact templates_of_firstSight (fun _ => resolves_of_mem) h
  · rw [runTree] at h
    split at h
    · cases h
    · rename_i draft hd
      split at h
      · cases h
      · rename_i s hs
        cases h
        exact (sweepsLast_ofDraft host hd).drainAll [.interpolation, .directives] hs

/-- A directive puts a template into its node; the third pass resolves it. -/
example : let store : DirectiveHandler Unit := DirectiveHandler.ofAction fun _ _ =>
      Action.set (.template ⟨"<$\x7ba\x7d>"⟩)
    ((Config.mk true false [("store", store)]).compileTree .blocking
      (.block [⟨"a", .rawString "x"⟩, ⟨"b", .piped (.boolean true) [⟨"store", []⟩]⟩]) ()).1.map
        Value.text = .ok "\x7b\"a\":\"x\",\"b\":\"<x>\"\x7d" := by decide +kernel

end Config

end ConfigDoc
