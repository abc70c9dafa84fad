import ConfigDoc.Proofs.Deferral
import ConfigDoc.Proofs.Session.Journal
import ConfigDoc.Proofs.Session.Simulation

/-! A compilation that waits does not notice whether handlers put their work off. -/

namespace ConfigDoc

variable {σ : Type}

def Event.undeferred? : Event → Option Event
  | .deferred _ => none
  | event => some event

namespace Session

/-- Sessions that differ at most in whether work has been put off. -/
abbrev SameProceedings := @SameView σ Event Event.undeferred?

structure SameCall (call call' : BoundCall σ) : Prop where
  name : call.name = call'.name
  args : call.args = call'.args
  handler : call.handler.SameWork call'.handler

variable {config config' : Config σ} {s s' : Session σ}

/-- An application that is waited for does all of the handler's work on the tree that is on record,
with the host as it is then, and nothing comes in between. -/
theorem apply_awaiting (target : Reference) (call : BoundCall σ) (s : Session σ) :
    Simulates SameProceedings (apply .awaiting target call s)
      ((s.record (.applied call.name target s.root call.args)).perform target
        (call.handler.awaited target call.args)) := by
  unfold apply perform
  dsimp only
  rw [DirectiveHandler.awaited, Action.run_bind]
  rcases (call.handler target call.args).run target _ _ with ⟨_ | _ | later, root, host⟩
  · exact ⟨rfl, rfl, rfl, rfl⟩
  · exact ⟨rfl, rfl, rfl, rfl⟩
  -- Only the note that work has been put off is in the one journal and not in the other.
  · refine ⟨rfl, rfl, rfl, ?_⟩
    exact (seen_record _ _).trans (List.append_nil _)

theorem apply_sameProceedings (target : Reference) {call call' : BoundCall σ}
    (hc : SameCall call call') (h : SameProceedings s s') :
    Simulates SameProceedings (apply .awaiting target call s) (apply .awaiting target call' s') := by
  obtain ⟨name, handler, args⟩ := call
  obtain ⟨name', handler', args'⟩ := call'
  obtain ⟨rfl, rfl, hw⟩ := hc
  obtain ⟨hresult, hs⟩ := (h.applied name target args).perform target _ _ (hw target args)
  have ha := apply_awaiting target ⟨name, handler, args⟩ s
  have ha' := apply_awaiting target ⟨name, handler', args⟩ s'
  constructor
  · exact ha.result.trans (hresult.trans ha'.result.symm)
  · exact ha.session.trans (hs.trans ha'.session.symm)

theorem applyAll_sameProceedings (target : Reference) {calls calls' : List (BoundCall σ)}
    (hc : List.Forall₂ SameCall calls calls') (h : SameProceedings s s') :
    Simulates SameProceedings (applyAll .awaiting target calls s)
      (applyAll .awaiting target calls' s') := by
  induction hc generalizing s s' with
  | nil => exact ⟨rfl, h⟩
  | cons hc _ ih =>
    apply (apply_sameProceedings target hc h).andThen
    intro after after' ha
    exact ih ha

/-- Calls are bound to the same arguments, or refused for the same reason. -/
theorem bound_sameWork (hc : config.SameWork config') (sources : List Value)
    (calls : List (Call Tree)) :
    SameOutcome (List.Forall₂ SameCall) (bound config sources calls)
      (bound config' sources calls) := by
  induction calls with
  | nil => exact .ok .nil
  | cons call rest ih =>
    have hh := hc.handlers.find? call.name
    rw [bound, bound, Config.handler?, Config.handler?, hc.interpolate]
    revert hh
    generalize config.handlers.find? call.name = found, config'.handlers.find? call.name = found'
    intro hh
    cases hh with
    | none => exact .error _
    | some hw =>
      apply (sameOutcome_self _).bind
      rintro vs _ rfl
      apply (sameOutcome_self _).bind
      rintro args _ rfl
      apply ih.bind
      intro others others' ho
      exact .ok (.cons ⟨rfl, rfl, hw⟩ ho)

theorem interpolate_sameProceedings (hc : config.SameWork config') (target : Reference)
    (template : Template) (h : SameProceedings s s') :
    Simulates SameProceedings (interpolate config target template s)
      (interpolate config' target template s') := by
  unfold interpolate
  rw [hc.interpolate, h.sources, h.root]
  dsimp only
  split
  · exact ⟨rfl, rfl, h.host, h.seen⟩
  · exact ⟨rfl, h⟩

theorem sweep_sameProceedings (hc : config.SameWork config') (h : SameProceedings s s') :
    Simulates SameProceedings (sweep config s) (sweep config' s') := by
  unfold sweep
  rw [hc.interpolate, h.sources, h.root]
  dsimp only
  split
  · split
    · exact ⟨rfl, rfl, h.host, h.seen⟩
    · exact ⟨rfl, h⟩
  · exact ⟨rfl, h⟩

theorem runJob_sameProceedings (hc : config.SameWork config') (job : Job)
    (h : SameProceedings s s') :
    Simulates SameProceedings (runJob config .awaiting job s) (runJob config' .awaiting job s') := by
  have hr : SameProceedings (s.record (.job job)) (s'.record (.job job)) := h.record rfl
  cases job with
  | interpolate target template => exact interpolate_sameProceedings hc target template hr
  | sweep => exact sweep_sameProceedings hc hr
  | directives target calls =>
    rw [runJob_directives, runJob_directives, ← h.sources]
    rcases (bound_sameWork hc s.sources calls).cases with ⟨made, made', hm, hm', hcalls⟩ | ⟨e, he, he'⟩
    · rw [hm, hm']
      exact applyAll_sameProceedings target hcalls hr
    · rw [he, he']
      exact ⟨rfl, hr⟩

/-- A compilation that waits goes through the same jobs, whenever its handlers do their work. -/
theorem inStep_of_sameWork (hc : config.SameWork config') :
    InStep config config' .awaiting .awaiting SameProceedings (· = ·) where
  root h := h.root
  pass h _ := h.record rfl
  queue h _ _ := ⟨h.root, h.host, h.seen⟩
  sweep := rfl
  stage := by
    rintro job _ rfl
    rfl
  runJob := by
    rintro job _ s s' rfl h
    exact runJob_sameProceedings hc job h

end Session

namespace Config
open Session

theorem runTree_sameWork {config config' : Config σ} (hc : config.SameWork config') (tree : Tree)
    (host : σ) :
    (config.runTree .awaiting tree host).1 = (config'.runTree .awaiting tree host).1 ∧
      SameProceedings (config.runTree .awaiting tree host).2
        (config'.runTree .awaiting tree host).2 := by
  rcases runTree_split config .awaiting tree host with ⟨e, hd, hrun⟩ | ⟨entries, v, -, he, hv, -⟩
  · have hd' := hd
    rw [hc.interpolate] at hd'
    rw [hrun, runTree_of_error config' .awaiting host hd']
    exact ⟨rfl, rfl, rfl, rfl⟩
  · have hv' := hv
    have hq : List.Forall₂ (· = ·) ((Tree.block entries).jobs config.interpolate .document)
        ((Tree.block entries).jobs config'.interpolate .document) := by
      rw [hc.interpolate]
      exact List.forall₂_refl _
    rw [hc.interpolate] at hv'
    exact runTree_inStep (inStep_of_sameWork hc) he he hv hv' hq ⟨rfl, rfl, rfl⟩

/-- Handlers may put off what they do: a compilation that waits gives the same document or the same
error, leaves the host in the same state, and applies the same handlers to the same nodes of the same
trees with the same arguments, in the same order. At each application all the work of the handler is
done on the tree that is on record, also what it puts off, and nothing comes in between. -/
theorem compileTree_deferral {registered registered' : List (Plugin σ)} {options options' : Options σ}
    (hr : List.Forall₂ Plugin.Deferral registered registered') (ho : options.Deferral options')
    (tree : Tree) (host : σ) :
    ConfigDoc.compileTree registered options .awaiting tree host =
      ConfigDoc.compileTree registered' options' .awaiting tree host ∧
    (∀ config, prepare registered options = .ok config →
      ∃ config', prepare registered' options' = .ok config' ∧
        (config.runTree .awaiting tree host).1 = (config'.runTree .awaiting tree host).1 ∧
        SameProceedings (config.runTree .awaiting tree host).2
          (config'.runTree .awaiting tree host).2) ∧
    ∀ target (call : BoundCall σ) s, Simulates SameProceedings (apply .awaiting target call s)
      ((s.record (.applied call.name target s.root call.args)).perform target
        (call.handler.awaited target call.args)) := by
  have hp := prepare_sameWork hr ho
  refine ⟨?_, ?_, apply_awaiting⟩
  · rw [ConfigDoc.compileTree, ConfigDoc.compileTree]
    rcases hp.cases with ⟨config, config', hc, hc', hw⟩ | ⟨e, he, he'⟩
    · obtain ⟨hresult, hs⟩ := runTree_sameWork hw tree host
      rw [hc, hc']
      exact Prod.ext hresult hs.host
    · rw [he, he']
  · intro config hok
    rcases hp.cases with ⟨_, config', hc, hc', hw⟩ | ⟨e, he, -⟩
    · cases hok.symm.trans hc
      exact ⟨config', hc', runTree_sameWork hw tree host⟩
    · cases hok.symm.trans he

def enlist (_ : Reference) (_ : List Value) : Action (List String) Unit :=
  .look fun root => .getHost fun seen => .setHost (seen ++ [root.text]) <|
    .update fun v => .array [v]

def double (v : Value) (_ : List Value) : Host (List String) Value := fun seen =>
  (.ok (.array [v, v]), seen ++ [v.text])

/-- Options with a directive and a mapper, and the same with both put off. -/
def prompt : Options (List String) :=
  ⟨true, true, ⟨[("enlist", .ofAction enlist)], [("double", .ofHost double)]⟩, .disabled⟩

def late : Options (List String) :=
  ⟨true, true, ⟨[("enlist", .deferred enlist)], [("double", .deferred double)]⟩, .disabled⟩

/-- The mapper sees what the directive before it has made. -/
theorem compileTree_late :
    let tree := Tree.block [⟨"a", .piped (.rawString "x") [⟨"enlist", []⟩, ⟨"double", []⟩]⟩]
    ConfigDoc.compileTree [] prompt .awaiting tree [] =
      ConfigDoc.compileTree [] late .awaiting tree [] ∧
    (ConfigDoc.compileTree [] late .awaiting tree []).1.map Value.text =
      .ok "\x7b\"a\":[[\"x\"],[\"x\"]]\x7d" ∧
    (ConfigDoc.compileTree [] late .awaiting tree []).2 =
      ["\x7b\"document\":\x7b\"a\":\"x\"\x7d\x7d", "x"] := by
  intro tree
  have ho : prompt.Deferral late :=
    ⟨rfl, rfl, ⟨.cons ⟨rfl, .putOff enlist⟩ .nil, .cons ⟨rfl, .putOff double⟩ .nil⟩, .disabled⟩
  exact ⟨(compileTree_deferral .nil ho tree []).1, by decide +kernel, by decide +kernel⟩

end Config

end ConfigDoc
