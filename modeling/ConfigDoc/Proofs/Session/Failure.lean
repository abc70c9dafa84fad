import ConfigDoc.Proofs.Session.Journal
import ConfigDoc.Proofs.Template.Resolution

namespace ConfigDoc

variable {σ : Type}

namespace Session

/-- What happened last is that a handler failed with `e`: as it was applied, or in the work that it
had put off. -/
inductive Raised (config : Config σ) (e : Error) (s : Session σ) : Prop where
  | atOnce (before : List Event) (name : String) (target : Reference) (root : Value)
      (args : List Value) (handler : DirectiveHandler σ) (host : σ)
      (journal : s.journal = before ++ [.applied name target root args])
      (found : config.handler? name = some handler)
      (failed : (handler target args).run target root host = (.error e, s.root, s.host))
  | later (before : List Event) (name : String) (target : Reference) (root root' : Value)
      (args : List Value) (handler : DirectiveHandler σ) (work : Action σ Unit) (host host' : σ)
      (journal : s.journal = before ++ [.applied name target root args, .deferred name])
      (found : config.handler? name = some handler)
      (put : (handler target args).run target root host = (.ok (.pending work), root', host'))
      (failed : work.run target root' host' = (.error e, s.root, s.host))

/-- Why a job failed with `e`, seen from the session that it left. -/
inductive Blame (config : Config σ) (job : Job) (e : Error) (after : Session σ) : Prop where
  | circle (chain : List String) (h : e = .circularTemplate chain)
  | slot (v : Value) (h : job.slot.set after.root v = .error e)
  | unknown (call : Call Tree) (hm : call ∈ job.calls) (hn : config.handler? call.name = none)
      (h : e = .unknownDirective call.name)
  | argument (call : Call Tree) (hm : call ∈ job.calls)
      (h : Tree.initialItems config.interpolate .argument call.args = .error e)
  | misuse (name : String) (h : e = .asyncMisuse name)
  | raised (h : Raised config e after)

variable {config : Config σ} {mode : Mode} {e : Error} {s after : Session σ}

theorem Raised.withQueue (h : Raised config e s) (queue : Queue Job) :
    Raised config e (s.withQueue queue) := by
  cases h with
  | atOnce before name target root args handler host hj hh hf =>
    exact .atOnce before name target root args handler host hj hh hf
  | later before name target root root' args handler work host host' hj hh hp hf =>
    exact .later before name target root root' args handler work host host' hj hh hp hf

theorem Blame.withQueue {job : Job} (h : Blame config job e s) (queue : Queue Job) :
    Blame config job e (s.withQueue queue) := by
  cases h with
  | circle chain h => exact .circle chain h
  | slot v h => exact .slot v h
  | unknown call hm hn h => exact .unknown call hm hn h
  | argument call hm h => exact .argument call hm h
  | misuse name h => exact .misuse name h
  | raised h => exact .raised (h.withQueue queue)

theorem error_of_resolveIf {interpolate : Bool} {sources : List Value} {t : Template}
    (h : t.resolveIf interpolate sources = .error e) : ∃ chain, e = .circularTemplate chain := by
  cases interpolate with
  | false => cases h
  | true => exact Template.circular_of_resolveWithin h

theorem error_of_resolveAll {interpolate : Bool} {sources : List Value} {v : Value}
    (h : v.resolveAll interpolate sources = .error e) : ∃ chain, e = .circularTemplate chain := by
  obtain ⟨t, -, h⟩ := Value.resolve_error_of_mapTemplates v h
  rcases bind_eq_error_iff.1 h with h | ⟨text, -, h⟩
  · exact error_of_resolveIf h
  · cases h

/-- Handlers are looked up by the names of the calls. -/
theorem handlers_of_bound {sources : List Value} {calls : List (Call Tree)}
    {made : List (BoundCall σ)} (h : bound config sources calls = .ok made) :
    ∀ call ∈ made, config.handler? call.name = some call.handler := by
  induction calls generalizing made with
  | nil =>
    cases h
    exact nofun
  | cons call rest ih =>
    rw [bound] at h
    split at h
    · cases h
    · rename_i handler hh
      obtain ⟨vs, -, h⟩ := bind_eq_ok_iff.1 h
      obtain ⟨args, -, h⟩ := bind_eq_ok_iff.1 h
      obtain ⟨others, hr, h⟩ := bind_eq_ok_iff.1 h
      cases h
      exact List.forall_mem_cons.2 ⟨hh, ih hr⟩

theorem error_of_bound {sources : List Value} {target : Reference} {calls : List (Call Tree)}
    (h : bound config sources calls = .error e) (after : Session σ) :
    Blame config (.directives target calls) e after := by
  suffices hs : (∃ chain, e = .circularTemplate chain) ∨ ∃ call ∈ calls,
      (config.handler? call.name = none ∧ e = .unknownDirective call.name) ∨
        Tree.initialItems config.interpolate .argument call.args = .error e by
    rcases hs with ⟨chain, h⟩ | ⟨call, hm, ⟨hn, h⟩ | h⟩
    · exact .circle chain h
    · exact .unknown call hm hn h
    · exact .argument call hm h
  induction calls with
  | nil => cases h
  | cons call rest ih =>
    rw [bound] at h
    split at h
    · rename_i hn
      cases h
      exact .inr ⟨call, List.mem_cons_self, .inl ⟨hn, rfl⟩⟩
    rcases bind_eq_error_iff.1 h with h | ⟨vs, -, h⟩
    · exact .inr ⟨call, List.mem_cons_self, .inr h⟩
    rcases bind_eq_error_iff.1 h with h | ⟨args, -, h⟩
    · obtain ⟨v, -, h⟩ := error_of_mapM h
      exact .inl (error_of_resolveAll h)
    rcases bind_eq_error_iff.1 h with h | ⟨others, -, h⟩
    · rcases ih h with hchain | ⟨call', hm, hc⟩
      · exact .inl hchain
      · exact .inr ⟨call', List.mem_cons_of_mem _ hm, hc⟩
    · cases h

/-- An application fails only with its handler, or since nobody waits for the handler's work. -/
theorem error_of_apply {target : Reference} {call : BoundCall σ}
    (hh : config.handler? call.name = some call.handler)
    (h : apply mode target call s = (.error e, after)) :
    e = .asyncMisuse call.name ∨ Raised config e after := by
  unfold apply perform at h
  dsimp only at h
  rcases hr : (call.handler target call.args).run target s.root s.host with
    ⟨_ | _ | work, root, host⟩ <;> rw [show (s.record _).root = s.root from rfl,
      show (s.record _).host = s.host from rfl, hr] at h <;> dsimp only at h
  · cases h
    exact .inr (.atOnce s.journal _ target _ _ _ s.host rfl hh hr)
  · cases h
  · cases mode with
    | blocking =>
      cases h
      exact .inl rfl
    | awaiting =>
      rcases hw : work.run target root host with ⟨_, root', host'⟩
      dsimp only [record] at h
      rw [hw] at h
      cases h
      refine .inr (.later s.journal _ target _ root _ _ work s.host host ?_ hh hr hw)
      exact List.append_assoc _ _ _

theorem error_of_applyAll {target : Reference} {made : List (BoundCall σ)}
    (hh : ∀ call ∈ made, config.handler? call.name = some call.handler)
    (h : applyAll mode target made s = (.error e, after)) :
    (∃ name, e = .asyncMisuse name) ∨ Raised config e after := by
  induction made generalizing s with
  | nil => cases h
  | cons call rest ih =>
    obtain ⟨hf, hr⟩ := List.forall_mem_cons.1 hh
    rw [applyAll] at h
    split at h
    · rename_i ha
      cases h
      exact (error_of_apply hf ha).imp_left fun h => ⟨_, h⟩
    · exact ih hr h

theorem error_of_runJob {job : Job} (h : runJob config mode job s = (.error e, after)) :
    Blame config job e after := by
  cases job with
  | interpolate target template =>
    rw [runJob, interpolate] at h
    split at h
    · cases h
    · rename_i hw
      cases h
      rcases bind_eq_error_iff.1 hw with hw | ⟨text, -, hw⟩
      · obtain ⟨chain, hc⟩ := error_of_resolveIf hw
        exact .circle chain hc
      · exact .slot _ hw
  | sweep =>
    rw [runJob, sweep] at h
    dsimp only at h
    split at h
    · split at h
      · cases h
      · rename_i hw
        cases h
        rcases bind_eq_error_iff.1 hw with hw | ⟨resolved, -, hw⟩
        · obtain ⟨chain, hc⟩ := error_of_resolveAll hw
          exact .circle chain hc
        · exact .slot _ hw
    · cases h
  | directives target calls =>
    rw [runJob_directives] at h
    split at h
    · rename_i hb
      cases h
      exact error_of_bound hb _
    · rename_i hb
      rcases error_of_applyAll (handlers_of_bound hb) h with ⟨name, hn⟩ | hr
      · exact .misuse name hn
      · exact .raised hr

theorem error_of_runAll {jobs : List Job} (h : runAll config mode jobs s = (.error e, after)) :
    ∃ job ∈ jobs, Blame config job e after := by
  induction jobs generalizing s with
  | nil => cases h
  | cons job rest ih =>
    rw [runAll] at h
    split at h
    · rename_i hj
      cases h
      exact ⟨job, List.mem_cons_self, error_of_runJob hj⟩
    · obtain ⟨job', hm, hb⟩ := ih h
      exact ⟨job', List.mem_cons_of_mem _ hm, hb⟩

theorem error_of_runPasses {passes : List (Stage × List Job)}
    (h : runPasses config mode passes s = (.error e, after)) :
    ∃ pass ∈ passes, ∃ job ∈ pass.2, Blame config job e after := by
  induction passes generalizing s with
  | nil => cases h
  | cons pass rest ih =>
    rw [runPasses] at h
    split at h
    · rename_i hj
      cases h
      exact ⟨pass, List.mem_cons_self, error_of_runAll hj⟩
    · obtain ⟨pass', hm, hb⟩ := ih h
      exact ⟨pass', List.mem_cons_of_mem _ hm, hb⟩

/-- The jobs of the passes are those of the draft and the sweep. -/
theorem mem_plan {jobs : List Job} {job : Job} (h : ∃ pass ∈ plan jobs, job ∈ pass.2) :
    job ∈ jobs ∨ job = .sweep := by
  obtain ⟨pass, hp, hm⟩ := h
  simp only [plan, List.mem_cons, List.not_mem_nil, or_false] at hp
  rcases hp with rfl | rfl | rfl
  · refine (List.mem_append.1 hm).imp (fun hm => (List.mem_filter.1 hm).1) List.mem_singleton.1
  · exact .inl (List.mem_filter.1 hm).1
  · exact .inr (List.mem_singleton.1 hm)

end Session

namespace Config
open Session

/-- A compilation fails since its tree is refused, or for what one of its jobs is to blame for. -/
theorem error_of_runTree {config : Config σ} {mode : Mode} {tree : Tree} {host : σ} {e : Error}
    (h : (config.runTree mode tree host).1 = .error e) :
    Draft.ofTree config.interpolate tree = .error e ∨
    ∃ entries job, tree.entries? = some entries ∧
      (job ∈ (Tree.block entries).jobs config.interpolate .document ∨ job = .sweep) ∧
      Blame config job e (config.runTree mode tree host).2 := by
  rcases runTree_split config mode tree host with ⟨e', hd, hrun⟩ | ⟨entries, v, queue, hr, -, hrun⟩
  · rw [hrun] at h
    cases h
    exact .inl hd
  · rw [hrun _ rfl] at h ⊢
    have hp := map_eq_error_iff.1 h
    obtain ⟨pass, hm, job, hj, hb⟩ := error_of_runPasses (Prod.ext hp rfl)
    exact .inr ⟨entries, job, hr, mem_plan ⟨pass, hm, hj⟩, hb.withQueue queue⟩

end Config

end ConfigDoc
