import ConfigDoc.Proofs.Session.Drain
import ConfigDoc.Proofs.Tree.Evaluation

/-! With mappers alone, the queued work of a compilation comes to evaluating the tree directly. -/

namespace ConfigDoc

namespace Session
open Reference ConfigDoc.Tree

variable {σ : Type} {config : Config σ} {mapper : Mapping} {mode : Mode}

/-- Running the jobs gives what a result tells: it puts the value into the hole of the document, or
fails in the same way, and in either case it leaves the host's state alone. -/
def Reaches (config : Config σ) (mode : Mode) (jobs : List Job) (s : Session σ)
    (context : Value → Value) (result : Except Error Value) : Prop :=
  ∃ after, runAll config mode jobs s = (result.map fun _ => (), after) ∧ after.host = s.host ∧
    ∀ w, result = .ok w → after.root = context w

variable {context context' : Value → Value} {s : Session σ}

theorem reaches_nil {v : Value} (h : s.root = context v) :
    Reaches config mode [] s context (.ok v) :=
  ⟨s, rfl, rfl, fun w hw => by cases hw; exact h⟩

theorem Reaches.append {jobs others : List Job} {first : Except Error Value}
    {next : Value → Except Error Value} (h : Reaches config mode jobs s context first)
    (hn : ∀ w after, first = .ok w → after.root = context w →
      Reaches config mode others after context' (next w)) :
    Reaches config mode (jobs ++ others) s context' (first >>= next) := by
  obtain ⟨after, hr, hh, hw⟩ := h
  cases first with
  | error e => exact ⟨after, by rw [runAll_append, hr]; rfl, hh, nofun⟩
  | ok w =>
    obtain ⟨last, hr', hh', hw'⟩ := hn w after rfl (hw w rfl)
    exact ⟨last, by rw [runAll_append, hr]; exact hr', hh'.trans hh, hw'⟩

theorem Reaches.of_eq {jobs : List Job} {result result' : Except Error Value}
    (h : Reaches config mode jobs s context result) (he : result = result') :
    Reaches config mode jobs s context result' := he ▸ h

variable {target : Reference}

theorem run_pureMapper (f : Value → List Value → Except Error Value) (node : Reference)
    (args : List Value) (root : Value) (host : σ) :
    (pureMapper f node args).run node root host = match f (node.value root) args with
      | .error e => (.error e, root, host)
      | .ok w => match node.set root w with
        | .error e => (.error e, root, host)
        | .ok root' => (.ok .ready, root', host) := by
  cases hf : f (node.value root) args with
  | error e =>
    simp [pureMapper, DirectiveHandler.ofMapper, MapperHandler.ofHost, Action.valueOf,
      Action.ofHost, bind, Action.andThen, Action.run, Except.map, hf]
  | ok w =>
    simp only [pureMapper, DirectiveHandler.ofMapper, MapperHandler.ofHost, Action.valueOf,
      Action.ofHost, bind, Action.andThen, Action.run, Except.map, hf, Action.set, Action.update,
      Reference.set]
    cases node.replace root (fun _ => w) <;> rfl

/-- A mapper puts its result into the hole. -/
theorem apply_pureMapper (mode : Mode) (h : target.Focuses context) {v : Value}
    (hs : s.root = context v) (name : String) (f : Value → List Value → Except Error Value)
    (args : List Value) :
    ∃ after, apply mode target ⟨name, pureMapper f, args⟩ s =
        ((f v args).map fun _ => (), after) ∧
      after.host = s.host ∧ ∀ w, f v args = .ok w → after.root = context w := by
  have hrun := run_pureMapper f target args s.root s.host
  rw [hs, h.value] at hrun
  unfold apply perform
  dsimp only [record]
  rw [hs, hrun]
  cases f v args with
  | error e => exact ⟨_, rfl, rfl, nofun⟩
  | ok w =>
    dsimp only
    rw [h.set]
    exact ⟨_, rfl, rfl, fun u hu => by cases hu; rfl⟩

theorem resolveAll_of_anyTemplate (interpolate : Bool) (sources : List Value) {vs : List Value}
    (h : Value.anyTemplate vs = false) :
    (vs.mapM fun v => v.resolveAll interpolate sources) = .ok vs := by
  induction vs with
  | nil => rfl
  | cons v rest ih =>
    obtain ⟨hv, hr⟩ := Bool.or_eq_false_iff.1 h
    rw [List.mapM_cons, Value.resolveAll, Value.mapTemplates_of_hasTemplate _ v hv, ih hr]
    rfl

structure Binds (mapper : Mapping) (call : Call Tree) (made : BoundCall σ) : Prop where
  name : made.name = call.name
  handler : made.handler = pureMapper (mapper call.name)
  args : evalItems mapper call.args = .ok made.args

theorem bound_of_evaluable (sources : List Value) {calls : List (Call Tree)}
    (h : ∀ call ∈ calls, CallEvaluable config mapper call) :
    ∃ made, bound config sources calls = .ok made ∧ List.Forall₂ (Binds mapper) calls made := by
  induction calls with
  | nil => exact ⟨[], rfl, .nil⟩
  | cons call rest ih =>
    obtain ⟨hc, hr⟩ := List.forall_mem_cons.1 h
    obtain ⟨made, hm, hb⟩ := ih hr
    obtain ⟨vs, hi, he, ht⟩ := initialItems_of_plain call.args hc.plain hc.args
    refine ⟨⟨call.name, pureMapper (mapper call.name), vs⟩ :: made, ?_, .cons ⟨rfl, rfl, he⟩ hb⟩
    rw [bound, hc.registered]
    dsimp only
    rw [hi, hm]
    dsimp only [bind, Except.bind]
    rw [resolveAll_of_anyTemplate _ sources ht]
    rfl

theorem applyAll_of_binds (mode : Mode) (h : target.Focuses context) {calls : List (Call Tree)}
    {made : List (BoundCall σ)} (hb : List.Forall₂ (Binds mapper) calls made) {v : Value}
    (hs : s.root = context v) :
    ∃ after, applyAll mode target made s = ((evalChain mapper calls v).map fun _ => (), after) ∧
      after.host = s.host ∧ ∀ w, evalChain mapper calls v = .ok w → after.root = context w := by
  induction hb generalizing s v with
  | nil => exact ⟨s, rfl, rfl, fun w hw => by cases hw; exact hs⟩
  | @cons call bound calls made hc hb ih =>
    obtain ⟨name, handler, args⟩ := bound
    obtain ⟨rfl, rfl, hargs⟩ := hc
    obtain ⟨after, ha, hh, hw⟩ := apply_pureMapper mode h hs call.name (mapper call.name) args
    rw [applyAll, ha, evalChain, hargs]
    dsimp only [bind, Except.bind]
    cases hf : mapper call.name v args with
    | error e => exact ⟨after, rfl, hh, fun w hw => by cases hw⟩
    | ok w =>
      obtain ⟨last, hr, hh', hw'⟩ := ih (hw w hf)
      exact ⟨last, hr, hh'.trans hh, hw'⟩

theorem reaches_directives (h : target.Focuses context) {calls : List (Call Tree)}
    (hc : ∀ call ∈ calls, CallEvaluable config mapper call) {v : Value} (hs : s.root = context v) :
    Reaches config mode [.directives target calls] s context (evalChain mapper calls v) := by
  obtain ⟨made, hm, hb⟩ := bound_of_evaluable s.sources hc
  obtain ⟨after, ha, hh, hw⟩ := applyAll_of_binds mode h hb
    (s := s.record (.job (.directives target calls))) hs
  refine ⟨after, ?_, hh, hw⟩
  rw [runAll, runJob_directives, hm]
  dsimp only
  rw [ha]
  cases evalChain mapper calls v <;> rfl

theorem reaches_chain (h : target.Focuses context) {calls : List (Call Tree)}
    (hc : ∀ call ∈ calls, CallEvaluable config mapper call) {v : Value} (hs : s.root = context v) :
    Reaches config mode (chainJobs target calls) s context (evalChain mapper calls v) := by
  cases calls with
  | nil => exact reaches_nil hs
  | cons call rest => exact reaches_directives h hc hs

/-- The calls of a block are jobs of their own, one after the other. -/
theorem reaches_blockCalls (h : target.Focuses context) {calls : List (Call Tree)}
    (hc : ∀ call ∈ calls, CallEvaluable config mapper call) {v : Value} (hs : s.root = context v) :
    Reaches config mode (calls.map fun call => .directives target [call]) s context
      (evalChain mapper calls v) := by
  induction calls generalizing s v with
  | nil => exact reaches_nil hs
  | cons call rest ih =>
    obtain ⟨hc₁, hr⟩ := List.forall_mem_cons.1 hc
    have hone : Reaches config mode [.directives target [call]] s context
        (evalChain mapper [call] v) := reaches_directives h (by simpa using hc₁) hs
    refine (hone.append fun w after _ hw => ih hr hw).of_eq ?_
    simp only [evalChain, bind_assoc]
    rfl

mutual

/-- The work of a tree turns its initial value, wherever it stands, into the evaluated one. -/
theorem reaches_eval (tree : Tree) (h : ∀ node ∈ tree.nodes, Evaluable config mapper node)
    {v : Value} (hv : tree.initial config.interpolate .document = .ok v) (target : Reference)
    (context : Value → Value) (hf : target.Focuses context) (s : Session σ)
    (hs : s.root = context v) :
    Reaches config mode (tree.jobs config.interpolate target) s context (tree.eval mapper) := by
  cases tree with
  | numeric x | boolean b | rawString t =>
    cases hv
    exact reaches_nil hs
  | complexString t =>
    have hi := (h _ (self_mem_nodes _)).inactive rfl
    rw [initial, hi] at hv
    cases hv
    rw [jobs, hi]
    exact reaches_nil hs
  | array items =>
    rw [initial] at hv
    obtain ⟨vs, hi, rfl⟩ := map_eq_ok_iff.1 hv
    rw [jobs, eval]
    exact reaches_evalItems items (forall_nodes_array.1 h).2 hi [] target context hf s hs
  | map entries =>
    obtain ⟨hn, h⟩ := forall_nodes_map.1 h
    obtain ⟨-, ms, hi, rfl⟩ := initial_map_eq_ok_iff.1 hv
    rw [ofList_initialMembers (hn.distinct _ rfl) hi] at hs
    rw [jobs, eval]
    exact reaches_evalMembers entries h hi [] (hn.distinct _ rfl) target context hf s hs
  | block entries =>
    obtain ⟨hn, h⟩ := forall_nodes_block.1 h
    obtain ⟨-, ms, hi, rfl⟩ := initial_block_eq_ok_iff.1 hv
    rw [ofList_initialMembers (hn.distinct _ rfl) hi] at hs
    have hmembers := reaches_evalMembers entries h hi [] (hn.distinct _ rfl) target context hf s hs
    rw [jobs, eval]
    refine (hmembers.append fun w after _ hw =>
      reaches_blockCalls hf (callEvaluable_of_entries h) hw).of_eq ?_
    cases evalMembers mapper entries with
    | error e => rfl
    | ok ms => exact (evalBlockCalls_eq entries (.object ms)).symm
  | directive call => cases hv
  | piped raw chain =>
    obtain ⟨hn, hr, ha⟩ := forall_nodes_piped.1 h
    rw [jobs, eval]
    exact (reaches_eval raw hr hv target context hf s hs).append fun w after _ hw =>
      reaches_chain hf (fun call hc => callEvaluable hn hc (ha call hc)) hw
termination_by structural tree

theorem reaches_evalItems (items : List Tree)
    (h : ∀ item ∈ items, ∀ node ∈ item.nodes, Evaluable config mapper node) {vs : List Value}
    (hi : initialItems config.interpolate .document items = .ok vs) (done : List Value)
    (target : Reference) (context : Value → Value) (hf : target.Focuses context) (s : Session σ)
    (hs : s.root = context (.array (done ++ vs))) :
    Reaches config mode (itemJobs config.interpolate items done.length target) s context
      ((evalItems mapper items).map fun ws => .array (done ++ ws)) := by
  cases items with
  | nil =>
    cases hi
    exact reaches_nil hs
  | cons item rest =>
    obtain ⟨hn, h⟩ := List.forall_mem_cons.1 h
    obtain ⟨v, vs', hv, hr, rfl⟩ := initialItems_cons_eq_ok_iff.1 hi
    have hone := reaches_eval item hn hv _ _ (hf.item done vs') s hs
    have hall : Reaches config mode (itemJobs config.interpolate (item :: rest) done.length target)
        s context (do
          let w ← eval mapper item
          (evalItems mapper rest).map fun ws => .array (done ++ [w] ++ ws)) := by
      rw [itemJobs]
      apply hone.append
      intro w after _ hw
      have hrest := reaches_evalItems rest h hr (done ++ [w]) target context hf after
        (by simpa using hw)
      rwa [List.length_append, List.length_singleton] at hrest
    refine hall.of_eq ?_
    rw [evalItems]
    cases eval mapper item with
    | error e => rfl
    | ok w => cases evalItems mapper rest <;> simp [bind, Except.bind, Except.map, pure, Except.pure]
termination_by structural items

theorem reaches_evalMembers (entries : List (Entry Tree))
    (h : ∀ entry ∈ entries, ∀ node ∈ entry.value.nodes, Evaluable config mapper node)
    {ms : Table Value} (hi : initialMembers config.interpolate .document entries = .ok ms)
    (done : Table Value) (hd : (done.names ++ keys entries).Nodup) (target : Reference)
    (context : Value → Value) (hf : target.Focuses context) (s : Session σ)
    (hs : s.root = context (.object (done ++ ms))) :
    Reaches config mode (entryJobs config.interpolate entries target) s context
      ((evalMembers mapper entries).map fun ws => .object (done ++ ws)) := by
  cases entries with
  | nil =>
    cases hi
    exact reaches_nil hs
  | cons entry rest =>
    obtain ⟨key, value⟩ := entry
    obtain ⟨hn, h⟩ := List.forall_mem_cons.1 h
    rw [keys] at hd
    by_cases hc : value.asCall?.isSome
    · rw [if_pos hc] at hd
      rw [initialMembers, if_pos hc] at hi
      rw [entryJobs, evalMembers, if_pos hc, if_pos hc]
      exact reaches_evalMembers rest h hi done hd target context hf s hs
    · rw [if_neg hc] at hd
      obtain ⟨v, ms', hv, hr, rfl⟩ := (initialMembers_cons_eq_ok_iff hc).1 hi
      have hk : key ∉ done.names := fun hm =>
        (List.nodup_append.1 hd).2.2 _ hm _ List.mem_cons_self rfl
      have hone := reaches_eval value hn hv _ _ (hf.member_append ms' hk) s hs
      have hall : Reaches config mode (entryJobs config.interpolate (⟨key, value⟩ :: rest) target)
          s context (do
            let w ← eval mapper value
            (evalMembers mapper rest).map fun ws => .object (done ++ [(key, w)] ++ ws)) := by
        rw [entryJobs, if_neg hc]
        apply hone.append
        intro w after _ hw
        exact reaches_evalMembers rest h hr (done ++ [(key, w)])
          (by simpa [Table.names] using hd) target context hf after (by simpa using hw)
      refine hall.of_eq ?_
      rw [evalMembers, if_neg hc]
      cases eval mapper value with
      | error e => rfl
      | ok w =>
        cases evalMembers mapper rest <;> simp [bind, Except.bind, Except.map, pure, Except.pure]
termination_by structural entries

end

/-- Where no job resolves a template, the passes come to the jobs in their order. -/
theorem runPasses_of_reaches (config : Config σ) (mode : Mode) {jobs : List Job}
    (hj : ∀ job ∈ jobs, job.stage = .directives) {v : Value} (host : σ)
    (hv : v.hasTemplate = false) {result : Except Error Value}
    (hw : ∀ w, result = .ok w → w.hasTemplate = false)
    (h : ∀ s : Session σ, s.root = rootOf v → Reaches config mode jobs s rootOf result) :
    ∃ after, runPasses config mode (plan jobs) (start host v) = (result.map fun _ => (), after) ∧
      after.host = host ∧ ∀ w, result = .ok w → after.root = rootOf w := by
  have hfirst : inPass .interpolation jobs = [] :=
    List.filter_eq_nil_iff.2 fun job hm => by rw [hj job hm]; decide
  have hsecond : inPass .directives jobs = jobs :=
    List.filter_eq_self.2 fun job hm => by rw [hj job hm]; rfl
  rw [plan, hfirst, hsecond, List.nil_append]
  obtain ⟨s₁, h₁, hr₁, hh₁⟩ := runAll_sweep config mode
    (s := (start host v).record (.pass .interpolation)) rfl hv
  obtain ⟨s₂, h₂, hh₂, hr₂⟩ := h (s₁.record (.pass .directives)) hr₁
  rw [runPasses, h₁]
  dsimp only
  rw [runPasses, h₂]
  cases result with
  | error e => exact ⟨s₂, rfl, hh₂.trans hh₁, fun w hw => by cases hw⟩
  | ok w =>
    obtain ⟨s₃, h₃, hr₃, hh₃⟩ := runAll_sweep config mode
      (s := s₂.record (.pass .interpolation)) (hr₂ w rfl) (hw w rfl)
    refine ⟨s₃, ?_, hh₃.trans (hh₂.trans hh₁), fun u hu => ?_⟩
    · dsimp only [Except.map]
      rw [runPasses, h₃]
      rfl
    · cases hu
      exact hr₃.trans (hr₂ w rfl)

end Session

namespace Config
open Session ConfigDoc.Tree

variable {σ : Type}

/-- Compiling a tree with mappers alone gives what evaluating it directly gives: the same document,
or the error of the mapper that fails first. The host's state stays as it was. -/
theorem compileTree_eq_eval (config : Config σ) (mode : Mode) (mapper : Mapping) {tree : Tree}
    {entries : List (Entry Tree)} {draft : Draft} (host : σ) (hr : tree.entries? = some entries)
    (hd : Draft.ofTree config.interpolate tree = .ok draft)
    (h : ∀ node ∈ tree.nodes, Evaluable config mapper node) :
    config.compileTree mode tree host = (eval mapper (.block entries), host) := by
  have hdistinct := distinct_block hr (fun node hn => (h node hn).distinct) _ (self_mem_nodes _)
  have hb : ∀ node ∈ (block entries).nodes, Evaluable config mapper node :=
    forall_nodes_of_entries? hr h ⟨hdistinct, nofun, nofun, nofun, nofun⟩
  rw [Draft.ofTree_eq _ hr] at hd
  obtain ⟨v, hv, -⟩ := map_eq_ok_iff.1 hd
  have hj : ∀ job ∈ (block entries).jobs config.interpolate Reference.document,
      job.stage = .directives := by
    intro job hm
    have hc := causes_of_mem_jobs _ _ hm
    cases job with
    | interpolate target template =>
      have hi := (hb _ hc.1).inactive rfl
      rw [hc.2] at hi
      cases hi
    | directives target calls => rfl
    | sweep => exact hc.elim
  obtain ⟨after, hp, hh, hroot⟩ := runPasses_of_reaches config mode hj host
    (hasTemplate_initial _ hb hv) (fun w hw => hasTemplate_eval _ hb hw)
    fun s hs => reaches_eval _ hb hv _ _ Reference.focuses_document s hs
  rw [compileTree_eq config mode host hr hv, hp]
  cases he : eval mapper (.block entries) with
  | error e => simp [Except.map, hh]
  | ok w => simp [Except.map, hh, Session.document, Reference.get?_eq_lookup?, hroot w he,
      (Reference.focuses_document.pointsTo w).lookup]

/-- A chain within a block that has a call of its own: `{ a = true |> @wrap('s') @wrap }`. -/
theorem compileTree_wrap :
    let mapper : Mapping := fun _ v args => .ok (.array (v :: args))
    let config : Config Unit := ⟨true, false, [("wrap", pureMapper (mapper "wrap"))]⟩
    config.compileTree .blocking (.block [⟨"a", .piped (.boolean true) [⟨"wrap", [.rawString "s"]⟩]⟩,
        .ofCall ⟨"wrap", []⟩]) () =
      (.ok (.array [.object [("a", .array [.bool true, .string "s"])]]), ()) := by
  intro mapper config
  have hnode (node : Tree) (hd : node.Distinct) (hs : ∀ source, node ≠ .complexString source)
      (hc : ∀ call ∈ node.ownCalls, call.name = "wrap" ∧ ∀ arg ∈ call.args, arg.Plain) :
      Evaluable config mapper node :=
    ⟨hd, fun h => absurd h (hs _), fun h => (hc _ h).2, fun h => by rw [(hc _ h).1]; rfl,
      fun h v w args hv ha hw => by cases hw; exact Bool.or_eq_false_iff.2 ⟨hv, ha⟩⟩
  refine (compileTree_eq_eval config .blocking mapper () rfl rfl ?_).trans rfl
  intro node hn
  simp only [nodes, entryNodes, itemNodes, callNodes, Entry.ofCall, List.append_nil,
    List.nil_append, List.cons_append, List.mem_cons, List.not_mem_nil, or_false] at hn
  rcases hn with rfl | rfl | rfl | rfl | rfl <;>
    refine hnode _ ?_ (fun source => by simp) ?_ <;>
      simp [Distinct, entries?, keys, asCall?, ownCalls, Plain, nodes, kind]

end Config

end ConfigDoc
