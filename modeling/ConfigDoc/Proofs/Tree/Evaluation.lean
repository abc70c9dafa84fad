import ConfigDoc.Config
import ConfigDoc.Proofs.Draft.Members
import ConfigDoc.Proofs.Value.Templates

/-! Evaluating a tree directly from its leaves up, with mappers alone. -/

namespace ConfigDoc.Tree

abbrev Mapping := String → Value → List Value → Except Error Value

mutual

/-- The document of a tree computed from its leaves up, every string taken as it is. -/
def eval (mapper : Mapping) : Tree → Except Error Value
  | .numeric x => .ok (.number x)
  | .boolean b => .ok (.bool b)
  | .rawString s => .ok (.string s)
  | .complexString s => .ok (.string s)
  | .array items => (evalItems mapper items).map .array
  | .map entries => (evalMembers mapper entries).map .object
  | .block entries => do
    let members ← evalMembers mapper entries
    evalBlockCalls mapper entries (.object members)
  | .piped raw chain => do
    let v ← eval mapper raw
    evalChain mapper chain v
  | .directive _ => .error (.invalidNode .directive)
termination_by structural tree => tree

def evalItems (mapper : Mapping) : List Tree → Except Error (List Value)
  | [] => .ok []
  | item :: rest => do
    let v ← eval mapper item
    let vs ← evalItems mapper rest
    pure (v :: vs)
termination_by structural items => items

def evalMembers (mapper : Mapping) : List (Entry Tree) → Except Error (List (String × Value))
  | [] => .ok []
  | ⟨key, value⟩ :: rest =>
    if value.asCall?.isSome then evalMembers mapper rest
    else do
      let v ← eval mapper value
      let members ← evalMembers mapper rest
      pure ((key, v) :: members)
termination_by structural entries => entries

def evalChain (mapper : Mapping) : List (Call Tree) → Value → Except Error Value
  | [], v => .ok v
  | ⟨name, args⟩ :: rest, v => do
    let args ← evalItems mapper args
    let w ← mapper name v args
    evalChain mapper rest w
termination_by structural calls => calls

def evalBlockCalls (mapper : Mapping) : List (Entry Tree) → Value → Except Error Value
  | [], v => .ok v
  | ⟨_, value⟩ :: rest, v => do
    let w ← evalCall mapper value v
    evalBlockCalls mapper rest w
termination_by structural entries => entries

/-- A value mapped by a node that is a call; another node leaves it as it is. -/
def evalCall (mapper : Mapping) : Tree → Value → Except Error Value
  | .directive ⟨name, args⟩, v => do
    let args ← evalItems mapper args
    mapper name v args
  | _, v => .ok v
termination_by structural tree => tree

end

def pureMapper (f : Value → List Value → Except Error Value) {σ : Type} : DirectiveHandler σ :=
  .ofMapper (.ofHost fun v args host => (f v args, host))

structure Evaluable {σ : Type} (config : Config σ) (mapper : Mapping) (node : Tree) : Prop where
  distinct : node.Distinct
  inactive {source : String} (h : node = .complexString source) :
    isActive config.interpolate source = false
  plain {call : Call Tree} (h : call ∈ node.ownCalls) : ∀ arg ∈ call.args, arg.Plain
  registered {call : Call Tree} (h : call ∈ node.ownCalls) :
    config.handler? call.name = some (pureMapper (mapper call.name))
  /-- A mapper makes no templates where there are none. -/
  settled {call : Call Tree} (h : call ∈ node.ownCalls) {v w : Value} {args : List Value}
    (hv : v.hasTemplate = false) (ha : Value.anyTemplate args = false)
    (hw : mapper call.name v args = .ok w) : w.hasTemplate = false

structure CallEvaluable {σ : Type} (config : Config σ) (mapper : Mapping) (call : Call Tree) :
    Prop where
  plain : ∀ arg ∈ call.args, arg.Plain
  args : ∀ arg ∈ call.args, ∀ node ∈ arg.nodes, Evaluable config mapper node
  registered : config.handler? call.name = some (pureMapper (mapper call.name))
  settled {v w : Value} {args : List Value} (hv : v.hasTemplate = false)
    (ha : Value.anyTemplate args = false) (hw : mapper call.name v args = .ok w) :
    w.hasTemplate = false

variable {σ : Type} {config : Config σ} {mapper : Mapping}

theorem callEvaluable {node : Tree} (hn : Evaluable config mapper node) {call : Call Tree}
    (hc : call ∈ node.ownCalls)
    (ha : ∀ arg ∈ call.args, ∀ inner ∈ arg.nodes, Evaluable config mapper inner) :
    CallEvaluable config mapper call :=
  ⟨hn.plain hc, ha, hn.registered hc, hn.settled hc⟩

theorem callEvaluable_of_entries {entries : List (Entry Tree)}
    (h : ∀ entry ∈ entries, ∀ node ∈ entry.value.nodes, Evaluable config mapper node) :
    ∀ call ∈ entries.filterMap (fun entry => entry.value.asCall?),
      CallEvaluable config mapper call := by
  intro call hc
  obtain ⟨entry, he, hv⟩ := List.mem_filterMap.1 hc
  have hn := h entry he
  rw [asCall?_eq_some_iff.1 hv] at hn
  obtain ⟨hn, ha⟩ := forall_nodes_directive.1 hn
  exact callEvaluable hn (List.mem_singleton_self call) ha

theorem evalBlockCalls_of_no_calls {entries : List (Entry Tree)}
    (h : ∀ entry ∈ entries, entry.value.asCall? = none) (v : Value) :
    evalBlockCalls mapper entries v = .ok v := by
  induction entries with
  | nil => rfl
  | cons entry rest ih =>
    obtain ⟨key, value⟩ := entry
    obtain ⟨hc, hr⟩ := List.forall_mem_cons.1 h
    rw [evalBlockCalls]
    cases value with
    | directive call => cases hc
    | _ => exact ih hr

mutual

/-- A plain tree has the same value wherever it is evaluated, and no template in it. -/
theorem initial_of_plain (tree : Tree) (hp : tree.Plain)
    (h : ∀ node ∈ tree.nodes, Evaluable config mapper node) :
    ∃ v, tree.initial config.interpolate .argument = .ok v ∧ tree.eval mapper = .ok v ∧
      v.hasTemplate = false := by
  cases tree with
  | numeric x => exact ⟨.number x, rfl, rfl, rfl⟩
  | boolean b => exact ⟨.bool b, rfl, rfl, rfl⟩
  | rawString s => exact ⟨.string s, rfl, rfl, rfl⟩
  | complexString s =>
    have hs := (h _ (self_mem_nodes _)).inactive rfl
    exact ⟨.string s, by simp [initial, hs], rfl, rfl⟩
  | array items =>
    obtain ⟨-, h⟩ := forall_nodes_array.1 h
    obtain ⟨vs, hi, he, ht⟩ := initialItems_of_plain items (plain_array.1 hp) h
    exact ⟨.array vs, by simp [initial, hi, Except.map], by simp [eval, he, Except.map], ht⟩
  | map entries =>
    obtain ⟨hn, h⟩ := forall_nodes_map.1 h
    obtain ⟨ms, hi, he, ht⟩ := initialMembers_of_plain entries (plain_map.1 hp) h
    have hc : ∀ entry ∈ entries, entry.value.asCall? = none :=
      fun entry hm => (plain_map.1 hp entry hm).asCall?
    have hm := initial_map_eq_ok_iff.2 ⟨hc, ms, hi, rfl⟩
    rw [ofList_initialMembers (hn.distinct _ rfl) hi] at hm
    exact ⟨.object ms, hm, by simp [eval, he, Except.map], ht⟩
  | block entries =>
    obtain ⟨hn, h⟩ := forall_nodes_block.1 h
    obtain ⟨ms, hi, he, ht⟩ := initialMembers_of_plain entries (plain_block.1 hp) h
    have hc : ∀ entry ∈ entries, entry.value.asCall? = none :=
      fun entry hm => (plain_block.1 hp entry hm).asCall?
    have hm := initial_block_eq_ok_iff.2 ⟨fun _ => hc, ms, hi, rfl⟩
    rw [ofList_initialMembers (hn.distinct _ rfl) hi] at hm
    refine ⟨.object ms, hm, ?_, ht⟩
    rw [eval, he]
    exact evalBlockCalls_of_no_calls hc _
  | directive call => exact absurd hp.asCall? (by simp [asCall?])
  | piped raw chain => exact absurd hp (not_plain_piped raw chain)
termination_by structural tree

theorem initialItems_of_plain (items : List Tree) (hp : ∀ item ∈ items, item.Plain)
    (h : ∀ item ∈ items, ∀ node ∈ item.nodes, Evaluable config mapper node) :
    ∃ vs, initialItems config.interpolate .argument items = .ok vs ∧
      evalItems mapper items = .ok vs ∧ Value.anyTemplate vs = false := by
  cases items with
  | nil => exact ⟨[], rfl, rfl, rfl⟩
  | cons item rest =>
    obtain ⟨hpi, hp⟩ := List.forall_mem_cons.1 hp
    obtain ⟨hni, h⟩ := List.forall_mem_cons.1 h
    obtain ⟨v, hi, he, ht⟩ := initial_of_plain item hpi hni
    obtain ⟨vs, his, hes, hts⟩ := initialItems_of_plain rest hp h
    refine ⟨v :: vs, ?_, ?_, by simp [Value.anyTemplate, ht, hts]⟩
    · rw [initialItems, hi, his]
      rfl
    · rw [evalItems, he, hes]
      rfl
termination_by structural items

theorem initialMembers_of_plain (entries : List (Entry Tree))
    (hp : ∀ entry ∈ entries, entry.value.Plain)
    (h : ∀ entry ∈ entries, ∀ node ∈ entry.value.nodes, Evaluable config mapper node) :
    ∃ ms, initialMembers config.interpolate .argument entries = .ok ms ∧
      evalMembers mapper entries = .ok ms ∧ Value.anyMemberTemplate ms = false := by
  cases entries with
  | nil => exact ⟨[], rfl, rfl, rfl⟩
  | cons entry rest =>
    obtain ⟨key, value⟩ := entry
    obtain ⟨hpv, hp⟩ := List.forall_mem_cons.1 hp
    obtain ⟨hnv, h⟩ := List.forall_mem_cons.1 h
    obtain ⟨v, hi, he, ht⟩ := initial_of_plain value hpv hnv
    obtain ⟨ms, his, hes, hts⟩ := initialMembers_of_plain rest hp h
    have hc : ¬ value.asCall?.isSome := by
      rw [hpv.asCall?]
      nofun
    refine ⟨(key, v) :: ms, ?_, ?_, by simp [Value.anyMemberTemplate, ht, hts]⟩
    · rw [initialMembers, if_neg hc, hi, his]
      rfl
    · rw [evalMembers, if_neg hc, he, hes]
      rfl
termination_by structural entries

end

mutual

/-- Nothing is written into the document as a template if no string has an active token. -/
theorem hasTemplate_initial (tree : Tree) (h : ∀ node ∈ tree.nodes, Evaluable config mapper node)
    {v : Value} (hv : tree.initial config.interpolate .document = .ok v) :
    v.hasTemplate = false := by
  cases tree with
  | numeric x | boolean b | rawString s =>
    cases hv
    rfl
  | complexString s =>
    rw [initial, (h _ (self_mem_nodes _)).inactive rfl] at hv
    cases hv
    rfl
  | array items =>
    rw [initial] at hv
    obtain ⟨vs, hi, rfl⟩ := map_eq_ok_iff.1 hv
    exact anyTemplate_initialItems items (forall_nodes_array.1 h).2 hi
  | map entries =>
    obtain ⟨hn, h⟩ := forall_nodes_map.1 h
    obtain ⟨-, ms, hi, rfl⟩ := initial_map_eq_ok_iff.1 hv
    rw [ofList_initialMembers (hn.distinct _ rfl) hi]
    exact anyMemberTemplate_initialMembers entries h hi
  | block entries =>
    obtain ⟨hn, h⟩ := forall_nodes_block.1 h
    obtain ⟨-, ms, hi, rfl⟩ := initial_block_eq_ok_iff.1 hv
    rw [ofList_initialMembers (hn.distinct _ rfl) hi]
    exact anyMemberTemplate_initialMembers entries h hi
  | directive call => cases hv
  | piped raw chain => exact hasTemplate_initial raw (forall_nodes_piped.1 h).2.1 hv
termination_by structural tree

theorem anyTemplate_initialItems (items : List Tree)
    (h : ∀ item ∈ items, ∀ node ∈ item.nodes, Evaluable config mapper node) {vs : List Value}
    (hi : initialItems config.interpolate .document items = .ok vs) :
    Value.anyTemplate vs = false := by
  cases items with
  | nil =>
    cases hi
    rfl
  | cons item rest =>
    obtain ⟨hn, h⟩ := List.forall_mem_cons.1 h
    obtain ⟨v, vs, hv, hr, rfl⟩ := initialItems_cons_eq_ok_iff.1 hi
    simp [Value.anyTemplate, hasTemplate_initial item hn hv, anyTemplate_initialItems rest h hr]
termination_by structural items

theorem anyMemberTemplate_initialMembers (entries : List (Entry Tree))
    (h : ∀ entry ∈ entries, ∀ node ∈ entry.value.nodes, Evaluable config mapper node)
    {ms : Table Value} (hi : initialMembers config.interpolate .document entries = .ok ms) :
    Value.anyMemberTemplate ms = false := by
  cases entries with
  | nil =>
    cases hi
    rfl
  | cons entry rest =>
    obtain ⟨key, value⟩ := entry
    obtain ⟨hn, h⟩ := List.forall_mem_cons.1 h
    by_cases hc : value.asCall?.isSome
    · rw [initialMembers, if_pos hc] at hi
      exact anyMemberTemplate_initialMembers rest h hi
    · obtain ⟨v, ms, hv, hr, rfl⟩ := (initialMembers_cons_eq_ok_iff hc).1 hi
      simp [Value.anyMemberTemplate, hasTemplate_initial value hn hv,
        anyMemberTemplate_initialMembers rest h hr]
termination_by structural entries

end

/-- Calls fold a value without templates into one without templates. -/
theorem hasTemplate_evalChain {calls : List (Call Tree)}
    (h : ∀ call ∈ calls, CallEvaluable config mapper call) {v w : Value}
    (hv : v.hasTemplate = false) (hw : evalChain mapper calls v = .ok w) :
    w.hasTemplate = false := by
  induction calls generalizing v with
  | nil =>
    cases hw
    exact hv
  | cons call rest ih =>
    obtain ⟨hc, hr⟩ := List.forall_mem_cons.1 h
    obtain ⟨args, -, he, ha⟩ := initialItems_of_plain call.args hc.plain hc.args
    rw [evalChain, he] at hw
    obtain ⟨_, ⟨⟩, hw⟩ := bind_eq_ok_iff.1 hw
    obtain ⟨u, hu, hw⟩ := bind_eq_ok_iff.1 hw
    exact ih hr (hc.settled hv ha hu) hw

/-- The calls among the entries are a chain. -/
theorem evalBlockCalls_eq (entries : List (Entry Tree)) (v : Value) :
    evalBlockCalls mapper entries v =
      evalChain mapper (entries.filterMap fun entry => entry.value.asCall?) v := by
  induction entries generalizing v with
  | nil => rfl
  | cons entry rest ih =>
    obtain ⟨key, value⟩ := entry
    rw [evalBlockCalls]
    cases value with
    | directive call =>
      have hf : (⟨key, .directive call⟩ :: rest : List (Entry Tree)).filterMap
          (fun entry => entry.value.asCall?) =
          call :: rest.filterMap fun entry => entry.value.asCall? := rfl
      simp only [hf, evalChain, evalCall, bind_assoc, ih]
    | _ => exact ih v

mutual

/-- A direct evaluation ends without templates. -/
theorem hasTemplate_eval (tree : Tree) (h : ∀ node ∈ tree.nodes, Evaluable config mapper node)
    {w : Value} (hw : tree.eval mapper = .ok w) : w.hasTemplate = false := by
  cases tree with
  | numeric x | boolean b | rawString s | complexString s =>
    cases hw
    rfl
  | array items =>
    rw [eval] at hw
    obtain ⟨ws, hi, rfl⟩ := map_eq_ok_iff.1 hw
    exact anyTemplate_evalItems items (forall_nodes_array.1 h).2 hi
  | map entries =>
    rw [eval] at hw
    obtain ⟨ms, hm, rfl⟩ := map_eq_ok_iff.1 hw
    exact anyMemberTemplate_evalMembers entries (forall_nodes_map.1 h).2 hm
  | block entries =>
    obtain ⟨-, h⟩ := forall_nodes_block.1 h
    obtain ⟨ms, hm, hw⟩ := bind_eq_ok_iff.1 hw
    rw [evalBlockCalls_eq] at hw
    exact hasTemplate_evalChain (v := .object ms) (callEvaluable_of_entries h)
      (anyMemberTemplate_evalMembers entries h hm) hw
  | directive call => cases hw
  | piped raw chain =>
    obtain ⟨hn, hr, ha⟩ := forall_nodes_piped.1 h
    obtain ⟨v, hv, hw⟩ := bind_eq_ok_iff.1 hw
    exact hasTemplate_evalChain (fun call hc => callEvaluable hn hc (ha call hc))
      (hasTemplate_eval raw hr hv) hw
termination_by structural tree

theorem anyTemplate_evalItems (items : List Tree)
    (h : ∀ item ∈ items, ∀ node ∈ item.nodes, Evaluable config mapper node) {ws : List Value}
    (hw : evalItems mapper items = .ok ws) : Value.anyTemplate ws = false := by
  cases items with
  | nil =>
    cases hw
    rfl
  | cons item rest =>
    obtain ⟨hn, h⟩ := List.forall_mem_cons.1 h
    obtain ⟨w, hi, hw⟩ := bind_eq_ok_iff.1 hw
    obtain ⟨ws, hr, hw⟩ := bind_eq_ok_iff.1 hw
    cases hw
    simp [Value.anyTemplate, hasTemplate_eval item hn hi, anyTemplate_evalItems rest h hr]
termination_by structural items

theorem anyMemberTemplate_evalMembers (entries : List (Entry Tree))
    (h : ∀ entry ∈ entries, ∀ node ∈ entry.value.nodes, Evaluable config mapper node)
    {ms : List (String × Value)} (hm : evalMembers mapper entries = .ok ms) :
    Value.anyMemberTemplate ms = false := by
  cases entries with
  | nil =>
    cases hm
    rfl
  | cons entry rest =>
    obtain ⟨key, value⟩ := entry
    obtain ⟨hn, h⟩ := List.forall_mem_cons.1 h
    unfold evalMembers at hm
    split at hm
    · exact anyMemberTemplate_evalMembers rest h hm
    · obtain ⟨w, hw, hm⟩ := bind_eq_ok_iff.1 hm
      obtain ⟨ms, hr, hm⟩ := bind_eq_ok_iff.1 hm
      cases hm
      simp [Value.anyMemberTemplate, hasTemplate_eval value hn hw,
        anyMemberTemplate_evalMembers rest h hr]
termination_by structural entries

end

end ConfigDoc.Tree
