import ConfigDoc.Proofs.Compile.Denotation
import ConfigDoc.Proofs.Draft.Acceptance
import ConfigDoc.Proofs.Draft.Outline
import ConfigDoc.Proofs.Session.Journal
import ConfigDoc.Proofs.Template.Substitution

/-! The arguments of a chain of calls: all of them are computed before any handler is applied, from
the document as it is then. -/

namespace ConfigDoc

variable {σ : Type}

namespace Tree

mutual

/-- Among arguments exactly the trees without pipes and calls are accepted. -/
theorem writable_argument_iff (tree : Tree) : tree.Writable .argument ↔ tree.Plain := by
  cases tree with
  | numeric x | boolean b | rawString s | complexString s =>
    simp [Writable, Plain, outerNodes, nodes, Fitting, asCall?, kind]
  | directive call => simp [Writable, asCall?, Plain, nodes, kind]
  | piped raw chain => simp [writable_piped, not_plain_piped]
  | array items => rw [writable_array, plain_array, writableItems_argument_iff items]
  | map entries =>
    rw [writable_map, plain_map, ← writableEntries_argument_iff entries]
  | block entries =>
    rw [writable_block, plain_block, ← writableEntries_argument_iff entries]
    exact and_congr_left fun _ => forall_prop_of_true rfl
termination_by structural tree

theorem writableItems_argument_iff (items : List Tree) :
    (∀ item ∈ items, item.Writable .argument) ↔ ∀ item ∈ items, item.Plain := by
  cases items with
  | nil => simp
  | cons item rest =>
    rw [List.forall_mem_cons, List.forall_mem_cons, writable_argument_iff item,
      writableItems_argument_iff rest]
termination_by structural items

theorem writableEntries_argument_iff (entries : List (Entry Tree)) :
    ((∀ entry ∈ entries, entry.value.asCall? = none) ∧ WritableEntries .argument entries) ↔
      ∀ entry ∈ entries, entry.value.Plain := by
  cases entries with
  | nil => simp [WritableEntries]
  | cons entry rest =>
    obtain ⟨key, value⟩ := entry
    rw [List.forall_mem_cons, List.forall_mem_cons, ← writable_argument_iff value,
      ← writableEntries_argument_iff rest, WritableEntries, List.forall_mem_cons, Writable]
    exact and_and_and_comm
termination_by structural entries

end

mutual

/-- With its double-quoted strings as they are, a plain tree is written as what it denotes. -/
theorem outline_of_plain (tree : Tree) (h : tree.Plain) : tree.outline .string = tree.denote := by
  cases tree with
  | numeric x | boolean b | rawString s | complexString s => rfl
  | directive call => cases h.asCall?
  | piped raw chain => exact absurd h (not_plain_piped raw chain)
  | array items => exact congrArg Value.array (outlineItems_of_plain items (plain_array.1 h))
  | map entries =>
    exact congrArg (Value.object ∘ Table.ofList) (outlineMembers_of_plain entries (plain_map.1 h))
  | block entries =>
    exact congrArg (Value.object ∘ Table.ofList) (outlineMembers_of_plain entries (plain_block.1 h))
termination_by structural tree

theorem outlineItems_of_plain (items : List Tree) (h : ∀ item ∈ items, item.Plain) :
    outlineItems .string items = denoteItems items := by
  cases items with
  | nil => rfl
  | cons item rest =>
    obtain ⟨hi, hr⟩ := List.forall_mem_cons.1 h
    rw [outlineItems, outline_of_plain item hi, outlineItems_of_plain rest hr]
    rfl
termination_by structural items

theorem outlineMembers_of_plain (entries : List (Entry Tree))
    (h : ∀ entry ∈ entries, entry.value.Plain) :
    outlineMembers .string entries = denoteMembers entries := by
  cases entries with
  | nil => rfl
  | cons entry rest =>
    obtain ⟨key, value⟩ := entry
    obtain ⟨hv, hr⟩ := List.forall_mem_cons.1 h
    rw [outlineMembers, hv.asCall?, outline_of_plain value hv, outlineMembers_of_plain rest hr]
    rfl
termination_by structural entries

end

/-- The value of an argument with its templates still in it. -/
def sketch (interpolate : Bool) (arg : Tree) : Value := arg.outline (writtenString interpolate)

variable {interpolate : Bool}

theorem initialItems_argument_eq_ok_iff {args : List Tree} {vs : List Value} :
    initialItems interpolate .argument args = .ok vs ↔
      (∀ arg ∈ args, arg.Plain) ∧ vs = args.map (sketch interpolate) := by
  have houtline : outlineItems (writtenString interpolate) args = args.map (sketch interpolate) := by
    induction args with
    | nil => rfl
    | cons arg rest ih => rw [outlineItems, ih, List.map_cons, sketch]
  rw [← writableItems_argument_iff, ← initialItems_isOk_iff, ← houtline]
  constructor
  · intro h
    exact ⟨⟨vs, h⟩, initialItems_eq_outline args h⟩
  · rintro ⟨⟨vs', h⟩, rfl⟩
    rw [h, initialItems_eq_outline args h]

/-- With all tokens written out again an argument is what its node denotes. -/
theorem fill_sketch_tokenText {arg : Tree} (h : arg.Plain) :
    (arg.sketch interpolate).fill Template.tokenText = arg.denote := by
  have hquoted : (fun s => (writtenString interpolate s).fill Template.tokenText) = Value.string := by
    funext s
    unfold writtenString
    split
    · exact congrArg Value.string (Template.substitute_tokenText ⟨s⟩)
    · rfl
  rw [sketch, fill_outline, hquoted, outline_of_plain arg h]

end Tree

namespace Value
open Template

variable {interpolate : Bool} {sources : List Value}

/-- The templates of an argument are replaced by their texts, unless a circle is in the way. -/
theorem resolveAll_sketch_eq_ok_iff {arg : Tree} {w : Value} :
    (arg.sketch interpolate).resolveAll interpolate sources = .ok w ↔
      ¬ Circular (find? sources) (arg.sketch interpolate).tokenKeys ∧
        w = (arg.sketch interpolate).fill (textOf (find? sources)) := by
  rw [not_circular_iff mem_of_dependsOn]
  cases interpolate with
  | true =>
    rw [← mapTemplates_resolve_eq_ok_iff, resolveAll]
    simp only [resolveIf, if_true, bind_pure_comp]
  | false =>
    have ht : (arg.sketch false).hasTemplate = false := Tree.hasTemplate_outline_false arg
    have hk : (arg.sketch false).tokenKeys = [] := by
      rw [tokenKeys_eq, (hasTemplate_eq_false_iff _).1 ht]
      rfl
    rw [resolveAll, mapTemplates_of_hasTemplate _ _ ht, hk, fill_of_hasTemplate ht]
    simp [eq_comm]

end Value

/-- Steps that succeed under a condition, and then give what a function gives. -/
theorem mapM_eq_ok_iff {ε α β : Type} {f : α → Except ε β} {P : α → Prop} {g : α → β}
    (h : ∀ a b, f a = .ok b ↔ P a ∧ b = g a) {as : List α} {bs : List β} :
    as.mapM f = .ok bs ↔ (∀ a ∈ as, P a) ∧ bs = as.map g := by
  have hall (hp : ∀ a ∈ as, P a) : as.mapM f = .ok (as.map g) :=
    mapM_eq_ok_map fun a ha => (h a (g a)).2 ⟨hp a ha, rfl⟩
  constructor
  · intro hm
    have hp : ∀ a ∈ as, P a := by
      intro a ha
      obtain ⟨b, hb⟩ := isOk_of_mapM hm a ha
      exact ((h a b).1 hb).1
    exact ⟨hp, (Except.ok.inj ((hall hp).symm.trans hm)).symm⟩
  · rintro ⟨hp, rfl⟩
    exact hall hp

namespace Session
open Template

/-- What a call needs to be made: a handler of its name, arguments without pipes and calls in them,
and no circle in the way of the templates that are left in these. -/
structure Admissible (config : Config σ) (sources : List Value) (call : Call Tree) : Prop where
  registered : ∃ handler, config.handler? call.name = some handler
  plain : ∀ arg ∈ call.args, arg.Plain
  uncircular : ∀ arg ∈ call.args,
    ¬ Circular (find? sources) (arg.sketch config.interpolate).tokenKeys

/-- What is made of a call: its handler, and for each argument in order the value that its node
denotes, but with each template in it replaced by the text that it has in the document of `sources`,
so that no template is left. -/
structure Made (config : Config σ) (sources : List Value) (texts : String → String)
    (call : Call Tree) (made : BoundCall σ) : Prop where
  name : made.name = call.name
  handler : config.handler? call.name = some made.handler
  args : made.args = call.args.map fun arg => (arg.sketch config.interpolate).fill texts
  resolved : ∀ arg ∈ call.args, ∀ t ∈ (arg.sketch config.interpolate).templates,
    t.resolve sources = .ok (t.substitute texts)
  denoted : ∀ arg ∈ call.args, (arg.sketch config.interpolate).fill tokenText = arg.denote
  untemplated : Value.anyTemplate made.args = false

variable {config : Config σ} {sources : List Value} {calls : List (Call Tree)}

theorem anyTemplate_map_fill (interpolate : Bool) (texts : String → String) (args : List Tree) :
    Value.anyTemplate (args.map fun arg => (arg.sketch interpolate).fill texts) = false := by
  induction args with
  | nil => rfl
  | cons arg rest ih => exact Bool.or_eq_false_iff.2 ⟨Value.hasTemplate_fill _ _, ih⟩

theorem mapM_resolveAll_eq_ok_iff {interpolate : Bool} {args : List Tree} {ws : List Value} :
    (args.map (Tree.sketch interpolate)).mapM (Value.resolveAll interpolate sources) = .ok ws ↔
      (∀ arg ∈ args, ¬ Circular (find? sources) (arg.sketch interpolate).tokenKeys) ∧
        ws = args.map fun arg => (arg.sketch interpolate).fill (textOf (find? sources)) := by
  rw [List.mapM_map]
  exact mapM_eq_ok_iff fun arg w => Value.resolveAll_sketch_eq_ok_iff

/-- A call is bound before the others, if it is admissible. -/
theorem bound_cons_eq_ok_iff {call : Call Tree} {made : List (BoundCall σ)} :
    bound config sources (call :: calls) = .ok made ↔
      Admissible config sources call ∧ ∃ handler others,
        config.handler? call.name = some handler ∧ bound config sources calls = .ok others ∧
        made = ⟨call.name, handler, call.args.map fun arg =>
          (arg.sketch config.interpolate).fill (textOf (find? sources))⟩ :: others := by
  rw [bound]
  constructor
  · intro h
    split at h
    · cases h
    · rename_i handler hh
      obtain ⟨vs, hv, h⟩ := bind_eq_ok_iff.1 h
      obtain ⟨args, ha, h⟩ := bind_eq_ok_iff.1 h
      obtain ⟨others, ho, h⟩ := bind_eq_ok_iff.1 h
      cases h
      obtain ⟨hp, rfl⟩ := Tree.initialItems_argument_eq_ok_iff.1 hv
      obtain ⟨hc, rfl⟩ := mapM_resolveAll_eq_ok_iff.1 ha
      exact ⟨⟨⟨handler, hh⟩, hp, hc⟩, handler, others, hh, ho, rfl⟩
  · rintro ⟨⟨-, hp, hc⟩, handler, others, hh, ho, rfl⟩
    rw [hh]
    refine bind_eq_ok_iff.2 ⟨_, Tree.initialItems_argument_eq_ok_iff.2 ⟨hp, rfl⟩, ?_⟩
    refine bind_eq_ok_iff.2 ⟨_, mapM_resolveAll_eq_ok_iff.2 ⟨hc, rfl⟩, ?_⟩
    exact bind_eq_ok_iff.2 ⟨others, ho, rfl⟩

/-- Either all calls are bound or none. -/
theorem bound_isOk_iff : (∃ made, bound config sources calls = .ok made) ↔
    ∀ call ∈ calls, Admissible config sources call := by
  induction calls with
  | nil => simp [bound]
  | cons call rest ih =>
    rw [List.forall_mem_cons, ← ih]
    constructor
    · rintro ⟨made, h⟩
      obtain ⟨hc, _, others, -, ho, -⟩ := bound_cons_eq_ok_iff.1 h
      exact ⟨hc, others, ho⟩
    · rintro ⟨hc, others, ho⟩
      obtain ⟨handler, hh⟩ := hc.registered
      exact ⟨_, bound_cons_eq_ok_iff.2 ⟨hc, handler, others, hh, ho, rfl⟩⟩

theorem made_of_bound {made : List (BoundCall σ)} (h : bound config sources calls = .ok made) :
    List.Forall₂ (Made config sources (textOf (find? sources))) calls made := by
  induction calls generalizing made with
  | nil =>
    cases h
    exact .nil
  | cons call rest ih =>
    obtain ⟨hc, handler, others, hh, ho, rfl⟩ := bound_cons_eq_ok_iff.1 h
    refine .cons ⟨rfl, hh, rfl, ?_, ?_, anyTemplate_map_fill _ _ _⟩ (ih ho)
    · intro arg ha t ht
      apply resolve_eq_ok
      intro key hk
      have hg := (not_circular_iff mem_of_dependsOn).1 (hc.uncircular arg ha)
      exact hg key (Value.mem_tokenKeys_iff.2 ⟨t, ht, hk⟩)
    · intro arg ha
      exact Tree.fill_sketch_tokenText (hc.plain arg ha)

/-- A repeated key has its first place and its last value, whose tokens give way to what is in the
document. -/
example :
    let config : Config Unit := ⟨true, false, [("use", fun _ _ => .done .ready)]⟩
    let arg := Tree.map [⟨"k", .boolean true⟩, ⟨"l", .rawString "$\x7bx\x7d"⟩,
      ⟨"k", .complexString "<$\x7bx\x7d>"⟩]
    (bound config [.object [("x", .string "y")]] [⟨"use", [arg]⟩]).map
        (fun made => made.map fun call => call.args.map Value.text) =
      .ok [["\x7b\"k\":\"<y>\",\"l\":\"$\x7bx\x7d\"\x7d"]] := by decide +kernel

/-- Calls that have been bound have no templates in their arguments. -/
theorem anyTemplate_of_bound {made : List (BoundCall σ)}
    (h : bound config sources calls = .ok made) :
    ∀ call ∈ made, Value.anyTemplate call.args = false := by
  have hm := made_of_bound h
  clear h
  induction hm with
  | nil => exact nofun
  | cons hc _ ih => exact List.forall_mem_cons.2 ⟨hc.untemplated, ih⟩

end Session

def Event.given? : Event → Option (String × Reference × List Value)
  | .applied name target _ args => some (name, target, args)
  | _ => none

namespace Session
open Template

theorem given_apply (mode : Mode) (target : Reference) (call : BoundCall σ) (s : Session σ) :
    Traces Event.given? [(call.name, target, call.args)] s (apply mode target call s) :=
  traces_apply mode target call s rfl

/-- A chain of calls is bound as a whole, or not at all. It is bound exactly if each call is
admissible, with the document as it is before any of them, and then its handlers are given these
arguments, each handler its own, one after the other. If it is not bound, no handler is applied. In
neither case does the binding change the tree, the queue or the host. -/
theorem runJob_binds (config : Config σ) (mode : Mode) (target : Reference)
    (calls : List (Call Tree)) (s : Session σ) :
    let job := Job.directives target calls
    let binding := bindCalls config s.sources target calls s.queue
    ((∃ result, binding = .ok result) ↔ ∀ call ∈ calls, Admissible config s.sources call) ∧
    (∀ made queue, binding = .ok (made, queue) →
      queue = s.queue ∧ (∃ texts, List.Forall₂ (Made config s.sources texts) calls made) ∧
      runJob config mode job s = applyAll mode target made (s.record (.job job)) ∧
      Traces Event.given? (made.map fun call => (call.name, target, call.args))
        (s.record (.job job)) (runJob config mode job s)) ∧
    ∀ e, binding = .error e → runJob config mode job s = (.error e, s.record (.job job)) := by
  intro job binding
  have hbinding : binding = (bound config s.sources calls).map fun calls => (calls, s.queue) :=
    bindCalls_eq config s.sources target calls s.queue
  refine ⟨?_, fun made queue h => ?_, fun e h => ?_⟩
  · rw [← bound_isOk_iff, hbinding]
    constructor
    · rintro ⟨result, h⟩
      obtain ⟨made, hm, -⟩ := map_eq_ok_iff.1 h
      exact ⟨made, hm⟩
    · rintro ⟨made, hm⟩
      exact ⟨_, map_eq_ok_iff.2 ⟨made, hm, rfl⟩⟩
  · rw [hbinding] at h
    obtain ⟨_, hm, he⟩ := map_eq_ok_iff.1 h
    cases he
    have hrun : runJob config mode job s = applyAll mode target made (s.record (.job job)) := by
      rw [runJob_directives, hm]
    refine ⟨rfl, ⟨_, made_of_bound hm⟩, hrun, ?_⟩
    rw [hrun]
    exact traces_applyAll (given_apply mode target) made _
  · rw [hbinding] at h
    rw [runJob_directives, map_eq_error_iff.1 h]

end Session

end ConfigDoc
