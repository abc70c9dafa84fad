import ConfigDoc.Proofs.Draft.Members
import ConfigDoc.Proofs.Value.Templates

namespace ConfigDoc.Tree
open Value

mutual

/-- What is written for a tree, with `quoted` for its double-quoted strings: calls leave nothing
behind, and each key of a container stands in its first place with its last value. -/
def outline (quoted : String → Value) : Tree → Value
  | .numeric x => .number x
  | .boolean b => .bool b
  | .rawString s => .string s
  | .complexString s => quoted s
  | .array items => .array (outlineItems quoted items)
  | .map entries => .object (Table.ofList (outlineMembers quoted entries))
  | .block entries => .object (Table.ofList (outlineMembers quoted entries))
  | .piped raw _ => outline quoted raw
  | .directive _ => .null
termination_by structural tree => tree

def outlineItems (quoted : String → Value) : List Tree → List Value
  | [] => []
  | item :: rest => outline quoted item :: outlineItems quoted rest
termination_by structural items => items

def outlineMembers (quoted : String → Value) : List (Entry Tree) → Table Value
  | [] => []
  | ⟨key, value⟩ :: rest =>
    if value.asCall?.isSome then outlineMembers quoted rest
    else (key, outline quoted value) :: outlineMembers quoted rest
termination_by structural entries => entries

end

def writtenString (interpolate : Bool) (source : String) : Value :=
  if isActive interpolate source then .template ⟨source⟩ else .string source

variable {interpolate : Bool} {placement : Placement}

mutual

/-- A tree that is accepted is written as its outline. -/
theorem initial_eq_outline (tree : Tree) {v : Value}
    (h : tree.initial interpolate placement = .ok v) :
    v = tree.outline (writtenString interpolate) := by
  cases tree with
  | numeric x | boolean b | rawString s | complexString s =>
    cases h
    rfl
  | directive call => cases h
  | array items =>
    obtain ⟨vs, hi, rfl⟩ := map_eq_ok_iff.1 h
    exact congrArg Value.array (initialItems_eq_outline items hi)
  | map entries =>
    obtain ⟨-, members, hm, rfl⟩ := initial_map_eq_ok_iff.1 h
    rw [initialMembers_eq_outline entries hm]
    rfl
  | block entries =>
    obtain ⟨-, members, hm, rfl⟩ := initial_block_eq_ok_iff.1 h
    rw [initialMembers_eq_outline entries hm]
    rfl
  | piped raw chain =>
    have hraw {w : Value} (hw : raw.initial interpolate placement = .ok w) :=
      initial_eq_outline raw hw
    cases placement with
    | argument => cases h
    | document => exact hraw h
termination_by structural tree

theorem initialItems_eq_outline (items : List Tree) {vs : List Value}
    (h : initialItems interpolate placement items = .ok vs) :
    vs = outlineItems (writtenString interpolate) items := by
  cases items with
  | nil =>
    cases h
    rfl
  | cons item rest =>
    obtain ⟨v, others, hv, hr, rfl⟩ := initialItems_cons_eq_ok_iff.1 h
    rw [initial_eq_outline item hv, initialItems_eq_outline rest hr]
    rfl
termination_by structural items

theorem initialMembers_eq_outline (entries : List (Entry Tree)) {members : Table Value}
    (h : initialMembers interpolate placement entries = .ok members) :
    members = outlineMembers (writtenString interpolate) entries := by
  cases entries with
  | nil =>
    cases h
    rfl
  | cons entry rest =>
    obtain ⟨key, value⟩ := entry
    rw [outlineMembers]
    split
    · rename_i hc
      rw [initialMembers, if_pos hc] at h
      exact initialMembers_eq_outline rest h
    · rename_i hc
      obtain ⟨v, others, hv, hr, rfl⟩ := (initialMembers_cons_eq_ok_iff hc).1 h
      rw [initial_eq_outline value hv, initialMembers_eq_outline rest hr]
termination_by structural entries

end

theorem fillMembers_eq_iff {f : String → String} {members others : Table Value} :
    List.Forall₂ (Table.Named fun v w => v.fill f = w) members others ↔
      fillMembers f members = others := by
  constructor
  · intro h
    induction h with
    | nil => rfl
    | @cons member other _ _ hm _ ih =>
      rw [fillMembers, hm.1, hm.2, ih]
  · rintro rfl
    induction members with
    | nil => exact .nil
    | cons member rest ih => exact .cons ⟨rfl, rfl⟩ ih

/-- It makes no difference whether templates are filled before or after members are inserted. -/
theorem fillMembers_ofList (f : String → String) (members : Table Value) :
    fillMembers f (Table.ofList members) = Table.ofList (fillMembers f members) :=
  fillMembers_eq_iff.1 (Table.forall₂_insertAll .nil (fillMembers_eq_iff.2 rfl))

mutual

/-- Filling the templates of an outline fills what stands for the double-quoted strings. -/
theorem fill_outline (f : String → String) (quoted : String → Value) (tree : Tree) :
    (tree.outline quoted).fill f = tree.outline fun s => (quoted s).fill f := by
  cases tree with
  | numeric x | boolean b | rawString s | complexString s | directive call => rfl
  | array items => exact congrArg Value.array (fillItems_outline f quoted items)
  | map entries | block entries =>
    rw [outline, fill, fillMembers_ofList, fillMembers_outline f quoted entries]
    rfl
  | piped raw chain => exact fill_outline f quoted raw
termination_by structural tree

theorem fillItems_outline (f : String → String) (quoted : String → Value) (items : List Tree) :
    fillItems f (outlineItems quoted items) = outlineItems (fun s => (quoted s).fill f) items := by
  cases items with
  | nil => rfl
  | cons item rest =>
    rw [outlineItems, fillItems, fill_outline f quoted item, fillItems_outline f quoted rest]
    rfl
termination_by structural items

theorem fillMembers_outline (f : String → String) (quoted : String → Value)
    (entries : List (Entry Tree)) :
    fillMembers f (outlineMembers quoted entries) =
      outlineMembers (fun s => (quoted s).fill f) entries := by
  cases entries with
  | nil => rfl
  | cons entry rest =>
    obtain ⟨key, value⟩ := entry
    rw [outlineMembers, outlineMembers]
    split
    · exact fillMembers_outline f quoted rest
    · rw [fillMembers, fill_outline f quoted value, fillMembers_outline f quoted rest]
termination_by structural entries

end

/-- Without interpolation nothing is written as a template. -/
theorem hasTemplate_outline_false (tree : Tree) :
    (tree.outline (writtenString false)).hasTemplate = false := by
  have hf := fill_outline (fun _ => "") (writtenString false) tree
  exact hf ▸ hasTemplate_fill _ _

theorem hasTemplate_initial_false {tree : Tree} {v : Value}
    (h : tree.initial false placement = .ok v) : v.hasTemplate = false := by
  rw [initial_eq_outline tree h]
  exact hasTemplate_outline_false tree

theorem anyTemplate_initialItems_false {items : List Tree} {vs : List Value}
    (h : initialItems false placement items = .ok vs) : anyTemplate vs = false := by
  rw [initialItems_eq_outline items h]
  exact hasTemplate_outline_false (.array items)

end ConfigDoc.Tree
