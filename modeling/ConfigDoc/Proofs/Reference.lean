import ConfigDoc.Action
import ConfigDoc.Proofs.Value.Places

/-! Changes through references: when they are carried out, what they make of the slot, and that they
leave everything else as it was. -/

namespace ConfigDoc.Reference
open Value

variable {v w changed root root' : Value} {key : Segment} {r : Reference} {f : Value → Value}

/-- Whether the container of a slot is there and takes its key: an object takes any name, a list its
positions and the one just behind its end. -/
def Settable (r : Reference) (root : Value) : Prop :=
  (∃ members name, root.lookup? r.container = some (.object members) ∧ r.key = .key name) ∨
    ∃ items position, root.lookup? r.container = some (.array items) ∧
      r.key = .index position ∧ position ≤ items.length

structure Changed (r : Reference) (f : Value → Value) (root root' : Value) : Prop where
  slot : r.get? root' = some (f (r.value root))
  /-- A name keeps its place among the names of an object, or comes last. -/
  names (members : Table Value) (name : String)
    (hc : root.lookup? r.container = some (.object members)) (hk : r.key = .key name) :
    ∃ members', root'.lookup? r.container = some (.object members') ∧
      Table.names members' =
        if name ∈ Table.names members then Table.names members else Table.names members ++ [name]
  /-- A list becomes longer by one item if the slot is just behind its end. -/
  length (items : List Value) (position : Nat)
    (hc : root.lookup? r.container = some (.array items)) (hk : r.key = .index position) :
    ∃ items', root'.lookup? r.container = some (.array items') ∧
      items'.length = if position = items.length then items.length + 1 else items.length
  elsewhere : ∃ container, root.place? r.container = some container ∧
    AgreeApart (container ++ [r.key]) root root'

theorem exists_store_iff : (∃ changed, store v key w = .ok changed) ↔
    (∃ members name, v = .object members ∧ key = .key name) ∨
      ∃ items position, v = .array items ∧ key = .index position ∧ position ≤ items.length := by
  constructor
  · rintro ⟨changed, h⟩
    unfold store at h
    split at h
    · exact .inl ⟨_, _, rfl, rfl⟩
    · rename_i items position
      refine .inr ⟨items, position, rfl, rfl, ?_⟩
      split at h
      · rename_i hl
        exact hl.le
      · split at h
        · rename_i he
          exact he.le
        · cases h
    · cases h
  · rintro (⟨members, name, rfl, rfl⟩ | ⟨items, position, rfl, rfl, hl⟩)
    · exact ⟨_, rfl⟩
    · rcases hl.lt_or_eq with hl | he
      · exact ⟨_, if_pos hl⟩
      · exact ⟨_, (if_neg (he ▸ lt_irrefl position)).trans (if_pos he)⟩

theorem names_of_store {members : Table Value} {name : String}
    (h : store (.object members) (.key name) w = .ok changed) :
    ∃ members', changed = .object members' ∧ Table.names members' =
      if name ∈ Table.names members then Table.names members else Table.names members ++ [name] := by
  cases h
  exact ⟨_, rfl, Table.names_insert members name w⟩

theorem length_of_store {items : List Value} {position : Nat}
    (h : store (.array items) (.index position) w = .ok changed) :
    ∃ items', changed = .array items' ∧
      items'.length = if position = items.length then items.length + 1 else items.length := by
  unfold store at h
  dsimp only at h
  split at h
  · rename_i hl
    cases h
    exact ⟨_, rfl, by rw [List.length_set, if_neg hl.ne]⟩
  · split at h
    · rename_i he
      cases h
      exact ⟨_, rfl, by rw [List.length_append, if_pos he, List.length_singleton]⟩
    · cases h

theorem exists_replace_iff : (∃ root', r.replace root f = .ok root') ↔ r.Settable root := by
  constructor
  · rintro ⟨root', h⟩
    obtain ⟨container, changed, hc, hs, -⟩ := store_of_set (w := f (r.value root)) h
    rcases exists_store_iff.1 ⟨changed, hs⟩ with ⟨members, name, rfl, hk⟩ | ⟨items, position, rfl, h⟩
    · exact .inl ⟨members, name, hc, hk⟩
    · exact .inr ⟨items, position, hc, h⟩
  · intro h
    obtain ⟨container, hc, hs⟩ : ∃ container, root.lookup? r.container = some container ∧
        ∃ changed, store container r.key (f (r.value root)) = .ok changed := by
      rcases h with ⟨members, name, hc, hk⟩ | ⟨items, position, hc, h⟩
      · exact ⟨_, hc, exists_store_iff.2 (.inl ⟨members, name, rfl, hk⟩)⟩
      · exact ⟨_, hc, exists_store_iff.2 (.inr ⟨items, position, rfl, h⟩)⟩
    obtain ⟨changed, hs⟩ := hs
    have hsome : (root.assign? r.container changed).isSome := by
      rw [isSome_assign?, hc]
      rfl
    obtain ⟨root', ha⟩ := Option.isSome_iff_exists.1 hsome
    exact ⟨root', set_of_store hc hs ha⟩

theorem changed_of_replace (h : r.replace root f = .ok root') : r.Changed f root root' := by
  obtain ⟨container, changed, hc, hs, ha⟩ := store_of_set (w := f (r.value root)) h
  have hafter : root'.lookup? r.container = some changed := lookup?_of_assign? ha
  constructor
  · exact get?_of_set (w := f (r.value root)) h
  · intro members name hm hk
    cases hc.symm.trans hm
    rw [hk] at hs
    obtain ⟨members', rfl, hn⟩ := names_of_store hs
    exact ⟨members', hafter, hn⟩
  · intro items position hi hk
    cases hc.symm.trans hi
    rw [hk] at hs
    obtain ⟨items', rfl, hl⟩ := length_of_store hs
    exact ⟨items', hafter, hl⟩
  · exact exists_place_agreeApart hc ha (differsAt_of_store hs).agreeApart

/-- Whenever host code changes a slot, its own or one that it has kept, in whatever state the tree is
by then, the change is carried out exactly if the container takes the key. It then changes the slot
and nothing apart from it; a change that is refused changes nothing. -/
theorem change_slot {σ : Type} (r node : Reference) (f : Value → Value) (root : Value) (state : σ) :
    ∃ (outcome : Except Error Unit) (root' : Value),
      (Action.changeKept r f .done).run node root state = (.ok outcome, root', state) ∧
      (Action.change f .done).run r root state = (.ok outcome, root', state) ∧
      r.replace root f = outcome.map (fun _ => root') ∧
      (outcome = .ok () ↔ r.Settable root) ∧
      (outcome = .ok () → r.Changed f root root') ∧
      (outcome ≠ .ok () → root' = root) := by
  have hiff : (∃ root', r.replace root f = .ok root') ↔ r.Settable root := exists_replace_iff
  cases h : r.replace root f with
  | ok root' =>
    refine ⟨.ok (), root', ?_, ?_, rfl, ⟨fun _ => hiff.1 ⟨root', h⟩, fun _ => rfl⟩,
      fun _ => changed_of_replace h, fun hne => absurd rfl hne⟩
    · rw [Action.run, h]
      rfl
    · rw [Action.run, h]
      rfl
  | error e =>
    have hnot : ¬ r.Settable root := by
      intro hs
      obtain ⟨root', hr⟩ := hiff.2 hs
      cases h.symm.trans hr
    refine ⟨.error e, root, ?_, ?_, rfl, ⟨nofun, fun hs => absurd hs hnot⟩, nofun, fun _ => rfl⟩
    · rw [Action.run, h]
      rfl
    · rw [Action.run, h]
      rfl

end ConfigDoc.Reference
