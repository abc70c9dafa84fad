import ConfigDoc.Json.Document
import ConfigDoc.Proofs.Number.Exact
import Mathlib.Data.List.Forall2
import Mathlib.Data.String.Basic

namespace ConfigDoc

namespace Number

theorem units?_isSome_iff {x : Number} : x.units?.isSome = true ↔ ∃ q, x.value? = some q := by
  rw [value?_eq]
  cases x.units? <;> simp

theorem value?_magnitude {x : Number} {q : ℚ} (h : x.value? = some q) :
    x.magnitude.value? = some |q| := by
  cases x with
  | finite negative significand shift hc =>
    cases h
    have hs : (0 : ℚ) ≤ significand := Nat.cast_nonneg _
    have hp : (0 : ℚ) ≤ 2 ^ ((shift : ℤ) - 1074) := zpow_nonneg zero_le_two _
    rw [abs_mul, abs_mul, abs_of_nonneg hs, abs_of_nonneg hp]
    cases negative <;> simp [magnitude, value?]
  | _ => cases h

theorem value?_safeInteger : safeInteger.value? = some ((significandBound : Int) : ℚ) :=
  value?_eq_int_iff.2 (by decide +kernel)

theorem magnitude_below_safeInteger {x : Number} {i : Int} (h : x.value? = some (i : ℚ)) :
    x.magnitude.below safeInteger = decide (i.natAbs < significandBound) := by
  rw [below_of_value (value?_magnitude h) value?_safeInteger, decide_eq_decide, ← Int.cast_abs,
    Int.cast_lt, Int.abs_eq_natAbs, Int.ofNat_lt]

theorem int64_of_small {i : Int} (h : i.natAbs < significandBound) :
    Int64.minValue.toInt ≤ i ∧ i ≤ Int64.maxValue.toInt := by
  have hmin : Int64.minValue.toInt = -2 ^ 63 := by decide
  have hmax : Int64.maxValue.toInt = 2 ^ 63 - 1 := by decide
  rw [significandBound_eq] at h
  omega

theorem toJson_of_small {x : Number} {i : Int} (h : x.value? = some (i : ℚ))
    (hi : i.natAbs < significandBound) : x.toJson = .integer i := by
  have hw : x.isWhole = true := isWhole_iff.2 ⟨i, h⟩
  obtain ⟨hlow, hhigh⟩ := int64_of_small hi
  rw [toJson, hw, magnitude_below_safeInteger h, Bool.true_and, if_pos (decide_eq_true hi),
    clamp_of_value h, min_eq_right hhigh, max_eq_right hlow]

/-- A number is written as an integer if it is one that a double holds safely, and as it is
otherwise. -/
theorem toJson_cases (x : Number) :
    (∃ i : Int, x.value? = some (i : ℚ) ∧ i.natAbs < significandBound ∧ x.toJson = .integer i) ∨
      x.toJson = .decimal x := by
  rcases x.value?_cases with ⟨i, hv⟩ | hw
  · by_cases hi : i.natAbs < significandBound
    · exact .inl ⟨i, hv, hi, toJson_of_small hv hi⟩
    · right
      rw [toJson, magnitude_below_safeInteger hv, decide_eq_false hi, Bool.and_false]
      rfl
  · right
    rw [toJson, hw]
    rfl

end Number

namespace Table

variable {α β : Type}

def sortByName (table : Table α) : Table α := table.mergeSort fun a b => decide (a.1 ≤ b.1)

theorem sortByName_perm (table : Table α) : table.sortByName.Perm table :=
  List.mergeSort_perm ..

theorem sortByName_sortByName (table : Table α) :
    table.sortByName.sortByName = table.sortByName := by
  apply List.mergeSort_of_pairwise
  apply List.pairwise_mergeSort
  · intro a b c hab hbc
    simp only [decide_eq_true_eq] at hab hbc ⊢
    exact le_trans hab hbc
  · intro a b
    simp only [Bool.or_eq_true, decide_eq_true_eq]
    exact le_total a.1 b.1

def mapValues (f : α → β) (table : Table α) : Table β := table.map fun entry => (entry.1, f entry.2)

theorem mapValues_sortByName (f : α → β) (table : Table α) :
    mapValues f table.sortByName = sortByName (mapValues f table) :=
  List.map_mergeSort fun _ _ _ _ => rfl

theorem mapValues_congr {f g : α → β} {table : Table α} (h : ∀ entry ∈ table, f entry.2 = g entry.2) :
    mapValues f table = mapValues g table :=
  List.map_congr_left fun entry he => congrArg (Prod.mk entry.1) (h entry he)

theorem mapValues_mapValues {γ : Type} (g : β → γ) (f : α → β) (table : Table α) :
    mapValues g (mapValues f table) = mapValues (g ∘ f) table := by
  rw [mapValues, mapValues, List.map_map]
  rfl

@[simp] theorem names_mapValues (f : α → β) (table : Table α) :
    names (mapValues f table) = names table := by
  rw [names, mapValues, List.map_map]
  rfl

end Table

namespace Json

theorem storedItems_eq (js : List Json) : storedItems js = js.map stored := by
  induction js with
  | nil => rfl
  | cons j rest ih => rw [storedItems, ih, List.map_cons]

theorem storedMembers_eq (ms : List (String × Json)) :
    storedMembers ms = Table.mapValues stored ms := by
  induction ms with
  | nil => rfl
  | cons m rest ih =>
    rw [storedMembers, ih]
    rfl

@[simp] theorem stored_array (items : List Json) :
    (Json.array items).stored = .array (items.map stored) := by
  rw [stored, storedItems_eq]

@[simp] theorem stored_object (members : List (String × Json)) :
    (Json.object members).stored = .object (Table.mapValues stored members).sortByName := by
  rw [stored, storedMembers_eq]
  rfl

/-- What a store of JSON values is relied on for: integers of 64 bits and finite doubles are kept as
they are, other doubles become null, lists are stored item by item, and the members of an object come
into the order of their names. -/
structure Faithful (store : Json → Except String Json) : Prop where
  null : store .null = .ok .null
  bool : ∀ b, store (.bool b) = .ok (.bool b)
  integer : ∀ i, Int64.minValue.toInt ≤ i → i ≤ Int64.maxValue.toInt →
    store (.integer i) = .ok (.integer i)
  finite : ∀ x, x.units?.isSome → store (.decimal x) = .ok (.decimal x)
  other : ∀ x, x.units? = none → store (.decimal x) = .ok .null
  string : ∀ s, store (.string s) = .ok (.string s)
  array : ∀ items kept, List.Forall₂ (fun j k => store j = .ok k) items kept →
    store (.array items) = .ok (.array kept)
  object : ∀ members kept, (Table.names members).Nodup →
    List.Forall₂ (fun m k => m.1 = k.1 ∧ store m.2 = .ok k.2) members kept →
      store (.object members) = .ok (.object (Table.sortByName kept))

theorem eq_map_stored {items kept : List Json}
    (h : List.Forall₂ (fun j k => store j = .ok k) items kept) : items.map stored = kept := by
  induction h with
  | nil => rfl
  | cons hj _ ih =>
    cases hj
    rw [List.map_cons, ih]

theorem eq_mapValues_stored {members kept : List (String × Json)}
    (h : List.Forall₂ (fun m k => m.1 = k.1 ∧ store m.2 = .ok k.2) members kept) :
    Table.mapValues stored members = kept := by
  induction h with
  | nil => rfl
  | @cons m k _ _ hm _ ih =>
    obtain ⟨hn, hj⟩ := hm
    have hk : (m.1, m.2.stored) = k := Prod.ext hn (Except.ok.inj hj)
    rw [← hk, ← ih]
    rfl

theorem faithful_store : Faithful store where
  null := rfl
  bool _ := rfl
  integer _ _ _ := rfl
  finite x hx := by rw [store, stored, if_pos hx]
  other x hx := by rw [store, stored, hx]; rfl
  string _ := rfl
  array items kept h := by rw [store, stored_array, eq_map_stored h]
  object members kept _ h := by rw [store, stored_object, eq_mapValues_stored h]

end Json

namespace Value

theorem itemsToJson_eq (vs : List Value) : itemsToJson vs = vs.map toJson := by
  induction vs with
  | nil => rfl
  | cons v rest ih => rw [itemsToJson, ih, List.map_cons]

theorem membersToJson_eq (ms : List (String × Value)) :
    membersToJson ms = Table.mapValues toJson ms := by
  induction ms with
  | nil => rfl
  | cons m rest ih =>
    rw [membersToJson, ih]
    rfl

theorem itemsOfJson_eq (js : List Json) : itemsOfJson js = js.map ofJson := by
  induction js with
  | nil => rfl
  | cons j rest ih => rw [itemsOfJson, ih, List.map_cons]

theorem membersOfJson_eq (ms : List (String × Json)) :
    membersOfJson ms = Table.mapValues ofJson ms := by
  induction ms with
  | nil => rfl
  | cons m rest ih =>
    rw [membersOfJson, ih]
    rfl

@[simp] theorem toJson_array (items : List Value) :
    (Value.array items).toJson = .array (items.map toJson) := by
  rw [toJson, itemsToJson_eq]

@[simp] theorem toJson_object (members : List (String × Value)) :
    (Value.object members).toJson = .object (Table.mapValues toJson members) := by
  rw [toJson, membersToJson_eq]

@[simp] theorem ofJson_array (items : List Json) :
    ofJson (.array items) = .array (items.map ofJson) := by
  rw [ofJson, itemsOfJson_eq]

@[simp] theorem ofJson_object (members : List (String × Json)) :
    ofJson (.object members) = .object (Table.mapValues ofJson members) := by
  rw [ofJson, membersOfJson_eq]

end Value

end ConfigDoc
