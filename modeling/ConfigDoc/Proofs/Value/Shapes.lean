import ConfigDoc.Proofs.Value.Integers
import Mathlib.Data.List.Forall2

/-! Values as host types: which values are of a type, and what is reported of the others. -/

namespace ConfigDoc

namespace Shape

/-- The host value that a value stands for. Lists keep the order and the number of their items, and
only an option stands for null. -/
def Reads : (shape : Shape) → Value → shape.Carrier → Prop
  | .string, v, s => v = .string s
  | .number, v, x => v = .number x
  | .integer, v, (i : Int) => ∃ x, v = .number x ∧ x.value? = some (i : ℚ) ∧
      Int64.minValue.toInt ≤ i ∧ i ≤ Int64.maxValue.toInt
  | .natural width, v, (n : Nat) => ∃ x, v = .number x ∧ x.value? = some (n : ℚ) ∧ n < width.bound
  | .bool, v, b => v = .bool b
  | .table, v, members => v = .object members
  | .list item, v, (xs : List item.Carrier) =>
    ∃ items, v = .array items ∧ List.Forall₂ item.Reads items xs
  | .optional _, v, none => v = .null
  | .optional inner, v, some x => v ≠ .null ∧ inner.Reads v x

def Conforms : Shape → Value → Prop
  | .string, v => ∃ s, v = .string s
  | .number, v => ∃ x, v = .number x
  | .integer, v => ∃ x, v = .number x ∧ ∃ i : Int, x.value? = some (i : ℚ) ∧
      Int64.minValue.toInt ≤ i ∧ i ≤ Int64.maxValue.toInt
  | .natural width, v =>
    ∃ x, v = .number x ∧ ∃ n : Nat, x.value? = some (n : ℚ) ∧ n < width.bound
  | .bool, v => ∃ b, v = .bool b
  | .table, v => ∃ members, v = .object members
  | .list item, v => ∃ items, v = .array items ∧ ∀ w ∈ items, item.Conforms w
  | .optional inner, v => v = .null ∨ inner.Conforms v

/-- The parts of a value in document order, each with the type that is asked of it. -/
def demands : Shape → Value → List (Shape × Value)
  | .list item, .array items => items.flatMap item.demands
  | .optional inner, v => if v.isNull then [] else inner.demands v
  | shape, v => [(shape, v)]

open Classical in
/-- The first part in document order that is not of its type. -/
noncomputable def misfit? (shape : Shape) (v : Value) : Option (Shape × Value) :=
  (shape.demands v).find? fun part => ¬ part.1.Conforms part.2

def noun : Shape → String
  | .string => "string"
  | .number | .integer | .natural _ => "number"
  | .bool => "boolean"
  | .table => "object"
  | .list _ => "array"
  | .optional inner => inner.noun

def advice : Shape → String
  | .string => "Use a string value in your document"
  | .number | .integer | .natural _ => Value.numberHint
  | .bool => "Use true/false or yes/no"
  | .table => "Use a block or a map in your document"
  | .list _ => "Use an array [...] in your document"
  | .optional inner => inner.advice

def otherKind (shape : Shape) (v : Value) : String :=
  "Expected " ++ shape.noun ++ ", got " ++ v.typeName

def complaint (shape : Shape) (v : Value) : String :=
  match v with
  | .number x =>
    match shape with
    | .integer =>
      if x.isWhole then "Number " ++ x.text ++ " out of range for i64"
      else "Number " ++ x.text ++ " is not a whole number"
    | .natural width => "Number " ++ x.text ++ " out of range for " ++ width.name
    | shape => shape.otherKind v
  | .string s =>
    match shape with
    | .bool =>
      if s ∈ Value.booleanWords then "Expected boolean, got the string '" ++ s ++ "'"
      else Shape.bool.otherKind v
    | shape => shape.otherKind v
  | v => shape.otherKind v

def remedy (shape : Shape) (v : Value) : String :=
  match v with
  | .number x =>
    match shape with
    | .integer =>
      if x.isWhole then "Use a whole number that fits in 64 bits" else "Drop the fractional part"
    | .natural width => "Use a whole number between 0 and " ++ width.largest.text
    | shape => shape.advice
  | .string s =>
    match shape with
    | .bool =>
      if s ∈ Value.booleanWords then "Drop the quotes: booleans are true/false/yes/no"
      else Shape.bool.advice
    | shape => shape.advice
  | _ => shape.advice

def report (part : Shape × Value) : Error :=
  .typeMismatch (part.1.complaint part.2) (some (part.1.remedy part.2))

theorem report_integer (x : Number) :
    report (.integer, .number x) = .typeMismatch
      (if x.isWhole then "Number " ++ x.text ++ " out of range for i64"
        else "Number " ++ x.text ++ " is not a whole number")
      (some (if x.isWhole then "Use a whole number that fits in 64 bits"
        else "Drop the fractional part")) :=
  rfl

theorem report_bool (s : String) :
    report (.bool, .string s) = .typeMismatch
      (if s ∈ Value.booleanWords then "Expected boolean, got the string '" ++ s ++ "'"
        else otherKind .bool (.string s))
      (some (if s ∈ Value.booleanWords then "Drop the quotes: booleans are true/false/yes/no"
        else Shape.bool.advice)) :=
  rfl

end Shape

section Lists

variable {ε α β : Type} {f : α → Except ε β}

theorem exists_forall₂_iff {R : α → β → Prop} {as : List α} :
    (∃ bs, List.Forall₂ R as bs) ↔ ∀ a ∈ as, ∃ b, R a b := by
  induction as with
  | nil => exact ⟨fun _ => nofun, fun _ => ⟨[], .nil⟩⟩
  | cons a rest ih =>
    rw [List.forall_mem_cons, ← ih]
    constructor
    · rintro ⟨_, h⟩
      cases h with
      | cons hb hr => exact ⟨⟨_, hb⟩, _, hr⟩
    · rintro ⟨⟨b, hb⟩, bs, hr⟩
      exact ⟨b :: bs, .cons hb hr⟩

theorem mapM_eq_ok_iff_forall₂ {as : List α} {bs : List β} :
    as.mapM f = .ok bs ↔ List.Forall₂ (fun a b => f a = .ok b) as bs := by
  induction as generalizing bs with
  | nil =>
    rw [List.mapM_nil, List.forall₂_nil_left_iff]
    exact ⟨fun h => (Except.ok.inj h).symm, fun h => h ▸ rfl⟩
  | cons a rest ih =>
    rw [List.mapM_cons, bind_eq_ok_iff, List.forall₂_cons_left_iff]
    constructor
    · rintro ⟨b, hb, h⟩
      obtain ⟨bs', hr, h⟩ := bind_eq_ok_iff.1 h
      cases h
      exact ⟨b, bs', hb, ih.1 hr, rfl⟩
    · rintro ⟨b, bs', hb, hr, rfl⟩
      exact ⟨b, hb, bind_eq_ok_iff.2 ⟨bs', ih.2 hr, rfl⟩⟩

/-- The first failure ends a traversal. -/
theorem mapM_eq_error {before after : List α} {a : α} {e : ε}
    (hb : ∀ b ∈ before, ∃ y, f b = .ok y) (ha : f a = .error e) :
    (before ++ a :: after).mapM f = .error e := by
  induction before with
  | nil =>
    rw [List.nil_append, List.mapM_cons, ha]
    rfl
  | cons b rest ih =>
    obtain ⟨⟨y, hy⟩, hr⟩ := List.forall_mem_cons.1 hb
    rw [List.cons_append, List.mapM_cons, hy]
    exact bind_eq_error_iff.2 (.inr ⟨y, rfl, bind_eq_error_iff.2 (.inl (ih hr))⟩)

end Lists

namespace Value

open Shape

theorem toShape_string {v : Value} {s : String} : v.toShape .string = .ok s ↔ v = .string s := by
  cases v with
  | string t =>
    show (Except.ok t : Except Error String) = .ok s ↔ _
    simp
  | _ => exact ⟨nofun, nofun⟩

theorem toShape_number {v : Value} {x : Number} : v.toShape .number = .ok x ↔ v = .number x := by
  cases v with
  | number y =>
    show (Except.ok y : Except Error Number) = .ok x ↔ _
    simp
  | _ => exact ⟨nofun, nofun⟩

theorem toShape_table {v : Value} {members : Table Value} :
    v.toShape .table = .ok members ↔ v = .object members := by
  cases v with
  | object ms =>
    show (Except.ok ms : Except Error (Table Value)) = .ok members ↔ _
    simp
  | _ => exact ⟨nofun, nofun⟩

theorem toBoolean_eq_ok_iff {v : Value} {b : Bool} : v.toBoolean = .ok b ↔ v = .bool b := by
  cases v with
  | bool c => simp [toBoolean]
  | string s =>
    rw [toBoolean]
    split <;> exact ⟨nofun, nofun⟩
  | _ => exact ⟨nofun, nofun⟩

theorem toInteger_eq_ok_iff {v : Value} {i : Int} :
    v.toInteger = .ok i ↔ ∃ x, v = .number x ∧ x.value? = some (i : ℚ) ∧
      Int64.minValue.toInt ≤ i ∧ i ≤ Int64.maxValue.toInt := by
  cases v with
  | number x => simp only [(toInteger_iff x).1, number.injEq, exists_eq_left']
  | _ => exact ⟨nofun, nofun⟩

theorem toNatural_eq_ok_iff {width : Width} {v : Value} {n : Nat} :
    v.toNatural width = .ok n ↔
      ∃ x, v = .number x ∧ x.value? = some (n : ℚ) ∧ n < width.bound := by
  cases v with
  | number x => simp only [(toNatural_iff width x).1, number.injEq, exists_eq_left']
  | _ => exact ⟨nofun, nofun⟩

theorem toShape_list {item : Shape} {v : Value} {xs : List item.Carrier} :
    v.toShape (.list item) = .ok xs ↔
      ∃ items, v = .array items ∧ List.Forall₂ (fun w x => w.toShape item = .ok x) items xs := by
  cases v with
  | array items =>
    simp only [array.injEq, exists_eq_left']
    exact mapM_eq_ok_iff_forall₂
  | _ => exact ⟨nofun, nofun⟩

theorem toShape_optional {inner : Shape} {v : Value} (h : v ≠ .null) :
    v.toShape (.optional inner) = some <$> v.toShape inner := by
  cases v with
  | null => exact absurd rfl h
  | _ => rfl

/-- A conversion gives the host value that a value stands for, and succeeds only if there is one. -/
theorem toShape_eq_ok_iff {shape : Shape} {v : Value} {x : shape.Carrier} :
    v.toShape shape = .ok x ↔ shape.Reads v x := by
  induction shape generalizing v with
  | string => exact toShape_string
  | number => exact toShape_number
  | integer => exact toInteger_eq_ok_iff
  | natural width => exact toNatural_eq_ok_iff
  | bool => exact toBoolean_eq_ok_iff
  | table => exact toShape_table
  | list item ih =>
    apply toShape_list.trans
    constructor
    · rintro ⟨items, hv, h⟩
      exact ⟨items, hv, h.imp fun _ _ => ih.1⟩
    · rintro ⟨items, hv, h⟩
      exact ⟨items, hv, h.imp fun _ _ => ih.2⟩
  | optional inner ih =>
    by_cases hv : v = .null
    · subst hv
      cases x with
      | none => exact ⟨fun _ => rfl, fun _ => rfl⟩
      | some y => exact ⟨nofun, fun h => absurd rfl h.1⟩
    · rw [toShape_optional hv]
      refine map_eq_ok_iff.trans ?_
      cases x with
      | none =>
        constructor
        · rintro ⟨_, _, h⟩
          cases h
        · exact fun h => absurd h hv
      | some y =>
        constructor
        · rintro ⟨_, hy, h⟩
          cases h
          exact ⟨hv, ih.1 hy⟩
        · exact fun h => ⟨y, ih.2 h.2, rfl⟩

theorem conforms_iff_exists_reads {shape : Shape} {v : Value} :
    shape.Conforms v ↔ ∃ x, shape.Reads v x := by
  induction shape generalizing v with
  | string => rfl
  | number => rfl
  | bool => rfl
  | table => rfl
  | integer =>
    constructor
    · rintro ⟨x, hx, i, hi⟩
      exact ⟨i, x, hx, hi⟩
    · rintro ⟨i, x, hx, hi⟩
      exact ⟨x, hx, i, hi⟩
  | natural width =>
    constructor
    · rintro ⟨x, hx, n, hn⟩
      exact ⟨n, x, hx, hn⟩
    · rintro ⟨n, x, hx, hn⟩
      exact ⟨x, hx, n, hn⟩
  | list item ih =>
    constructor
    · rintro ⟨items, hv, hi⟩
      obtain ⟨xs, hx⟩ := exists_forall₂_iff.2 fun w hw => ih.1 (hi w hw)
      exact ⟨xs, items, hv, hx⟩
    · rintro ⟨xs, items, hv, hx⟩
      exact ⟨items, hv, fun w hw => ih.2 (exists_forall₂_iff.1 ⟨xs, hx⟩ w hw)⟩
  | optional inner ih =>
    by_cases hv : v = .null
    · exact ⟨fun _ => ⟨none, hv⟩, fun _ => .inl hv⟩
    · constructor
      · rintro (h | h)
        · exact absurd h hv
        · obtain ⟨x, hx⟩ := ih.1 h
          exact ⟨some x, hv, hx⟩
      · rintro ⟨x, hx⟩
        cases x with
        | none => exact .inl hx
        | some x => exact .inr (ih.2 ⟨x, hx.2⟩)

theorem exists_toShape_iff {shape : Shape} {v : Value} :
    (∃ x, v.toShape shape = .ok x) ↔ shape.Conforms v := by
  rw [conforms_iff_exists_reads]
  exact exists_congr fun _ => toShape_eq_ok_iff

/-! ### Conversions that fail -/

theorem misfit?_list (item : Shape) (items : List Value) :
    (Shape.list item).misfit? (.array items) = items.findSome? item.misfit? :=
  List.find?_flatMap

theorem misfit?_optional {inner : Shape} {v : Value} (h : v ≠ .null) :
    (Shape.optional inner).misfit? v = inner.misfit? v := by
  cases v with
  | null => exact absurd rfl h
  | _ => rfl

/-- A part that is asked for as a whole is itself the misfit or there is none. -/
theorem misfit?_of_demands {shape : Shape} {v : Value} (h : shape.demands v = [(shape, v)]) :
    (shape.misfit? v = none ↔ shape.Conforms v) ∧
      ∀ part, shape.misfit? v = some part → part = (shape, v) ∧ ¬ shape.Conforms v := by
  by_cases hc : shape.Conforms v
  · simp [misfit?, h, hc]
  · simp [misfit?, h, hc, eq_comm]

theorem demands_list_of_ne {item : Shape} {v : Value} (h : ∀ items, v ≠ .array items) :
    (Shape.list item).demands v = [(.list item, v)] := by
  cases v with
  | array items => exact absurd rfl (h items)
  | _ => rfl

theorem misfit?_eq_none_iff {shape : Shape} {v : Value} :
    shape.misfit? v = none ↔ shape.Conforms v := by
  induction shape generalizing v with
  | list item ih =>
    by_cases hv : ∃ items, v = .array items
    · obtain ⟨items, rfl⟩ := hv
      rw [misfit?_list, List.findSome?_eq_none_iff]
      simp only [ih]
      constructor
      · exact fun h => ⟨items, rfl, h⟩
      · rintro ⟨_, hv, h⟩
        cases hv
        exact h
    · exact (misfit?_of_demands (demands_list_of_ne fun items h => hv ⟨items, h⟩)).1
  | optional inner ih =>
    by_cases hv : v = .null
    · subst hv
      exact ⟨fun _ => .inl rfl, fun _ => rfl⟩
    · rw [misfit?_optional hv, ih]
      exact ⟨.inr, fun h => h.resolve_left hv⟩
  | _ => exact (misfit?_of_demands rfl).1

theorem toInteger_of_not_conforms {v : Value} (h : ¬ Shape.integer.Conforms v) :
    v.toInteger = .error (report (.integer, v)) := by
  cases v with
  | number x =>
    rcases x.value?_cases with ⟨i, hv⟩ | hw
    · have hw : x.isWhole = true := Number.isWhole_iff.2 ⟨i, hv⟩
      have hi : ¬ (Int64.minValue.toInt ≤ i ∧ i ≤ Int64.maxValue.toInt) :=
        fun hi => h ⟨x, rfl, i, hv, hi⟩
      rw [toInteger_of_value hv, if_neg hi, report_integer, if_pos hw, if_pos hw]
    · have hw : ¬ x.isWhole = true := ne_true_of_eq_false hw
      rw [toInteger_of_not_whole (eq_false_of_ne_true hw), report_integer, if_neg hw, if_neg hw]
  | _ => rfl

theorem toNatural_of_not_conforms {width : Width} {v : Value}
    (h : ¬ (Shape.natural width).Conforms v) :
    v.toNatural width = .error (report (.natural width, v)) := by
  cases v with
  | number x =>
    rcases x.value?_cases with ⟨i, hv⟩ | hw
    · have hi : ¬ (0 ≤ i ∧ i < width.bound) := by
        rintro ⟨h0, hb⟩
        lift i to ℕ using h0
        exact h ⟨x, rfl, i, hv, Int.ofNat_lt.1 hb⟩
      rw [toNatural_of_value width hv, if_neg hi]
      rfl
    · rw [toNatural_of_not_whole width hw]
      rfl
  | _ => rfl

theorem toBoolean_of_not_conforms {v : Value} (h : ¬ Shape.bool.Conforms v) :
    v.toBoolean = .error (report (.bool, v)) := by
  cases v with
  | bool b => exact absurd ⟨b, rfl⟩ h
  | string s =>
    by_cases hs : s ∈ booleanWords
    · rw [toBoolean, if_pos hs, report_bool, if_pos hs, if_pos hs]
    · rw [toBoolean, if_neg hs, report_bool, if_neg hs, if_neg hs]
      rfl
  | _ => rfl

/-- What fails is reported as its first misfit is. -/
theorem toShape_of_misfit? {shape : Shape} {v : Value} {part : Shape × Value}
    (h : shape.misfit? v = some part) : v.toShape shape = .error (report part) := by
  induction shape generalizing v with
  | list item ih =>
    by_cases hv : ∃ items, v = .array items
    · obtain ⟨items, rfl⟩ := hv
      rw [misfit?_list, List.findSome?_eq_some_iff] at h
      obtain ⟨before, w, after, rfl, hw, hb⟩ := h
      -- the items in front have no misfit, so they convert and the failure is that of this one
      apply mapM_eq_error _ (ih hw)
      intro b hm
      exact exists_toShape_iff.2 (misfit?_eq_none_iff.1 (hb b hm))
    · have hd : (Shape.list item).demands v = [(.list item, v)] :=
        demands_list_of_ne fun items h => hv ⟨items, h⟩
      obtain ⟨rfl, -⟩ := (misfit?_of_demands hd).2 part h
      cases v with
      | array items => exact absurd ⟨items, rfl⟩ hv
      | _ => rfl
  | optional inner ih =>
    by_cases hv : v = .null
    · subst hv
      cases h
    · rw [misfit?_optional hv] at h
      rw [toShape_optional hv, ih h]
      rfl
  | string =>
    obtain ⟨rfl, hc⟩ := (misfit?_of_demands rfl).2 part h
    cases v with
    | string s => exact absurd ⟨s, rfl⟩ hc
    | _ => rfl
  | number =>
    obtain ⟨rfl, hc⟩ := (misfit?_of_demands rfl).2 part h
    cases v with
    | number x => exact absurd ⟨x, rfl⟩ hc
    | _ => rfl
  | table =>
    obtain ⟨rfl, hc⟩ := (misfit?_of_demands rfl).2 part h
    cases v with
    | object members => exact absurd ⟨members, rfl⟩ hc
    | _ => rfl
  | integer =>
    obtain ⟨rfl, hc⟩ := (misfit?_of_demands rfl).2 part h
    exact toInteger_of_not_conforms hc
  | natural width =>
    obtain ⟨rfl, hc⟩ := (misfit?_of_demands rfl).2 part h
    exact toNatural_of_not_conforms hc
  | bool =>
    obtain ⟨rfl, hc⟩ := (misfit?_of_demands rfl).2 part h
    exact toBoolean_of_not_conforms hc

theorem toShape_eq_error_iff {shape : Shape} {v : Value} {e : Error} :
    v.toShape shape = .error e ↔ ∃ part, shape.misfit? v = some part ∧ e = report part := by
  constructor
  · intro h
    cases hm : shape.misfit? v with
    | none =>
      obtain ⟨x, hx⟩ := exists_toShape_iff.2 (misfit?_eq_none_iff.1 hm)
      rw [hx] at h
      cases h
    | some part =>
      rw [toShape_of_misfit? hm] at h
      exact ⟨part, rfl, (Except.error.inj h).symm⟩
  · rintro ⟨part, hm, rfl⟩
    exact toShape_of_misfit? hm

section Accessors

variable {v w : Value} {shape : Shape} {path : String}

theorem getAs_of_absent (h : v.get? path = none) :
    v.getAs shape path = .error (.missingPath path) := by
  rw [getAs, require, h]
  rfl

theorem getAs_of_conforms (h : v.get? path = some w) (hc : shape.Conforms w) :
    ∃ x, v.getAs shape path = .ok x := by
  obtain ⟨x, hx⟩ := exists_toShape_iff.2 hc
  refine ⟨x, ?_⟩
  rw [getAs, require, h]
  show (w.toShape shape).mapError (locate path) = .ok x
  rw [hx]
  rfl

theorem getAs_of_misfit? {part : Shape × Value} (h : v.get? path = some w)
    (hm : shape.misfit? w = some part) :
    v.getAs shape path = .error (.typeMismatch
      (part.1.complaint part.2 ++ " at '" ++ path ++ "'") (some (part.1.remedy part.2))) := by
  rw [getAs, require, h]
  show (w.toShape shape).mapError (locate path) = _
  rw [toShape_of_misfit? hm]
  rfl

/-- Only a path that does not resolve is reported as missing. -/
theorem getAs_eq_missingPath_iff {other : String} :
    v.getAs shape path = .error (.missingPath other) ↔ other = path ∧ v.get? path = none := by
  cases h : v.get? path with
  | none =>
    rw [getAs_of_absent h]
    constructor
    · intro he
      cases he
      exact ⟨rfl, rfl⟩
    · rintro ⟨rfl, -⟩
      rfl
  | some w =>
    refine ⟨fun he => ?_, nofun⟩
    cases hm : shape.misfit? w with
    | none =>
      obtain ⟨x, hx⟩ := getAs_of_conforms h (misfit?_eq_none_iff.1 hm)
      rw [hx] at he
      cases he
    | some part =>
      rw [getAs_of_misfit? h hm] at he
      cases he

theorem getOptional_eq_none_iff :
    v.getOptional shape path = .ok none ↔ v.get? path = none := by
  constructor
  · intro ho
    rw [getOptional] at ho
    split at ho
    · cases ho
    next other h => exact (getAs_eq_missingPath_iff.1 h).2
    · cases ho
  · intro h
    rw [getOptional, getAs_of_absent h]

end Accessors

theorem conforms_null_iff {shape : Shape} :
    shape.Conforms .null ↔ ∃ inner, shape = .optional inner := by
  cases shape with
  | optional inner => exact ⟨fun _ => ⟨inner, rfl⟩, fun _ => .inl rfl⟩
  | _ => simp [Conforms]

/-- A conversion succeeds exactly on the values that conform to the type at every depth, and reads
them in order; it fails with the report of the first part that does not conform. So a path that does
not resolve and a value of another type are never taken for each other. -/
theorem typed_access (shape : Shape) :
    (∀ w : Value,
      (∀ x, w.toShape shape = .ok x ↔ shape.Reads w x) ∧
      ((∃ x, w.toShape shape = .ok x) ↔ shape.Conforms w) ∧
      (∀ e, w.toShape shape = .error e ↔
        ∃ part, shape.misfit? w = some part ∧ e = report part) ∧
      ∀ path, w.toShape shape ≠ .error (.missingPath path)) ∧
    (shape.Conforms .null ↔ ∃ inner, shape = .optional inner) ∧
    ∀ (v : Value) (path : String),
      (v.getOptional shape path = .ok none ↔ v.get? path = none) ∧
      (∀ other, v.getAs shape path = .error (.missingPath other) ↔
        other = path ∧ v.get? path = none) ∧
      ∀ w, v.get? path = some w → ¬ shape.Conforms w →
        ∃ part e, shape.misfit? w = some part ∧
          e = Error.typeMismatch (part.1.complaint part.2 ++ " at '" ++ path ++ "'")
            (some (part.1.remedy part.2)) ∧
          v.getAs shape path = .error e ∧ v.getOptional shape path = .error e ∧
          ∀ instead, v.getOr shape path instead = instead := by
  refine ⟨fun w => ⟨fun x => toShape_eq_ok_iff, exists_toShape_iff,
    fun e => toShape_eq_error_iff, ?_⟩, conforms_null_iff, fun v path =>
    ⟨getOptional_eq_none_iff, fun other => getAs_eq_missingPath_iff, ?_⟩⟩
  · intro path h
    obtain ⟨part, -, he⟩ := toShape_eq_error_iff.1 h
    cases he
  · intro w h hc
    obtain ⟨part, hm⟩ := Option.ne_none_iff_exists'.1 fun hm => hc (misfit?_eq_none_iff.1 hm)
    have he := getAs_of_misfit? h hm
    refine ⟨part, _, hm, rfl, he, ?_, fun instead => ?_⟩
    · rw [getOptional, he]
    · rw [getOr, he]

/-- An option of a list takes null, but not a list with a string between its numbers. -/
theorem typed_access_nested :
    let items := Value.array [.number (.ofInt 80), .null, .string "http"]
    let v := Value.object [("ports", items)]
    let shape := Shape.optional (.list (.optional (.natural .short)))
    v.get? "ports" = some items ∧ ¬ shape.Conforms items ∧
      ∃ e, v.getAs shape "ports" = .error e ∧ v.getOptional shape "ports" = .error e ∧
        v.getOr shape "ports" none = none := by
  intro items v shape
  have hget : v.get? "ports" = some items := by
    rw [get?, show Path.ofText "ports" = [.key "ports"] by decide +kernel]
    rfl
  have hc : ¬ shape.Conforms items := by
    simp [shape, items, Conforms]
  obtain ⟨-, e, -, -, ha, ho, hd⟩ := ((typed_access shape).2.2 v "ports").2.2 items hget hc
  exact ⟨hget, hc, e, ha, ho, hd none⟩

end Value

end ConfigDoc
