import ConfigDoc.Proofs.Json.Stored
import ConfigDoc.Proofs.Table

namespace ConfigDoc

namespace Value

/-- No object in the value names a member twice. -/
inductive Distinct : Value → Prop where
  | null : Distinct .null
  | bool (b : Bool) : Distinct (.bool b)
  | number (x : Number) : Distinct (.number x)
  | string (s : String) : Distinct (.string s)
  | template (t : Template) : Distinct (.template t)
  | array {items : List Value} (parts : ∀ v ∈ items, Distinct v) : Distinct (.array items)
  | object {members : List (String × Value)} (names : (Table.names members).Nodup)
      (parts : ∀ m ∈ members, Distinct m.2) : Distinct (.object members)

/-- The numbers in the value are finite, and no template waits in it. -/
inductive Plain : Value → Prop where
  | null : Plain .null
  | bool (b : Bool) : Plain (.bool b)
  | number {x : Number} (finite : x.units?.isSome) : Plain (.number x)
  | string (s : String) : Plain (.string s)
  | array {items : List Value} (parts : ∀ v ∈ items, Plain v) : Plain (.array items)
  | object {members : List (String × Value)} (parts : ∀ m ∈ members, Plain m.2) :
      Plain (.object members)

mutual

/-- What JSON can hold of a value: a number that is not finite becomes null, and a template its
source. -/
def normal : Value → Value
  | .number x => if x.units?.isSome then .number x else .null
  | .template t => .string t.source
  | .array items => .array (normalItems items)
  | .object members => .object (normalMembers members)
  | v => v
termination_by structural v => v

def normalItems : List Value → List Value
  | [] => []
  | v :: rest => normal v :: normalItems rest
termination_by structural vs => vs

def normalMembers : List (String × Value) → List (String × Value)
  | [] => []
  | (name, v) :: rest => (name, normal v) :: normalMembers rest
termination_by structural ms => ms

end

theorem normalItems_eq (vs : List Value) : normalItems vs = vs.map normal := by
  induction vs with
  | nil => rfl
  | cons v rest ih => rw [normalItems, ih, List.map_cons]

theorem normalMembers_eq (ms : List (String × Value)) :
    normalMembers ms = Table.mapValues normal ms := by
  induction ms with
  | nil => rfl
  | cons m rest ih =>
    rw [normalMembers, ih]
    rfl

/-- Where JSON can hold everything, nothing is changed. -/
theorem normal_of_plain {v : Value} (h : v.Plain) : v.normal = v := by
  induction h with
  | number finite => exact if_pos finite
  | @array items _ ih =>
    have hm : items.map normal = items.map id := List.map_congr_left ih
    rw [normal, normalItems_eq, hm, List.map_id]
  | @object members _ ih =>
    have hm : Table.mapValues normal members = Table.mapValues id members := Table.mapValues_congr ih
    rw [normal, normalMembers_eq, hm]
    exact congrArg Value.object (List.map_id members)
  | _ => rfl

section Storing

variable {store : Json → Except String Json}

/-- Whatever a document consists of, a store takes it. -/
theorem store_toJson (hs : Json.Faithful store) {v : Value} (hv : v.Distinct) :
    store v.toJson = .ok v.toJson.stored := by
  induction hv with
  | null => exact hs.null
  | bool b => exact hs.bool b
  | string s => exact hs.string s
  | template t => exact hs.string t.source
  | number x =>
    rw [toJson]
    rcases x.toJson_cases with ⟨i, -, hi, h⟩ | h
    · rw [h]
      exact hs.integer i (Number.int64_of_small hi).1 (Number.int64_of_small hi).2
    · rw [h, Json.stored]
      cases hu : x.units? with
      | some u => exact hs.finite x (by rw [hu]; rfl)
      | none => exact hs.other x hu
  | @array items _ ih =>
    rw [toJson_array, Json.stored_array]
    apply hs.array
    rw [List.map_map, List.forall₂_map_left_iff, List.forall₂_map_right_iff, List.forall₂_same]
    exact ih
  | @object members names _ ih =>
    rw [toJson_object, Json.stored_object]
    apply hs.object
    · rwa [Table.names_mapValues]
    · rw [Table.mapValues_mapValues, Table.mapValues, Table.mapValues, List.forall₂_map_left_iff,
        List.forall₂_map_right_iff, List.forall₂_same]
      exact fun m hm => ⟨rfl, ih m hm⟩

theorem exportJson_eq (hs : Json.Faithful store) {v : Value} (hv : v.Distinct) :
    v.exportJson store = .ok v.toJson.stored := by
  rw [exportJson, store_toJson hs hv]
  rfl

end Storing

def returned (v : Value) : Value := ofJson v.toJson.stored

@[simp] theorem returned_array (items : List Value) :
    (Value.array items).returned = .array (items.map returned) := by
  simp only [returned, toJson_array, Json.stored_array, ofJson_array, List.map_map]
  rfl

@[simp] theorem returned_object (members : List (String × Value)) :
    (Value.object members).returned = .object (Table.mapValues returned members).sortByName := by
  simp only [returned, toJson_object, Json.stored_object, ofJson_object, Table.mapValues_sortByName,
    Table.mapValues_mapValues]
  rfl

theorem distinct_returned {v : Value} (h : v.Distinct) : v.returned.Distinct := by
  induction h with
  | null => exact .null
  | bool b => exact .bool b
  | string s => exact .string s
  | template t => exact .string t.source
  | number x =>
    rw [returned, toJson]
    rcases x.toJson_cases with ⟨i, -, -, h⟩ | h
    · rw [h]
      exact .number _
    · rw [h, Json.stored]
      split
      · exact .number x
      · exact .null
  | array _ ih =>
    rw [returned_array]
    refine .array fun w hw => ?_
    obtain ⟨v, hv, rfl⟩ := List.mem_map.1 hw
    exact ih v hv
  | @object members names _ ih =>
    rw [returned_object]
    have hp := Table.sortByName_perm (Table.mapValues returned members)
    refine .object ?_ fun m hm => ?_
    · rw [← Table.names_mapValues returned members] at names
      exact (hp.map Prod.fst).nodup_iff.2 names
    · obtain ⟨n, hn, rfl⟩ := List.mem_map.1 (hp.mem_iff.1 hm)
      exact ih n hn

/-- What has been stored once is stored again as the same. -/
theorem stored_returned {v : Value} (h : v.Distinct) :
    v.returned.toJson.stored = v.toJson.stored := by
  induction h with
  | number x =>
    rw [returned, toJson]
    rcases x.toJson_cases with ⟨i, -, hi, h⟩ | h
    · rw [h]
      show (Number.ofInt i).toJson.stored = _
      rw [Number.toJson_of_small (Number.value?_ofInt hi) hi]
    · rw [h, Json.stored]
      split
      · rename_i hu
        rw [ofJson, toJson, h, Json.stored, if_pos hu]
      · rfl
  | @array items _ ih =>
    rw [returned_array, toJson_array, Json.stored_array, toJson_array, Json.stored_array]
    simp only [List.map_map]
    exact congrArg Json.array (List.map_congr_left ih)
  | @object members _ _ ih =>
    rw [returned_object, toJson_object, Json.stored_object, toJson_object, Json.stored_object]
    simp only [Table.mapValues_sortByName, Table.mapValues_mapValues, Table.sortByName_sortByName]
    exact congrArg (fun ms => Json.object (Table.sortByName ms)) (Table.mapValues_congr ih)
  | _ => rfl

theorem equalItems_map {f g : Value → Value} {vs : List Value}
    (h : ∀ v ∈ vs, equal (f v) (g v) = true) : equalItems (vs.map f) (vs.map g) = true := by
  induction vs with
  | nil => rfl
  | cons v rest ih =>
    rw [List.map_cons, List.map_cons, equalItems, h v List.mem_cons_self,
      ih fun w hw => h w (List.mem_cons_of_mem _ hw)]
    rfl

theorem equalMembers_of_find? {ms : List (String × Value)} {table : Table Value}
    (h : ∀ m ∈ ms, ∃ w, table.find? m.1 = some w ∧ equal m.2 w = true) :
    equalMembers ms table = true := by
  induction ms with
  | nil => rfl
  | cons m rest ih =>
    obtain ⟨w, hw, he⟩ := h m List.mem_cons_self
    rw [equalMembers, hw]
    simp only [he, Bool.true_and]
    exact ih fun n hn => h n (List.mem_cons_of_mem _ hn)

theorem equal_self_number {x : Number} (h : x.units?.isSome) : x.equal x = true := by
  obtain ⟨q, hq⟩ := Number.units?_isSome_iff.1 h
  rw [Number.equal_of_value hq hq]
  exact decide_eq_true rfl

theorem equal_returned_normal {v : Value} (h : v.Distinct) : equal v.returned v.normal = true := by
  induction h with
  | null => rfl
  | bool b => exact beq_self_eq_true b
  | string s => exact beq_self_eq_true s
  | template t => exact beq_self_eq_true t.source
  | number x =>
    rw [returned, toJson, normal]
    rcases x.toJson_cases with ⟨i, hv, hi, h⟩ | h
    · rw [h, if_pos (Number.units?_isSome_iff.2 ⟨_, hv⟩)]
      show (Number.ofInt i).equal x = true
      rw [Number.equal_of_value (Number.value?_ofInt hi) hv]
      exact decide_eq_true rfl
    · rw [h, Json.stored]
      split
      · rename_i hu
        exact equal_self_number hu
      · rfl
  | array _ ih =>
    rw [returned_array, normal, normalItems_eq]
    exact equalItems_map ih
  | @object members names _ ih =>
    rw [returned_object, normal, normalMembers_eq, equal]
    have hp := Table.sortByName_perm (Table.mapValues returned members)
    have hl : (Table.mapValues returned members).sortByName.length =
        (Table.mapValues normal members).length := by
      rw [hp.length_eq]
      simp [Table.mapValues]
    rw [hl, beq_self_eq_true, Bool.true_and]
    -- a member is looked up under its name, wherever it has come to stand
    apply equalMembers_of_find?
    intro m hm
    obtain ⟨n, hn, rfl⟩ := List.mem_map.1 (hp.mem_iff.1 hm)
    refine ⟨n.2.normal, Table.find?_of_mem ?_ (List.mem_map_of_mem hn), ih n hn⟩
    rwa [Table.names_mapValues]

/-- A document without repeated names is always exported. What comes back is equal to it up to
numbers that are not finite and templates, and is exported again as the very same JSON value, the
order of members included. -/
theorem exportJson_returns {store : Json → Except String Json} (hs : Json.Faithful store) {v : Value}
    (hv : v.Distinct) :
    ∃ j, v.exportJson store = .ok j ∧ equal (ofJson j) v.normal = true ∧
      (v.Plain → equal (ofJson j) v = true) ∧
      ∃ k, (ofJson j).exportJson store = .ok k ∧ ofJson k = ofJson j := by
  have he := equal_returned_normal hv
  refine ⟨v.toJson.stored, exportJson_eq hs hv, he, ?_, v.toJson.stored, ?_, rfl⟩
  · intro hp
    rwa [normal_of_plain hp] at he
  · calc (ofJson v.toJson.stored).exportJson store
      _ = .ok v.returned.toJson.stored := exportJson_eq hs (distinct_returned hv)
      _ = .ok v.toJson.stored := by rw [stored_returned hv]

def edges : Value := .array [.number (.ofInt (2 ^ 53 + 2)), .number (Number.ofInt 0).negate]

/-- Members out of order, with NaN and a template. -/
def mixed : Value :=
  .object [("z", .array [edges, .number .nan]), ("a", .object [("t", .template ⟨"$\x7bz[0]\x7d"⟩)])]

theorem distinct_edges : edges.Distinct := by
  refine .array ?_
  simp only [List.forall_mem_cons]
  exact ⟨.number _, .number _, by simp⟩

theorem plain_edges : edges.Plain := by
  refine .array ?_
  simp only [List.forall_mem_cons]
  exact ⟨.number (by decide +kernel), .number (by decide +kernel), by simp⟩

theorem distinct_mixed : mixed.Distinct := by
  refine .object (by decide) ?_
  simp only [List.forall_mem_cons]
  refine ⟨.array ?_, .object (by decide) ?_, by simp⟩
  · simp only [List.forall_mem_cons]
    exact ⟨distinct_edges, .number _, by simp⟩
  · simp only [List.forall_mem_cons]
    exact ⟨.template _, by simp⟩

theorem exportJson_returns_mixed :
    (Json.Faithful Json.store ∧ mixed.Distinct ∧
      ∃ j, mixed.exportJson Json.store = .ok j ∧ equal (ofJson j) mixed.normal = true ∧
        ∃ k, (ofJson j).exportJson Json.store = .ok k ∧ ofJson k = ofJson j) ∧
      edges.Distinct ∧ edges.Plain ∧
        ∃ j, edges.exportJson Json.store = .ok j ∧ equal (ofJson j) edges = true := by
  obtain ⟨j, hj, hn, -, hk⟩ := exportJson_returns Json.faithful_store distinct_mixed
  obtain ⟨i, hi, -, hp, -⟩ := exportJson_returns Json.faithful_store distinct_edges
  exact ⟨⟨Json.faithful_store, distinct_mixed, j, hj, hn, hk⟩,
    distinct_edges, plain_edges, i, hi, hp plain_edges⟩

end Value

end ConfigDoc
