import ConfigDoc.Proofs.Table
import ConfigDoc.Reference

/-! Slots of a tree of values: what is written into one is found there, and nothing else changes. -/

namespace ConfigDoc

namespace Value

theorem lookup?_cons (v : Value) (step : Segment) (rest : Path) :
    v.lookup? (step :: rest) = (v.member? step).bind fun w => w.lookup? rest := rfl

theorem lookup?_singleton (v : Value) (step : Segment) : v.lookup? [step] = v.member? step := by
  simp [lookup?_cons]

theorem assign?_cons (v : Value) (step : Segment) (rest : Path) (w : Value) :
    v.assign? (step :: rest) w = (v.member? step).bind fun part =>
      (part.assign? rest w).bind fun changed => v.setMember? step changed := rfl

theorem assign?_append (v : Value) (p q : Path) (w : Value) :
    v.assign? (p ++ q) w = (v.lookup? p).bind fun part =>
      (part.assign? q w).bind fun changed => v.assign? p changed := by
  induction p generalizing v with
  | nil => simp [assign?]
  | cons step rest ih =>
    simp only [List.cons_append, assign?_cons, lookup?_cons, ih, Option.bind_assoc]
    cases v.member? step <;> rfl

theorem setMember?_key (members : Table Value) (name : String) (w : Value) :
    (object members).setMember? (.key name) w =
      if name ∈ Table.names members then some (.object (Table.insert members name w)) else none :=
  if_congr Table.has_iff rfl rfl

theorem setMember?_index (items : List Value) (position : Nat) (w : Value) :
    (array items).setMember? (.index position) w =
      if position < items.length then some (.array (items.set position w)) else none := rfl

/-- Only what is there can be replaced. -/
theorem member?_isSome_of_setMember? {v w changed : Value} {step : Segment}
    (h : v.setMember? step w = some changed) : (v.member? step).isSome := by
  cases v with
  | object members =>
    unfold setMember? at h
    dsimp only at h
    split at h
    · rename_i hm
      exact hm
    · cases h
  | array items =>
    obtain ⟨position, hp, h⟩ := Option.bind_eq_some_iff.1 h
    split at h
    · rename_i hl
      simp [member?, hp, hl]
    · cases h
  | _ => cases h

theorem assign?_singleton (v : Value) (step : Segment) (w : Value) :
    v.assign? [step] w = v.setMember? step w := by
  rw [assign?_cons]
  cases h : v.setMember? step w with
  | none => cases v.member? step <;> simp [assign?, h]
  | some changed =>
    obtain ⟨part, hp⟩ := Option.isSome_iff_exists.1 (member?_isSome_of_setMember? h)
    simp [hp, assign?, h]

/-- What is put at a step is found there. -/
theorem member?_of_setMember? {v w changed : Value} {step : Segment}
    (h : v.setMember? step w = some changed) : changed.member? step = some w := by
  cases v with
  | object members =>
    unfold setMember? at h
    dsimp only at h
    split at h
    · cases h
      exact Table.find?_insert_self members step.text w
    · cases h
  | array items =>
    obtain ⟨position, hp, h⟩ := Option.bind_eq_some_iff.1 h
    split at h
    · rename_i hl
      cases h
      simp [member?, hp, hl]
    · cases h
  | _ => cases h

/-- What is put at a path is found there. -/
theorem lookup?_of_assign? {v w changed : Value} {path : Path}
    (h : v.assign? path w = some changed) : changed.lookup? path = some w := by
  induction path generalizing v changed with
  | nil =>
    cases h
    rfl
  | cons step rest ih =>
    obtain ⟨part, -, h⟩ := Option.bind_eq_some_iff.1 h
    obtain ⟨part', hp, h⟩ := Option.bind_eq_some_iff.1 h
    rw [lookup?_cons, member?_of_setMember? h]
    exact ih hp

end Value

namespace Reference

theorem get?_eq_lookup? (r : Reference) (root : Value) :
    r.get? root = root.lookup? r.location := by
  rw [location, Value.lookup?_append]
  simp only [Value.lookup?_singleton]
  rfl

/-- In a container of the right kind, an existing slot is written as a member is replaced. -/
theorem store_of_setMember? {v w changed : Value} {key : Segment} (hf : fits v key = true)
    (h : v.setMember? key w = some changed) : store v key w = .ok changed := by
  cases v with
  | object members =>
    cases key with
    | key name =>
      rw [Value.setMember?_key] at h
      split at h
      · cases h
        rfl
      · cases h
    | index position => cases hf
  | array items =>
    cases key with
    | key name => cases hf
    | index position =>
      rw [Value.setMember?_index] at h
      split at h
      · rename_i hl
        cases h
        exact if_pos hl
      · cases h
  | _ => cases hf

/-- The slot of a reference exists, in a container of the right kind, and holds a value. -/
structure PointsTo (root : Value) (r : Reference) (v : Value) : Prop where
  lookup : root.lookup? r.location = some v
  fits : ∃ container, root.lookup? r.container = some container ∧ fits container r.key = true

theorem value_of_pointsTo {root v : Value} {r : Reference} (h : PointsTo root r v) :
    r.value root = v := by
  rw [value, get?_eq_lookup?, h.lookup, Option.getD_some]

theorem replace_of_pointsTo {root v root' : Value} {r : Reference} {change : Value → Value}
    (h : PointsTo root r v) (ha : root.assign? r.location (change v) = some root') :
    r.replace root change = .ok root' := by
  obtain ⟨container, hc, hf⟩ := h.fits
  rw [location, Value.assign?_append, hc, Option.bind_some, Value.assign?_singleton] at ha
  obtain ⟨changed, hs, ha⟩ := Option.bind_eq_some_iff.1 ha
  rw [replace, hc]
  dsimp only
  rw [value_of_pointsTo h, store_of_setMember? hf hs]
  dsimp only
  rw [ha]

theorem set_of_pointsTo {root v w root' : Value} {r : Reference} (h : PointsTo root r v)
    (ha : root.assign? r.location w = some root') : r.set root w = .ok root' :=
  replace_of_pointsTo h ha

theorem error_of_new {root : Value} {container : Path} {key : Segment} {path : String} {e : Error}
    (h : new root container key path = .error e) : ∃ fault : Fault, e = fault.toError path := by
  unfold new at h
  split at h
  · cases h
    exact ⟨_, rfl⟩
  · split at h
    · cases h
    · cases h
      exact ⟨_, rfl⟩

theorem error_of_replace {root : Value} {r : Reference} {change : Value → Value} {e : Error}
    (h : r.replace root change = .error e) : ∃ fault : Fault, e = fault.toError r.path := by
  unfold replace at h
  split at h
  · cases h
    exact ⟨_, rfl⟩
  · split at h
    · cases h
      exact ⟨_, rfl⟩
    · split at h
      · cases h
      · cases h
        exact ⟨_, rfl⟩

structure Focuses (r : Reference) (context : Value → Value) : Prop where
  pointsTo (v : Value) : PointsTo (context v) r v
  assign (v w : Value) : (context v).assign? r.location w = some (context w)

variable {r : Reference} {context : Value → Value}

theorem Focuses.set (h : Focuses r context) (v w : Value) :
    r.set (context v) w = .ok (context w) :=
  set_of_pointsTo (h.pointsTo v) (h.assign v w)

theorem Focuses.value (h : Focuses r context) (v : Value) : r.value (context v) = v :=
  value_of_pointsTo (h.pointsTo v)

def below (r : Reference) (step : Segment) : Reference := ⟨r.location, step, step.below r.path⟩

@[simp] theorem location_below (r : Reference) (step : Segment) :
    (r.below step).location = r.location ++ [step] := rfl

theorem Focuses.lookup_below (h : Focuses r context) (v : Value) (rest : Path) :
    (context v).lookup? (r.location ++ rest) = v.lookup? rest := by
  rw [Value.lookup?_append, (h.pointsTo v).lookup, Option.bind_some]

theorem Focuses.descend (h : Focuses r context) {v : Value} {step : Segment}
    (hf : fits v step = true) : r.descend (context v) step = .ok (r.below step) := by
  rw [Reference.descend, new, (h.pointsTo v).lookup]
  exact if_pos hf

/-- A hole within what fills a hole. -/
theorem Focuses.comp (h : Focuses r context) (inner : Value → Value) {step : Segment}
    (hf : ∀ v, Reference.fits (inner v) step = true) (hm : ∀ v, (inner v).member? step = some v)
    (hs : ∀ v w, (inner v).setMember? step w = some (inner w)) :
    Focuses (r.below step) fun v => context (inner v) where
  pointsTo v := {
    lookup := by rw [location_below, h.lookup_below, Value.lookup?_singleton, hm]
    fits := ⟨inner v, (h.pointsTo _).lookup, hf v⟩ }
  assign v w := by
    rw [location_below, Value.assign?_append, (h.pointsTo _).lookup, Option.bind_some,
      Value.assign?_singleton, hs, Option.bind_some, h.assign]

/-- A hole right below the root. -/
theorem focuses_root {key : Segment} (path : String) (hf : ∀ v, fits (context v) key = true)
    (hm : ∀ v, (context v).member? key = some v)
    (hs : ∀ v w, (context v).setMember? key w = some (context w)) :
    Focuses ⟨[], key, path⟩ context where
  pointsTo v := {
    lookup := (Value.lookup?_singleton _ key).trans (hm v)
    fits := ⟨context v, rfl, hf v⟩ }
  assign v w := (Value.assign?_singleton _ key w).trans (hs v w)

def rootOf (v : Value) : Value := .object [(documentName, v)]

theorem focuses_document : Focuses document rootOf :=
  @focuses_root rootOf _ documentName (fun _ => rfl) (fun _ => rfl) fun _ _ => rfl

theorem Focuses.member (h : Focuses r context) (members : Table Value) (name : String) :
    Focuses (r.below (.key name)) fun v => context (.object (members.insert name v)) := by
  refine h.comp (fun v => .object (members.insert name v)) (fun v => rfl) (fun v => ?_)
    fun v w => ?_
  · exact Table.find?_insert_self members name v
  · rw [Value.setMember?_key, if_pos (Table.mem_names_insert.2 (.inl rfl)), Table.insert_insert]

theorem Focuses.member_append (h : Focuses r context) {before : Table Value} (after : Table Value)
    {name : String} (hb : name ∉ before.names) :
    Focuses (r.below (.key name)) fun v => context (.object (before ++ (name, v) :: after)) := by
  have hm := h.member (before ++ (name, .null) :: after) name
  simpa only [Table.insert_append_cons hb] using hm

theorem member?_array_append (before after : List Value) (v : Value) :
    (Value.array (before ++ v :: after)).member? (.index before.length) = some v := by
  simp [Value.member?, Segment.position?]

theorem setMember?_array_append (before after : List Value) (v w : Value) :
    (Value.array (before ++ v :: after)).setMember? (.index before.length) w =
      some (.array (before ++ w :: after)) := by
  simp [Value.setMember?_index]

theorem Focuses.item (h : Focuses r context) (before after : List Value) :
    Focuses (r.below (.index before.length)) fun v => context (.array (before ++ v :: after)) :=
  h.comp (fun v => .array (before ++ v :: after)) (fun _ => rfl)
    (member?_array_append before after) (setMember?_array_append before after)

/-- A slot into which writing turns the tree into one with the value in its hole. -/
structure Opens (r : Reference) (root : Value) (context : Value → Value) : Prop where
  focuses : Focuses r context
  set (v : Value) : r.set root v = .ok (context v)

theorem Focuses.opens (h : Focuses r context) (v : Value) : Opens r (context v) context :=
  ⟨h, h.set v⟩

theorem set_of_store {root container w changed root' : Value}
    (hl : root.lookup? r.container = some container) (hs : store container r.key w = .ok changed)
    (ha : root.assign? r.container changed = some root') : r.set root w = .ok root' := by
  rw [Reference.set, replace, hl]
  dsimp only
  rw [hs]
  dsimp only
  rw [ha]

theorem Focuses.opens_member (h : Focuses r context) (members : Table Value) (name : String) :
    Opens (r.below (.key name)) (context (.object members))
      fun v => context (.object (members.insert name v)) :=
  ⟨h.member members name, fun _ => set_of_store (h.pointsTo _).lookup rfl (h.assign _ _)⟩

theorem Focuses.opens_item (h : Focuses r context) (items : List Value) :
    Opens (r.below (.index items.length)) (context (.array items))
      fun v => context (.array (items ++ [v])) :=
  ⟨h.item items [], fun _ => set_of_store (h.pointsTo _).lookup
    (by simp [store, below]) (h.assign _ _)⟩

/-- The next item of a list that is the root. -/
theorem opens_next (path : String) (items : List Value) :
    Opens ⟨[], .index items.length, path⟩ (.array items) fun v => .array (items ++ [v]) :=
  ⟨@focuses_root (fun v => .array (items ++ [v])) _ path (fun _ => rfl)
    (member?_array_append items []) (setMember?_array_append items []),
    fun _ => set_of_store rfl (by simp [store]) rfl⟩

/-- What is stored at a step is found there. -/
theorem member?_of_store {v w changed : Value} {key : Segment} (h : store v key w = .ok changed) :
    changed.member? key = some w := by
  unfold store at h
  split at h
  · cases h
    exact Table.find?_insert_self _ _ w
  · split at h
    · rename_i hl
      cases h
      simp [Value.member?, Segment.position?, hl]
    · split at h
      · rename_i he
        cases h
        simp [Value.member?, Segment.position?, he]
      · cases h
  · cases h

/-- A write through a reference stores at its key and puts the container back. -/
theorem store_of_set {root w root' : Value} {r : Reference} (h : r.set root w = .ok root') :
    ∃ container changed, root.lookup? r.container = some container ∧
      store container r.key w = .ok changed ∧ root.assign? r.container changed = some root' := by
  rw [Reference.set, replace] at h
  split at h
  · cases h
  · rename_i container hc
    split at h
    · cases h
    · rename_i changed hs
      split at h
      · rename_i ha
        cases h
        exact ⟨container, changed, hc, hs, ha⟩
      · cases h

/-- What is written into a slot is found there. -/
theorem get?_of_set {root w root' : Value} {r : Reference} (h : r.set root w = .ok root') :
    r.get? root' = some w := by
  obtain ⟨container, changed, -, hs, ha⟩ := store_of_set h
  rw [Reference.get?, Value.lookup?_of_assign? ha]
  exact member?_of_store hs

/-- A write within the document leaves the root around it as it is. -/
theorem rootOf_of_set {v w root' : Value} {r : Reference} (hr : document.location <+: r.location)
    (h : r.set (rootOf v) w = .ok root') : ∃ v', root' = rootOf v' := by
  obtain ⟨container, changed, hc, hs, ha⟩ := store_of_set h
  obtain ⟨rest, hr⟩ := hr
  change .key documentName :: rest = r.container ++ [r.key] at hr
  cases hcont : r.container with
  | nil =>
    rw [hcont] at hr hc ha
    cases hc
    cases ha
    obtain ⟨hk, -⟩ := List.cons.inj hr
    rw [← hk] at hs
    cases hs
    exact ⟨w, rfl⟩
  | cons step path =>
    rw [hcont] at hr ha
    obtain ⟨rfl, -⟩ := List.cons.inj hr
    obtain ⟨part, -, ha⟩ := Option.bind_eq_some_iff.1 ha
    obtain ⟨v', -, ha⟩ := Option.bind_eq_some_iff.1 ha
    cases ha
    exact ⟨v', rfl⟩

end Reference

end ConfigDoc
