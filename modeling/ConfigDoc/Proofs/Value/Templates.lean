import ConfigDoc.Error
import ConfigDoc.Proofs.Table
import ConfigDoc.Value.Lookup
import Mathlib.Tactic.Common

namespace ConfigDoc

theorem Template.substitute_congr {f g : String → String} {t : Template}
    (h : ∀ key ∈ t.tokenKeys, f key = g key) : t.substitute f = t.substitute g := by
  unfold substitute
  congr 1
  apply List.map_congr_left
  intro piece hp
  cases piece with
  | literal c => rfl
  | token key => exact h key (List.mem_filterMap.2 ⟨_, hp, rfl⟩)

namespace Value

mutual

/-- Without templates there is nothing to replace. -/
theorem mapTemplates_of_hasTemplate {ε : Type} (resolve : Template → Except ε Value) (v : Value)
    (h : v.hasTemplate = false) : v.mapTemplates resolve = .ok v := by
  cases v with
  | template t => cases h
  | array items =>
    rw [mapTemplates, mapItemTemplates_of_anyTemplate resolve items h]
    rfl
  | object members =>
    rw [mapTemplates, mapMemberTemplates_of_anyMemberTemplate resolve members h]
    rfl
  | _ => rfl
termination_by structural v

theorem mapItemTemplates_of_anyTemplate {ε : Type} (resolve : Template → Except ε Value)
    (vs : List Value) (h : anyTemplate vs = false) : mapItemTemplates resolve vs = .ok vs := by
  cases vs with
  | nil => rfl
  | cons v rest =>
    obtain ⟨hv, hr⟩ := Bool.or_eq_false_iff.1 h
    rw [mapItemTemplates, mapTemplates_of_hasTemplate resolve v hv,
      mapItemTemplates_of_anyTemplate resolve rest hr]
    rfl
termination_by structural vs

theorem mapMemberTemplates_of_anyMemberTemplate {ε : Type}
    (resolve : Template → Except ε Value) (ms : List (String × Value))
    (h : anyMemberTemplate ms = false) : mapMemberTemplates resolve ms = .ok ms := by
  cases ms with
  | nil => rfl
  | cons member rest =>
    obtain ⟨name, v⟩ := member
    obtain ⟨hv, hr⟩ := Bool.or_eq_false_iff.1 h
    rw [mapMemberTemplates, mapTemplates_of_hasTemplate resolve v hv,
      mapMemberTemplates_of_anyMemberTemplate resolve rest hr]
    rfl
termination_by structural ms

end

mutual

def templates : Value → List Template
  | .template t => [t]
  | .array items => itemTemplates items
  | .object members => memberTemplates members
  | _ => []
termination_by structural v => v

def itemTemplates : List Value → List Template
  | [] => []
  | v :: rest => templates v ++ itemTemplates rest
termination_by structural vs => vs

def memberTemplates : List (String × Value) → List Template
  | [] => []
  | (_, v) :: rest => templates v ++ memberTemplates rest
termination_by structural ms => ms

end

mutual

/-- Replaces all templates at once by their texts, `textOf` giving the text of each token. -/
def fill (textOf : String → String) : Value → Value
  | .template t => .string (t.substitute textOf)
  | .array items => .array (fillItems textOf items)
  | .object members => .object (fillMembers textOf members)
  | v => v
termination_by structural v => v

def fillItems (textOf : String → String) : List Value → List Value
  | [] => []
  | v :: rest => fill textOf v :: fillItems textOf rest
termination_by structural vs => vs

def fillMembers (textOf : String → String) : List (String × Value) → List (String × Value)
  | [] => []
  | (name, v) :: rest => (name, fill textOf v) :: fillMembers textOf rest
termination_by structural ms => ms

end

theorem itemTemplates_eq (vs : List Value) : itemTemplates vs = vs.flatMap templates := by
  induction vs with
  | nil => rfl
  | cons v rest ih => rw [itemTemplates, ih, List.flatMap_cons]

theorem memberTemplates_eq (ms : List (String × Value)) :
    memberTemplates ms = ms.flatMap fun member => member.2.templates := by
  induction ms with
  | nil => rfl
  | cons member rest ih => rw [memberTemplates, ih, List.flatMap_cons]

theorem templates_subset_of_member? {v w : Value} {step : Segment} (h : v.member? step = some w) :
    w.templates ⊆ v.templates := by
  intro t ht
  cases v with
  | object members =>
    rw [templates, memberTemplates_eq]
    exact List.mem_flatMap.2 ⟨_, Table.mem_of_find? h, ht⟩
  | array items =>
    obtain ⟨position, -, h⟩ := Option.bind_eq_some_iff.1 h
    rw [templates, itemTemplates_eq]
    exact List.mem_flatMap.2 ⟨_, List.mem_of_getElem? h, ht⟩
  | _ => cases h

/-- A part of a value has no templates but those of the whole. -/
theorem templates_subset_of_lookup? {v w : Value} {path : Path} (h : v.lookup? path = some w) :
    w.templates ⊆ v.templates := by
  induction path generalizing v with
  | nil =>
    cases h
    exact List.Subset.refl _
  | cons step rest ih =>
    obtain ⟨part, hp, h⟩ := Option.bind_eq_some_iff.1 h
    exact List.Subset.trans (ih h) (templates_subset_of_member? hp)

mutual

theorem tokenKeys_eq (v : Value) : v.tokenKeys = v.templates.flatMap Template.tokenKeys := by
  cases v with
  | template t => simp [tokenKeys, templates]
  | array items => exact itemTokenKeys_eq items
  | object members => exact memberTokenKeys_eq members
  | _ => rfl
termination_by structural v

theorem itemTokenKeys_eq (vs : List Value) :
    itemTokenKeys vs = (itemTemplates vs).flatMap Template.tokenKeys := by
  cases vs with
  | nil => rfl
  | cons v rest =>
    rw [itemTokenKeys, itemTemplates, List.flatMap_append, tokenKeys_eq v, itemTokenKeys_eq rest]
termination_by structural vs

theorem memberTokenKeys_eq (ms : List (String × Value)) :
    memberTokenKeys ms = (memberTemplates ms).flatMap Template.tokenKeys := by
  cases ms with
  | nil => rfl
  | cons member rest =>
    rw [memberTokenKeys, memberTemplates, List.flatMap_append, tokenKeys_eq member.2,
      memberTokenKeys_eq rest]
termination_by structural ms

end

theorem mem_tokenKeys_iff {v : Value} {key : String} :
    key ∈ v.tokenKeys ↔ ∃ t ∈ v.templates, key ∈ t.tokenKeys := by
  rw [tokenKeys_eq, List.mem_flatMap]

theorem tokenKeys_subset_of_lookup? {v w : Value} {path : Path} (h : v.lookup? path = some w) :
    w.tokenKeys ⊆ v.tokenKeys := by
  intro key hk
  obtain ⟨t, ht, hk⟩ := mem_tokenKeys_iff.1 hk
  exact mem_tokenKeys_iff.2 ⟨t, templates_subset_of_lookup? h ht, hk⟩

mutual

theorem hasTemplate_eq_false_iff (v : Value) : v.hasTemplate = false ↔ v.templates = [] := by
  cases v with
  | template t => simp [hasTemplate, templates]
  | array items => exact anyTemplate_eq_false_iff items
  | object members => exact anyMemberTemplate_eq_false_iff members
  | _ => simp [hasTemplate, templates]
termination_by structural v

theorem anyTemplate_eq_false_iff (vs : List Value) :
    anyTemplate vs = false ↔ itemTemplates vs = [] := by
  cases vs with
  | nil => simp [anyTemplate, itemTemplates]
  | cons v rest =>
    rw [anyTemplate, itemTemplates, Bool.or_eq_false_iff, List.append_eq_nil_iff,
      hasTemplate_eq_false_iff v, anyTemplate_eq_false_iff rest]
termination_by structural vs

theorem anyMemberTemplate_eq_false_iff (ms : List (String × Value)) :
    anyMemberTemplate ms = false ↔ memberTemplates ms = [] := by
  cases ms with
  | nil => simp [anyMemberTemplate, memberTemplates]
  | cons member rest =>
    rw [anyMemberTemplate, memberTemplates, Bool.or_eq_false_iff, List.append_eq_nil_iff,
      hasTemplate_eq_false_iff member.2, anyMemberTemplate_eq_false_iff rest]
termination_by structural ms

end

mutual

theorem fill_congr {f g : String → String} (v : Value) (h : ∀ key ∈ v.tokenKeys, f key = g key) :
    v.fill f = v.fill g := by
  cases v with
  | template t =>
    rw [fill, fill, Template.substitute_congr fun key hk => h key (by simpa [tokenKeys] using hk)]
  | array items =>
    rw [fill, fill, fillItems_congr items h]
  | object members =>
    rw [fill, fill, fillMembers_congr members h]
  | _ => rfl
termination_by structural v

theorem fillItems_congr {f g : String → String} (vs : List Value)
    (h : ∀ key ∈ itemTokenKeys vs, f key = g key) : fillItems f vs = fillItems g vs := by
  cases vs with
  | nil => rfl
  | cons v rest =>
    obtain ⟨hv, hr⟩ := List.forall_mem_append.1 h
    rw [fillItems, fillItems, fill_congr v hv, fillItems_congr rest hr]
termination_by structural vs

theorem fillMembers_congr {f g : String → String} (ms : List (String × Value))
    (h : ∀ key ∈ memberTokenKeys ms, f key = g key) : fillMembers f ms = fillMembers g ms := by
  cases ms with
  | nil => rfl
  | cons member rest =>
    obtain ⟨hv, hr⟩ := List.forall_mem_append.1 h
    rw [fillMembers, fillMembers, fill_congr member.2 hv, fillMembers_congr rest hr]
termination_by structural ms

end

mutual

theorem hasTemplate_fill (f : String → String) (v : Value) : (v.fill f).hasTemplate = false := by
  cases v with
  | array items => exact anyTemplate_fillItems f items
  | object members => exact anyMemberTemplate_fillMembers f members
  | _ => rfl
termination_by structural v

theorem anyTemplate_fillItems (f : String → String) (vs : List Value) :
    anyTemplate (fillItems f vs) = false := by
  cases vs with
  | nil => rfl
  | cons v rest =>
    exact Bool.or_eq_false_iff.2 ⟨hasTemplate_fill f v, anyTemplate_fillItems f rest⟩
termination_by structural vs

theorem anyMemberTemplate_fillMembers (f : String → String) (ms : List (String × Value)) :
    anyMemberTemplate (fillMembers f ms) = false := by
  cases ms with
  | nil => rfl
  | cons member rest =>
    exact Bool.or_eq_false_iff.2
      ⟨hasTemplate_fill f member.2, anyMemberTemplate_fillMembers f rest⟩
termination_by structural ms

end

variable {ε : Type} {resolve : Template → Except ε Value}

mutual

/-- If every template gives its text, all of them together fill the value. -/
theorem mapTemplates_eq_fill {f : String → String} (v : Value)
    (h : ∀ t ∈ v.templates, resolve t = .ok (.string (t.substitute f))) :
    v.mapTemplates resolve = .ok (v.fill f) := by
  cases v with
  | template t => exact h t (List.mem_singleton_self t)
  | array items =>
    rw [mapTemplates, mapItemTemplates_eq_fillItems items h]
    rfl
  | object members =>
    rw [mapTemplates, mapMemberTemplates_eq_fillMembers members h]
    rfl
  | _ => rfl
termination_by structural v

theorem mapItemTemplates_eq_fillItems {f : String → String} (vs : List Value)
    (h : ∀ t ∈ itemTemplates vs, resolve t = .ok (.string (t.substitute f))) :
    mapItemTemplates resolve vs = .ok (fillItems f vs) := by
  cases vs with
  | nil => rfl
  | cons v rest =>
    obtain ⟨hv, hr⟩ := List.forall_mem_append.1 h
    rw [mapItemTemplates, mapTemplates_eq_fill v hv, mapItemTemplates_eq_fillItems rest hr]
    rfl
termination_by structural vs

theorem mapMemberTemplates_eq_fillMembers {f : String → String} (ms : List (String × Value))
    (h : ∀ t ∈ memberTemplates ms, resolve t = .ok (.string (t.substitute f))) :
    mapMemberTemplates resolve ms = .ok (fillMembers f ms) := by
  cases ms with
  | nil => rfl
  | cons member rest =>
    obtain ⟨name, v⟩ := member
    obtain ⟨hv, hr⟩ := List.forall_mem_append.1 h
    rw [mapMemberTemplates, mapTemplates_eq_fill v hv, mapMemberTemplates_eq_fillMembers rest hr]
    rfl
termination_by structural ms

end

theorem fill_of_hasTemplate {f : String → String} {v : Value} (h : v.hasTemplate = false) :
    v.fill f = v := by
  have hf : v.mapTemplates (fun t => (.ok (.string (t.substitute f)) : Except Empty Value)) =
      .ok (v.fill f) := mapTemplates_eq_fill v fun _ _ => rfl
  rw [mapTemplates_of_hasTemplate _ v h] at hf
  exact (Except.ok.inj hf).symm

mutual

/-- A value whose templates are all replaced has none that fails. -/
theorem resolve_isOk_of_mapTemplates (v : Value) {w : Value} (h : v.mapTemplates resolve = .ok w) :
    ∀ t ∈ v.templates, ∃ u, resolve t = .ok u := by
  cases v with
  | template t => exact fun t' ht => List.mem_singleton.1 ht ▸ ⟨w, h⟩
  | array items =>
    obtain ⟨ws, hw, -⟩ := map_eq_ok_iff.1 h
    exact resolve_isOk_of_mapItemTemplates items hw
  | object members =>
    obtain ⟨ws, hw, -⟩ := map_eq_ok_iff.1 h
    exact resolve_isOk_of_mapMemberTemplates members hw
  | _ => nofun
termination_by structural v

theorem resolve_isOk_of_mapItemTemplates (vs : List Value) {ws : List Value}
    (h : mapItemTemplates resolve vs = .ok ws) :
    ∀ t ∈ itemTemplates vs, ∃ u, resolve t = .ok u := by
  cases vs with
  | nil => nofun
  | cons v rest =>
    obtain ⟨w, hw, h⟩ := bind_eq_ok_iff.1 h
    obtain ⟨ws, hr, -⟩ := bind_eq_ok_iff.1 h
    exact List.forall_mem_append.2
      ⟨resolve_isOk_of_mapTemplates v hw, resolve_isOk_of_mapItemTemplates rest hr⟩
termination_by structural vs

theorem resolve_isOk_of_mapMemberTemplates (ms : List (String × Value))
    {ws : List (String × Value)} (h : mapMemberTemplates resolve ms = .ok ws) :
    ∀ t ∈ memberTemplates ms, ∃ u, resolve t = .ok u := by
  cases ms with
  | nil => nofun
  | cons member rest =>
    obtain ⟨w, hw, h⟩ := bind_eq_ok_iff.1 h
    obtain ⟨ws, hr, -⟩ := bind_eq_ok_iff.1 h
    exact List.forall_mem_append.2
      ⟨resolve_isOk_of_mapTemplates member.2 hw, resolve_isOk_of_mapMemberTemplates rest hr⟩
termination_by structural ms

end

mutual

/-- A failure comes from one of the templates. -/
theorem resolve_error_of_mapTemplates (v : Value) {e : ε} (h : v.mapTemplates resolve = .error e) :
    ∃ t ∈ v.templates, resolve t = .error e := by
  cases v with
  | template t => exact ⟨t, List.mem_singleton_self t, h⟩
  | array items => exact resolve_error_of_mapItemTemplates items (map_eq_error_iff.1 h)
  | object members => exact resolve_error_of_mapMemberTemplates members (map_eq_error_iff.1 h)
  | _ => cases h
termination_by structural v

theorem resolve_error_of_mapItemTemplates (vs : List Value) {e : ε}
    (h : mapItemTemplates resolve vs = .error e) :
    ∃ t ∈ itemTemplates vs, resolve t = .error e := by
  cases vs with
  | nil => cases h
  | cons v rest =>
    rcases bind_eq_error_iff.1 h with h | ⟨w, -, h⟩
    · obtain ⟨t, ht, he⟩ := resolve_error_of_mapTemplates v h
      exact ⟨t, List.mem_append_left _ ht, he⟩
    rcases bind_eq_error_iff.1 h with h | ⟨ws, -, h⟩
    · obtain ⟨t, ht, he⟩ := resolve_error_of_mapItemTemplates rest h
      exact ⟨t, List.mem_append_right _ ht, he⟩
    · cases h
termination_by structural vs

theorem resolve_error_of_mapMemberTemplates (ms : List (String × Value)) {e : ε}
    (h : mapMemberTemplates resolve ms = .error e) :
    ∃ t ∈ memberTemplates ms, resolve t = .error e := by
  cases ms with
  | nil => cases h
  | cons member rest =>
    rcases bind_eq_error_iff.1 h with h | ⟨w, -, h⟩
    · obtain ⟨t, ht, he⟩ := resolve_error_of_mapTemplates member.2 h
      exact ⟨t, List.mem_append_left _ ht, he⟩
    rcases bind_eq_error_iff.1 h with h | ⟨ws, -, h⟩
    · obtain ⟨t, ht, he⟩ := resolve_error_of_mapMemberTemplates rest h
      exact ⟨t, List.mem_append_right _ ht, he⟩
    · cases h
termination_by structural ms

end

mutual

/-- A value whose templates are all replaced by values without templates has none left. -/
theorem templates_of_mapTemplates (hr : ∀ t u, resolve t = .ok u → u.templates = []) (v : Value)
    {w : Value} (h : v.mapTemplates resolve = .ok w) : w.templates = [] := by
  cases v with
  | template t => exact hr t w h
  | array items =>
    obtain ⟨ws, hw, rfl⟩ := map_eq_ok_iff.1 h
    exact templates_of_mapItemTemplates hr items hw
  | object members =>
    obtain ⟨ws, hw, rfl⟩ := map_eq_ok_iff.1 h
    exact templates_of_mapMemberTemplates hr members hw
  | _ =>
    cases h
    rfl
termination_by structural v

theorem templates_of_mapItemTemplates (hr : ∀ t u, resolve t = .ok u → u.templates = [])
    (vs : List Value) {ws : List Value} (h : mapItemTemplates resolve vs = .ok ws) :
    itemTemplates ws = [] := by
  cases vs with
  | nil =>
    cases h
    rfl
  | cons v rest =>
    obtain ⟨w, hw, h⟩ := bind_eq_ok_iff.1 h
    obtain ⟨ws, hs, h⟩ := bind_eq_ok_iff.1 h
    cases h
    exact List.append_eq_nil_iff.2
      ⟨templates_of_mapTemplates hr v hw, templates_of_mapItemTemplates hr rest hs⟩
termination_by structural vs

theorem templates_of_mapMemberTemplates (hr : ∀ t u, resolve t = .ok u → u.templates = [])
    (ms : List (String × Value)) {ws : List (String × Value)}
    (h : mapMemberTemplates resolve ms = .ok ws) : memberTemplates ws = [] := by
  cases ms with
  | nil =>
    cases h
    rfl
  | cons member rest =>
    obtain ⟨w, hw, h⟩ := bind_eq_ok_iff.1 h
    obtain ⟨ws, hs, h⟩ := bind_eq_ok_iff.1 h
    cases h
    exact List.append_eq_nil_iff.2
      ⟨templates_of_mapTemplates hr member.2 hw, templates_of_mapMemberTemplates hr rest hs⟩
termination_by structural ms

end

end Value

end ConfigDoc
