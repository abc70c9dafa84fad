import ConfigDoc.Proofs.Value.Slots
import ConfigDoc.Proofs.Value.Templates

namespace ConfigDoc.Value

variable (ready : Template → Prop) (textOf : String → String)

mutual

/-- The second value is the first one with the texts of some ready templates in their place. -/
def Settles : Value → Value → Prop
  | .template t, w => w = .template t ∨ (ready t ∧ w = .string (t.substitute textOf))
  | .array items, w => ∃ items', w = .array items' ∧ SettlesItems items items'
  | .object members, w => ∃ members', w = .object members' ∧ SettlesMembers members members'
  | v, w => w = v
termination_by structural v => v

def SettlesItems : List Value → List Value → Prop
  | [], ws => ws = []
  | v :: vs, ws => ∃ w rest, ws = w :: rest ∧ Settles v w ∧ SettlesItems vs rest
termination_by structural vs => vs

def SettlesMembers : List (String × Value) → List (String × Value) → Prop
  | [], ns => ns = []
  | (name, v) :: ms, ns => ∃ w rest, ns = (name, w) :: rest ∧ Settles v w ∧ SettlesMembers ms rest
termination_by structural ms => ms

end

mutual

theorem Settles.refl (v : Value) : Settles ready textOf v v := by
  cases v with
  | template t => exact .inl rfl
  | array items => exact ⟨items, rfl, SettlesItems.refl items⟩
  | object members => exact ⟨members, rfl, SettlesMembers.refl members⟩
  | _ => rfl
termination_by structural v

theorem SettlesItems.refl (vs : List Value) : SettlesItems ready textOf vs vs := by
  cases vs with
  | nil => rfl
  | cons v rest => exact ⟨v, rest, rfl, Settles.refl v, SettlesItems.refl rest⟩
termination_by structural vs

theorem SettlesMembers.refl (ms : List (String × Value)) :
    SettlesMembers ready textOf ms ms := by
  cases ms with
  | nil => rfl
  | cons member rest =>
    exact ⟨member.2, rest, rfl, Settles.refl member.2, SettlesMembers.refl rest⟩
termination_by structural ms

end

variable {ready textOf}

mutual

theorem Settles.trans {u v w : Value} (h : Settles ready textOf u v)
    (h' : Settles ready textOf v w) : Settles ready textOf u w := by
  cases u with
  | template t =>
    rcases h with rfl | ⟨ht, rfl⟩
    · exact h'
    · cases h'
      exact .inr ⟨ht, rfl⟩
  | array items =>
    obtain ⟨vs, rfl, hi⟩ := h
    obtain ⟨ws, rfl, hi'⟩ := h'
    exact ⟨ws, rfl, SettlesItems.trans hi hi'⟩
  | object members =>
    obtain ⟨ms, rfl, hm⟩ := h
    obtain ⟨ns, rfl, hm'⟩ := h'
    exact ⟨ns, rfl, SettlesMembers.trans hm hm'⟩
  | _ =>
    cases h
    exact h'
termination_by structural u

theorem SettlesItems.trans {us vs ws : List Value} (h : SettlesItems ready textOf us vs)
    (h' : SettlesItems ready textOf vs ws) : SettlesItems ready textOf us ws := by
  cases us with
  | nil =>
    cases h
    exact h'
  | cons u rest =>
    obtain ⟨v, vs, rfl, hv, hr⟩ := h
    obtain ⟨w, ws, rfl, hw, hr'⟩ := h'
    exact ⟨w, ws, rfl, Settles.trans hv hw, SettlesItems.trans hr hr'⟩
termination_by structural us

theorem SettlesMembers.trans {ls ms ns : List (String × Value)}
    (h : SettlesMembers ready textOf ls ms) (h' : SettlesMembers ready textOf ms ns) :
    SettlesMembers ready textOf ls ns := by
  cases ls with
  | nil =>
    cases h
    exact h'
  | cons member rest =>
    obtain ⟨v, ms, rfl, hv, hr⟩ := h
    obtain ⟨w, ns, rfl, hw, hr'⟩ := h'
    exact ⟨w, ns, rfl, Settles.trans hv hw, SettlesMembers.trans hr hr'⟩
termination_by structural ls

end

mutual

/-- If all templates are ready, they may settle at once. -/
theorem settles_fill (v : Value) (h : ∀ t ∈ v.templates, ready t) :
    Settles ready textOf v (v.fill textOf) := by
  cases v with
  | template t => exact .inr ⟨h t (List.mem_singleton_self t), rfl⟩
  | array items => exact ⟨_, rfl, settlesItems_fillItems items h⟩
  | object members => exact ⟨_, rfl, settlesMembers_fillMembers members h⟩
  | _ => rfl
termination_by structural v

theorem settlesItems_fillItems (vs : List Value) (h : ∀ t ∈ itemTemplates vs, ready t) :
    SettlesItems ready textOf vs (fillItems textOf vs) := by
  cases vs with
  | nil => rfl
  | cons v rest =>
    obtain ⟨hv, hr⟩ := List.forall_mem_append.1 h
    exact ⟨_, _, rfl, settles_fill v hv, settlesItems_fillItems rest hr⟩
termination_by structural vs

theorem settlesMembers_fillMembers (ms : List (String × Value))
    (h : ∀ t ∈ memberTemplates ms, ready t) :
    SettlesMembers ready textOf ms (fillMembers textOf ms) := by
  cases ms with
  | nil => rfl
  | cons member rest =>
    obtain ⟨hv, hr⟩ := List.forall_mem_append.1 h
    exact ⟨_, _, rfl, settles_fill member.2 hv, settlesMembers_fillMembers rest hr⟩
termination_by structural ms

end

theorem SettlesItems.getElem? {vs ws : List Value} (h : SettlesItems ready textOf vs ws)
    (position : Nat) : Option.Rel (Settles ready textOf) vs[position]? ws[position]? := by
  induction vs generalizing ws position with
  | nil =>
    cases h
    simp
  | cons v rest ih =>
    obtain ⟨w, ws, rfl, hv, hr⟩ := h
    cases position with
    | zero => simpa using Option.Rel.some hv
    | succ position => simpa using ih hr position

theorem SettlesMembers.find? {ms ns : Table Value} (h : SettlesMembers ready textOf ms ns)
    (name : String) : Option.Rel (Settles ready textOf) (ms.find? name) (ns.find? name) := by
  induction ms generalizing ns with
  | nil =>
    cases h
    exact .none
  | cons member rest ih =>
    obtain ⟨w, ns, rfl, hv, hr⟩ := h
    rw [Table.find?_cons, Table.find?_cons]
    split
    · exact .some hv
    · exact ih hr

theorem Settles.member? {v w : Value} (h : Settles ready textOf v w) (step : Segment) :
    Option.Rel (Settles ready textOf) (v.member? step) (w.member? step) := by
  cases v with
  | object members =>
    obtain ⟨ns, rfl, hm⟩ := h
    exact hm.find? step.text
  | array items =>
    obtain ⟨ws, rfl, hi⟩ := h
    unfold Value.member?
    cases step.position? with
    | none => exact .none
    | some position => exact hi.getElem? position
  | template t =>
    rcases h with rfl | ⟨-, rfl⟩
    · exact .none
    · exact .none
  | _ =>
    cases h
    exact .none

theorem Settles.lookup? {v w : Value} (h : Settles ready textOf v w) (path : Path) :
    Option.Rel (Settles ready textOf) (v.lookup? path) (w.lookup? path) := by
  induction path generalizing v w with
  | nil => exact .some h
  | cons step rest ih =>
    rw [lookup?_cons, lookup?_cons]
    have hm := h.member? step
    revert hm
    cases v.member? step <;> cases w.member? step <;> intro hm
    · exact .none
    · cases hm
    · cases hm
    · cases hm with
      | some hs => exact ih hs

theorem Settles.exists_lookup? {v w part : Value} (h : Settles ready textOf v w) {path : Path}
    (hp : v.lookup? path = some part) :
    ∃ part', w.lookup? path = some part' ∧ Settles ready textOf part part' := by
  have hl := h.lookup? path
  rw [hp] at hl
  cases hg : w.lookup? path with
  | none =>
    rw [hg] at hl
    cases hl
  | some part' =>
    rw [hg] at hl
    cases hl with
    | some hs => exact ⟨part', rfl, hs⟩

theorem Settles.exists_member? {v w part : Value} (h : Settles ready textOf v w) {step : Segment}
    (hp : v.member? step = some part) :
    ∃ part', w.member? step = some part' ∧ Settles ready textOf part part' := by
  rw [← lookup?_singleton] at hp
  obtain ⟨part', hg, hs⟩ := h.exists_lookup? hp
  exact ⟨part', by rwa [lookup?_singleton] at hg, hs⟩

theorem Settles.fits {v w : Value} (h : Settles ready textOf v w) {key : Segment}
    (hf : Reference.fits v key = true) : Reference.fits w key = true := by
  cases v with
  | object members =>
    obtain ⟨ns, rfl, -⟩ := h
    cases key <;> exact hf
  | array items =>
    obtain ⟨ws, rfl, -⟩ := h
    cases key <;> exact hf
  | _ => cases hf

theorem Settles.pointsTo {root root' v : Value} (h : Settles ready textOf root root')
    {r : Reference} (hp : Reference.PointsTo root r v) :
    ∃ w, Reference.PointsTo root' r w ∧ Settles ready textOf v w := by
  obtain ⟨w, hw, hs⟩ := h.exists_lookup? hp.lookup
  obtain ⟨container, hc, hf⟩ := hp.fits
  obtain ⟨container', hc', hsc⟩ := h.exists_lookup? hc
  exact ⟨w, ⟨hw, container', hc', hsc.fits hf⟩, hs⟩

mutual

/-- Every template that is gone was ready, and none came in. -/
theorem Settles.templates {v w : Value} (h : Settles ready textOf v w) :
    w.templates ⊆ v.templates ∧ ∀ t ∈ v.templates, t ∈ w.templates ∨ ready t := by
  cases v with
  | template t =>
    rcases h with rfl | ⟨ht, rfl⟩
    · exact ⟨List.Subset.refl _, fun t ht => .inl ht⟩
    · exact ⟨List.nil_subset _, fun t' ht' => .inr (List.mem_singleton.1 ht' ▸ ht)⟩
  | array items =>
    obtain ⟨ws, rfl, hi⟩ := h
    exact SettlesItems.templates hi
  | object members =>
    obtain ⟨ns, rfl, hm⟩ := h
    exact SettlesMembers.templates hm
  | _ =>
    cases h
    exact ⟨List.Subset.refl _, fun t ht => .inl ht⟩
termination_by structural v

theorem SettlesItems.templates {vs ws : List Value} (h : SettlesItems ready textOf vs ws) :
    itemTemplates ws ⊆ itemTemplates vs ∧
      ∀ t ∈ itemTemplates vs, t ∈ itemTemplates ws ∨ ready t := by
  cases vs with
  | nil =>
    cases h
    exact ⟨List.Subset.refl _, nofun⟩
  | cons v rest =>
    obtain ⟨w, ws, rfl, hv, hr⟩ := h
    obtain ⟨hsv, hrv⟩ := Settles.templates hv
    obtain ⟨hsr, hrr⟩ := SettlesItems.templates hr
    refine ⟨List.append_subset.2 ⟨fun _ ht => List.mem_append_left _ (hsv ht),
      fun _ ht => List.mem_append_right _ (hsr ht)⟩, fun t ht => ?_⟩
    rcases List.mem_append.1 ht with ht | ht
    · exact (hrv t ht).imp_left (List.mem_append_left _)
    · exact (hrr t ht).imp_left (List.mem_append_right _)
termination_by structural vs

theorem SettlesMembers.templates {ms ns : List (String × Value)}
    (h : SettlesMembers ready textOf ms ns) :
    memberTemplates ns ⊆ memberTemplates ms ∧
      ∀ t ∈ memberTemplates ms, t ∈ memberTemplates ns ∨ ready t := by
  cases ms with
  | nil =>
    cases h
    exact ⟨List.Subset.refl _, nofun⟩
  | cons member rest =>
    obtain ⟨w, ns, rfl, hv, hr⟩ := h
    obtain ⟨hsv, hrv⟩ := Settles.templates hv
    obtain ⟨hsr, hrr⟩ := SettlesMembers.templates hr
    refine ⟨List.append_subset.2 ⟨fun _ ht => List.mem_append_left _ (hsv ht),
      fun _ ht => List.mem_append_right _ (hsr ht)⟩, fun t ht => ?_⟩
    rcases List.mem_append.1 ht with ht | ht
    · exact (hrv t ht).imp_left (List.mem_append_left _)
    · exact (hrr t ht).imp_left (List.mem_append_right _)
termination_by structural ms

end

mutual

/-- Filling the rest comes to the same as filling everything at once. -/
theorem Settles.fill_eq {v w : Value} (h : Settles ready textOf v w) :
    w.fill textOf = v.fill textOf := by
  cases v with
  | template t =>
    rcases h with rfl | ⟨-, rfl⟩
    · rfl
    · rfl
  | array items =>
    obtain ⟨ws, rfl, hi⟩ := h
    rw [fill, fill, SettlesItems.fill_eq hi]
  | object members =>
    obtain ⟨ns, rfl, hm⟩ := h
    rw [fill, fill, SettlesMembers.fill_eq hm]
  | _ =>
    cases h
    rfl
termination_by structural v

theorem SettlesItems.fill_eq {vs ws : List Value} (h : SettlesItems ready textOf vs ws) :
    fillItems textOf ws = fillItems textOf vs := by
  cases vs with
  | nil =>
    cases h
    rfl
  | cons v rest =>
    obtain ⟨w, ws, rfl, hv, hr⟩ := h
    rw [fillItems, fillItems, Settles.fill_eq hv, SettlesItems.fill_eq hr]
termination_by structural vs

theorem SettlesMembers.fill_eq {ms ns : List (String × Value)}
    (h : SettlesMembers ready textOf ms ns) : fillMembers textOf ns = fillMembers textOf ms := by
  cases ms with
  | nil =>
    cases h
    rfl
  | cons member rest =>
    obtain ⟨w, ns, rfl, hv, hr⟩ := h
    rw [fillMembers, fillMembers, Settles.fill_eq hv, SettlesMembers.fill_eq hr]
termination_by structural ms

end

theorem Settles.hasTemplate {v w : Value} (h : Settles ready textOf v w)
    (hv : v.hasTemplate = false) : w.hasTemplate = false := by
  rw [hasTemplate_eq_false_iff] at hv ⊢
  exact List.subset_nil.1 (hv ▸ h.templates.1)

theorem Settles.eq_fill {v w : Value} (h : Settles ready textOf v w) (hw : w.hasTemplate = false) :
    w = v.fill textOf := by
  rw [← h.fill_eq, fill_of_hasTemplate hw]

theorem SettlesItems.set {vs ws : List Value} (h : SettlesItems ready textOf vs ws)
    {position : Nat} {v w : Value} (hv : vs[position]? = some v) (hw : Settles ready textOf v w) :
    position < ws.length ∧ SettlesItems ready textOf vs (ws.set position w) := by
  induction vs generalizing ws position with
  | nil => simp at hv
  | cons v' rest ih =>
    obtain ⟨w', ws, rfl, hv', hr⟩ := h
    cases position with
    | zero =>
      cases hv
      exact ⟨by simp, w, ws, rfl, hw, hr⟩
    | succ position =>
      obtain ⟨hl, hs⟩ := ih hr (by simpa using hv)
      exact ⟨by simpa using hl, w', ws.set position w, rfl, hv', hs⟩

theorem SettlesMembers.insert {ms ns : Table Value} (h : SettlesMembers ready textOf ms ns)
    {name : String} {v w : Value} (hv : ms.find? name = some v) (hw : Settles ready textOf v w) :
    name ∈ ns.names ∧ SettlesMembers ready textOf ms (ns.insert name w) := by
  induction ms generalizing ns with
  | nil => cases hv
  | cons member rest ih =>
    obtain ⟨name', v'⟩ := member
    obtain ⟨w', ns, rfl, hv', hr⟩ := h
    rw [Table.find?_cons] at hv
    rw [Table.insert]
    split at hv
    · rename_i hn
      cases hv
      cases hn
      exact ⟨List.mem_cons_self, by rw [if_pos rfl]; exact ⟨w, ns, rfl, hw, hr⟩⟩
    · rename_i hn
      obtain ⟨hm, hi⟩ := ih hr hv
      exact ⟨List.mem_cons_of_mem _ hm, by rw [if_neg hn]; exact ⟨w', _, rfl, hv', hi⟩⟩

theorem Settles.setMember? {v w part part' : Value} (h : Settles ready textOf v w)
    {step : Segment} (hp : v.member? step = some part) (hs : Settles ready textOf part part') :
    ∃ w', w.setMember? step part' = some w' ∧ Settles ready textOf v w' := by
  cases v with
  | object members =>
    obtain ⟨ns, rfl, hm⟩ := h
    obtain ⟨hn, hi⟩ := hm.insert hp hs
    exact ⟨_, if_pos (Table.has_iff.2 hn), _, rfl, hi⟩
  | array items =>
    obtain ⟨ws, rfl, hi⟩ := h
    obtain ⟨position, hpos, hp⟩ := Option.bind_eq_some_iff.1 hp
    obtain ⟨hl, hset⟩ := hi.set hp hs
    refine ⟨.array (ws.set position part'), ?_, _, rfl, hset⟩
    rw [Value.setMember?, hpos, Option.bind_some, if_pos hl]
  | _ => cases hp

/-- A part may settle on its own. -/
theorem Settles.assign? {v w part part' : Value} (h : Settles ready textOf v w) {path : Path}
    (hp : v.lookup? path = some part) (hs : Settles ready textOf part part') :
    ∃ w', w.assign? path part' = some w' ∧ Settles ready textOf v w' := by
  induction path generalizing v w with
  | nil =>
    cases hp
    exact ⟨part', rfl, hs⟩
  | cons step rest ih =>
    obtain ⟨u, hu, hp⟩ := Option.bind_eq_some_iff.1 hp
    obtain ⟨u', hu', hm⟩ := h.exists_member? hu
    obtain ⟨changed, hc, hsc⟩ := ih hm hp
    obtain ⟨w', hw, hsw⟩ := h.setMember? hu hsc
    exact ⟨w', by rw [assign?_cons, hu', Option.bind_some, hc, Option.bind_some, hw], hsw⟩

end ConfigDoc.Value
