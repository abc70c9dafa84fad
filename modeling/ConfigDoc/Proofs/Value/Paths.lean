import ConfigDoc.Error
import ConfigDoc.Proofs.Value.Slots

namespace ConfigDoc

/-- Whether a path does not lead strictly below another one, so that a write there does not cut it
off. -/
def Path.Spares (written path : Path) : Prop := ∀ rest, path = written ++ rest → rest = []

namespace Path

theorem spares_append (p q : Path) : (p ++ q).Spares p := by
  intro rest h
  have hl := congrArg List.length h
  simp only [List.length_append] at hl
  exact List.eq_nil_of_length_eq_zero (by omega)

theorem spares_self (p : Path) : p.Spares p := by
  simpa using spares_append p []

theorem spares_of_ne {step other : Segment} (h : step ≠ other) (p q r : Path) :
    (p ++ step :: q).Spares (p ++ other :: r) := by
  intro rest he
  rw [List.append_assoc, List.append_cancel_left_eq, List.cons_append, List.cons.injEq] at he
  exact absurd he.1.symm h

end Path

namespace Value
open Reference

/-- Whether every step of a path leads to a member, and is of the kind that its container has. -/
def Paved : Value → Path → Prop
  | _, [] => True
  | v, step :: rest => fits v step = true ∧ ∃ part, v.member? step = some part ∧ part.Paved rest

variable {v w changed part : Value} {step other : Segment} {p q : Path}

theorem paved_append : v.Paved (p ++ q) ↔ v.Paved p ∧ ∃ w, v.lookup? p = some w ∧ w.Paved q := by
  induction p generalizing v with
  | nil => simp [Paved]
  | cons step rest ih =>
    simp only [List.cons_append, Paved, lookup?_cons, Option.bind_eq_some_iff, ih]
    constructor
    · rintro ⟨hf, part, hm, hp, w, hl, hq⟩
      exact ⟨⟨hf, part, hm, hp⟩, w, ⟨part, hm, hl⟩, hq⟩
    · rintro ⟨⟨hf, part, hm, hp⟩, w, ⟨part', hm', hl⟩, hq⟩
      cases hm.symm.trans hm'
      exact ⟨hf, part, hm, hp, w, hl, hq⟩

theorem lookup?_of_paved (h : v.Paved p) : ∃ w, v.lookup? p = some w := by
  obtain ⟨-, w, hl, -⟩ := (paved_append (q := [])).1 (by rwa [List.append_nil])
  exact ⟨w, hl⟩

/-- Names live in objects and positions in lists. -/
theorem cases_of_fits (h : fits v step = true) :
    (∃ members name, v = .object members ∧ step = .key name) ∨
      ∃ items position, v = .array items ∧ step = .index position := by
  cases v with
  | object members =>
    cases step with
    | key name => exact .inl ⟨members, name, rfl, rfl⟩
    | index position => cases h
  | array items =>
    cases step with
    | key name => cases h
    | index position => exact .inr ⟨items, position, rfl, rfl⟩
  | _ => cases h

theorem setMember?_of_fits (hf : fits v step = true) (hm : v.member? step = some part) (w : Value) :
    ∃ changed, v.setMember? step w = some changed := by
  obtain ⟨members, name, rfl, rfl⟩ | ⟨items, position, rfl, rfl⟩ := cases_of_fits hf
  · refine ⟨_, (setMember?_key members name w).trans (if_pos ?_)⟩
    exact List.mem_map_of_mem (f := Prod.fst) (Table.mem_of_find? hm)
  · refine ⟨_, (setMember?_index items position w).trans (if_pos ?_)⟩
    exact (List.getElem?_eq_some_iff.1 hm).1

/-- A container stays one of its kind. -/
theorem fits_of_setMember? (hf : fits v step = true) (h : v.setMember? step w = some changed)
    (other : Segment) : fits changed other = fits v other := by
  obtain ⟨members, name, rfl, rfl⟩ | ⟨items, position, rfl, rfl⟩ := cases_of_fits hf
  · rw [setMember?_key] at h
    split at h
    · cases h
      cases other <;> rfl
    · cases h
  · rw [setMember?_index] at h
    split at h
    · cases h
      cases other <;> rfl
    · cases h

/-- The other members of a container stay as they are. -/
theorem member?_of_setMember?_of_ne (hf : fits v step = true) (ho : fits v other = true)
    (hn : step ≠ other) (h : v.setMember? step w = some changed) :
    changed.member? other = v.member? other := by
  obtain ⟨members, name, rfl, rfl⟩ | ⟨items, position, rfl, rfl⟩ := cases_of_fits hf
  · obtain ⟨-, name', -, rfl⟩ | ⟨items, position, ho, -⟩ := cases_of_fits ho
    · rw [setMember?_key] at h
      split at h
      · cases h
        exact Table.find?_insert_of_ne members w fun he => hn (congrArg _ he)
      · cases h
    · cases ho
  · obtain ⟨members, name, ho, -⟩ | ⟨-, position', -, rfl⟩ := cases_of_fits ho
    · cases ho
    · rw [setMember?_index] at h
      split at h
      · cases h
        exact List.getElem?_set_ne fun he => hn (congrArg _ he)
      · cases h

/-- Where a path leads, a value can be put. -/
theorem assign?_of_paved (h : v.Paved p) (w : Value) : ∃ changed, v.assign? p w = some changed := by
  induction p generalizing v with
  | nil => exact ⟨w, rfl⟩
  | cons step rest ih =>
    obtain ⟨hf, part, hm, hp⟩ := h
    obtain ⟨part', ha⟩ := ih hp
    obtain ⟨changed, hs⟩ := setMember?_of_fits hf hm part'
    exact ⟨changed, by rw [assign?_cons, hm, Option.bind_some, ha, Option.bind_some, hs]⟩

/-- A write leaves a path intact, unless the path leads below it and ends in what was there before. -/
theorem paved_of_assign? {before : Value} (hp : v.Paved p) (hb : v.lookup? p = some before)
    (h : v.assign? p w = some changed) (hq : v.Paved q)
    (hs : ∀ rest, q = p ++ rest → before.Paved rest → w.Paved rest) : changed.Paved q := by
  induction p generalizing v q changed with
  | nil =>
    cases h
    cases hb
    exact hs q rfl hq
  | cons step rest ih =>
    cases q with
    | nil => trivial
    | cons other rest' =>
      obtain ⟨hf, part, hm, hp⟩ := hp
      obtain ⟨ho, part', hm', hq⟩ := hq
      rw [lookup?_cons, hm, Option.bind_some] at hb
      rw [assign?_cons, hm, Option.bind_some] at h
      obtain ⟨inner, ha, h⟩ := Option.bind_eq_some_iff.1 h
      by_cases he : step = other
      · subst he
        cases hm.symm.trans hm'
        refine ⟨(fits_of_setMember? hf h _).trans hf, inner, member?_of_setMember? h, ?_⟩
        exact ih hp hb ha hq fun tail ht => hs tail (congrArg _ ht)
      · exact ⟨(fits_of_setMember? hf h _).trans ho, part',
          (member?_of_setMember?_of_ne hf ho he h).trans hm', hq⟩

/-- Nothing is below a template. -/
theorem spares_of_template {t : Template} (ht : v.lookup? p = some (.template t)) (hq : v.Paved q) :
    p.Spares q := by
  rintro rest rfl
  obtain ⟨-, w, hl, hr⟩ := paved_append.1 hq
  cases hl.symm.trans ht
  cases rest with
  | nil => rfl
  | cons step rest => cases hr.1

variable {ε : Type} {resolve : Template → Except ε Value}

theorem getElem?_of_mapItemTemplates {vs ws : List Value} (h : mapItemTemplates resolve vs = .ok ws)
    {position : Nat} (hm : vs[position]? = some part) :
    ∃ part', ws[position]? = some part' ∧ part.mapTemplates resolve = .ok part' := by
  induction vs generalizing ws position with
  | nil => cases hm
  | cons v rest ih =>
    obtain ⟨w, hw, h⟩ := bind_eq_ok_iff.1 h
    obtain ⟨ws, hr, h⟩ := bind_eq_ok_iff.1 h
    cases h
    cases position with
    | zero =>
      cases hm
      exact ⟨w, rfl, hw⟩
    | succ position => exact ih hr hm

theorem find?_of_mapMemberTemplates {ms ns : Table Value}
    (h : mapMemberTemplates resolve ms = .ok ns) {name : String}
    (hm : Table.find? ms name = some part) :
    ∃ part', Table.find? ns name = some part' ∧ part.mapTemplates resolve = .ok part' := by
  induction ms generalizing ns with
  | nil => cases hm
  | cons member rest ih =>
    obtain ⟨w, hw, h⟩ := bind_eq_ok_iff.1 h
    obtain ⟨ns, hr, h⟩ := bind_eq_ok_iff.1 h
    cases h
    rw [Table.find?_cons] at hm ⊢
    split at hm
    · rename_i hn
      cases hm
      exact ⟨w, if_pos hn, hw⟩
    · rename_i hn
      rw [if_neg hn]
      exact ih hr hm

/-- Replacing templates leaves all paths intact, since none leads through a template. -/
theorem paved_of_mapTemplates (h : v.mapTemplates resolve = .ok w) (hq : v.Paved q) : w.Paved q := by
  induction q generalizing v w with
  | nil => trivial
  | cons step rest ih =>
    obtain ⟨hf, part, hm, hq⟩ := hq
    obtain ⟨members, name, rfl, rfl⟩ | ⟨items, position, rfl, rfl⟩ := cases_of_fits hf
    · obtain ⟨ns, hns, rfl⟩ := map_eq_ok_iff.1 h
      obtain ⟨part', hp, hr⟩ := find?_of_mapMemberTemplates hns hm
      exact ⟨rfl, part', hp, ih hr hq⟩
    · obtain ⟨ws, hws, rfl⟩ := map_eq_ok_iff.1 h
      obtain ⟨part', hp, hr⟩ := getElem?_of_mapItemTemplates hws hm
      exact ⟨rfl, part', hp, ih hr hq⟩

end Value

namespace Reference
open Value

variable {root : Value} {r : Reference}

theorem pointsTo_of_paved (h : root.Paved r.location) : ∃ v, PointsTo root r v := by
  obtain ⟨v, hv⟩ := lookup?_of_paved h
  obtain ⟨-, container, hc, hf, -⟩ := paved_append.1 h
  exact ⟨v, hv, container, hc, hf⟩

/-- A slot at the end of a path can be written, and that leaves a path intact unless it leads below
the slot and ends in what was there before. -/
theorem replace_of_paved (h : root.Paved r.location) (change : Value → Value) :
    ∃ root', r.replace root change = .ok root' ∧ ∀ path, root.Paved path →
      (∀ rest, path = r.location ++ rest → (r.value root).Paved rest →
        (change (r.value root)).Paved rest) → root'.Paved path := by
  obtain ⟨v, hv⟩ := pointsTo_of_paved h
  obtain ⟨root', ha⟩ := assign?_of_paved h (change v)
  rw [value_of_pointsTo hv]
  exact ⟨root', replace_of_pointsTo hv ha, fun path hp hs =>
    paved_of_assign? h hv.lookup ha hp hs⟩

theorem paved_of_replace {root' : Value} {change : Value → Value} (h : root.Paved r.location)
    (hr : r.replace root change = .ok root') {path : Path} (hp : root.Paved path)
    (hs : r.location.Spares path) : root'.Paved path := by
  obtain ⟨changed, hc, hpaved⟩ := replace_of_paved h change
  cases hr.symm.trans hc
  refine hpaved path hp fun rest he _ => ?_
  rw [hs rest he]
  trivial

end Reference

end ConfigDoc
