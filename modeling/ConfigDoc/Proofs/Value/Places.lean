import ConfigDoc.Proofs.Text.Natural
import ConfigDoc.Proofs.Value.Paths

/-! The places that paths lead to. Paths that spell positions differently lead to one place, and a
write at a place changes nothing that lies apart from it. -/

namespace ConfigDoc

namespace Segment

/-- Whether two steps are the same, or one is a position and the other its decimal text. -/
inductive Respelled : Segment → Segment → Prop
  | same (step : Segment) : Respelled step step
  | named (position : Nat) : Respelled (.index position) (.key (toString position))
  | numbered (position : Nat) : Respelled (.key (toString position)) (.index position)

theorem Respelled.text_eq {step other : Segment} (h : step.Respelled other) :
    other.text = step.text := by
  cases h <;> rfl

theorem Respelled.position?_eq {step other : Segment} (h : step.Respelled other) :
    other.position? = step.position? := by
  cases h with
  | same => rfl
  | named position => exact Text.natural?_toString position
  | numbered position => exact (Text.natural?_toString position).symm

end Segment

namespace Path

def Respelled (p q : Path) : Prop := List.Forall₂ Segment.Respelled p q

def Apart (p q : Path) : Prop := ¬ p <+: q ∧ ¬ q <+: p

theorem Apart.of_cons {step : Segment} {p q : Path} (h : Apart (step :: p) (step :: q)) :
    Apart p q :=
  ⟨fun hp => h.1 (List.cons_prefix_cons.2 ⟨rfl, hp⟩),
    fun hq => h.2 (List.cons_prefix_cons.2 ⟨rfl, hq⟩)⟩

end Path

namespace Value
open Reference

/-- How a container spells a step: an object as a name, a list as a position. -/
def spelling? : Value → Segment → Option Segment
  | .object _, step => some (.key step.text)
  | .array _, step => step.position?.map .index
  | _, _ => none

/-- The place that a path leads to: its steps as the containers on the way spell them. -/
def place? (v : Value) : Path → Option Path
  | [] => some []
  | step :: rest =>
    (v.member? step).bind fun part =>
      (v.spelling? step).bind fun own => (part.place? rest).map (own :: ·)

variable {v w changed part part' : Value} {step other own : Segment} {p q place : Path}

theorem cases_of_spelling? (h : v.spelling? step = some own) :
    (∃ members, v = .object members ∧ own = .key step.text) ∨
      ∃ items position, v = .array items ∧ step.position? = some position ∧
        own = .index position := by
  cases v with
  | object members => exact .inl ⟨members, rfl, (Option.some.inj h).symm⟩
  | array items =>
    obtain ⟨position, hp, rfl⟩ := Option.map_eq_some_iff.1 h
    exact .inr ⟨items, position, rfl, hp, rfl⟩
  | _ => cases h

theorem fits_of_spelling? (h : v.spelling? step = some own) : fits v own = true := by
  obtain ⟨members, rfl, rfl⟩ | ⟨items, position, rfl, -, rfl⟩ := cases_of_spelling? h <;> rfl

theorem member?_of_spelling? (h : v.spelling? step = some own) :
    v.member? own = v.member? step := by
  obtain ⟨members, rfl, rfl⟩ | ⟨items, position, rfl, hp, rfl⟩ := cases_of_spelling? h
  · rfl
  · simp only [member?, hp]
    rfl

theorem setMember?_of_spelling? (h : v.spelling? step = some own) (w : Value) :
    v.setMember? own w = v.setMember? step w := by
  obtain ⟨members, rfl, rfl⟩ | ⟨items, position, rfl, hp, rfl⟩ := cases_of_spelling? h
  · rfl
  · simp only [setMember?, hp]
    rfl

theorem spelling?_of_member? (h : v.member? step = some part) :
    ∃ own, v.spelling? step = some own := by
  cases v with
  | object members => exact ⟨_, rfl⟩
  | array items =>
    obtain ⟨position, hp, -⟩ := Option.bind_eq_some_iff.1 h
    exact ⟨.index position, Option.map_eq_some_iff.2 ⟨position, hp, rfl⟩⟩
  | _ => cases h

theorem place?_cons_eq_some_iff : v.place? (step :: p) = some place ↔ ∃ part own rest,
    v.member? step = some part ∧ v.spelling? step = some own ∧ part.place? p = some rest ∧
      place = own :: rest := by
  constructor
  · intro h
    obtain ⟨part, hm, h⟩ := Option.bind_eq_some_iff.1 h
    obtain ⟨own, hs, h⟩ := Option.bind_eq_some_iff.1 h
    obtain ⟨rest, hp, rfl⟩ := Option.map_eq_some_iff.1 h
    exact ⟨part, own, rest, hm, hs, hp, rfl⟩
  · rintro ⟨part, own, rest, hm, hs, hp, rfl⟩
    rw [place?, hm, Option.bind_some, hs, Option.bind_some, hp]
    rfl

/-- A path leads to a place exactly if there is something at its end. -/
theorem place?_of_lookup? (h : v.lookup? p = some w) : ∃ place, v.place? p = some place := by
  induction p generalizing v with
  | nil => exact ⟨[], rfl⟩
  | cons step rest ih =>
    obtain ⟨part, hm, h⟩ := Option.bind_eq_some_iff.1 h
    obtain ⟨place, hp⟩ := ih h
    obtain ⟨own, hs⟩ := spelling?_of_member? hm
    exact ⟨own :: place, place?_cons_eq_some_iff.2 ⟨part, own, place, hm, hs, hp, rfl⟩⟩

/-- The place of a path is a path of its own, to the same part of the value. -/
theorem lookup?_of_place? (h : v.place? p = some place) :
    v.Paved place ∧ v.lookup? place = v.lookup? p := by
  induction p generalizing v place with
  | nil =>
    cases h
    exact ⟨trivial, rfl⟩
  | cons step rest ih =>
    obtain ⟨part, own, rest', hm, hs, hp, rfl⟩ := place?_cons_eq_some_iff.1 h
    obtain ⟨hpaved, hl⟩ := ih hp
    have hown := (member?_of_spelling? hs).trans hm
    refine ⟨⟨fits_of_spelling? hs, part, hown, hpaved⟩, ?_⟩
    rw [lookup?_cons, lookup?_cons, hown, hm, Option.bind_some, Option.bind_some, hl]

theorem assign?_of_place? (h : v.place? p = some place) (w : Value) :
    v.assign? place w = v.assign? p w := by
  induction p generalizing v place with
  | nil =>
    cases h
    rfl
  | cons step rest ih =>
    obtain ⟨part, own, rest', hm, hs, hp, rfl⟩ := place?_cons_eq_some_iff.1 h
    simp only [assign?_cons, member?_of_spelling? hs, hm, Option.bind_some, ih hp,
      setMember?_of_spelling? hs]

theorem isSome_setMember? (v : Value) (step : Segment) (w : Value) :
    (v.setMember? step w).isSome = (v.member? step).isSome := by
  cases hm : v.member? step with
  | some part =>
    obtain ⟨own, hs⟩ := spelling?_of_member? hm
    obtain ⟨changed, hc⟩ := setMember?_of_fits (fits_of_spelling? hs)
      ((member?_of_spelling? hs).trans hm) w
    rw [← setMember?_of_spelling? hs, hc]
    rfl
  | none =>
    cases hc : v.setMember? step w with
    | none => rfl
    | some changed =>
      have hsome := member?_isSome_of_setMember? hc
      rw [hm] at hsome
      cases hsome

/-- A value can be put at the end of a path exactly if the path leads somewhere. -/
theorem isSome_assign? (v : Value) (p : Path) (w : Value) :
    (v.assign? p w).isSome = (v.lookup? p).isSome := by
  induction p generalizing v with
  | nil => rfl
  | cons step rest ih =>
    rw [assign?_cons, lookup?_cons]
    cases hm : v.member? step with
    | none => rfl
    | some part =>
      rw [Option.bind_some, Option.bind_some, ← ih part]
      cases part.assign? rest w with
      | none => rfl
      | some changed =>
        rw [Option.bind_some, isSome_setMember?, hm]
        rfl

theorem spelling?_of_respelled (h : step.Respelled other) (v : Value) :
    v.spelling? other = v.spelling? step := by
  cases v <;> simp only [spelling?, h.text_eq, h.position?_eq]

theorem member?_of_respelled (h : step.Respelled other) (v : Value) :
    v.member? other = v.member? step := by
  cases v <;> simp only [member?, h.text_eq, h.position?_eq]

theorem setMember?_of_respelled (h : step.Respelled other) (v w : Value) :
    v.setMember? other w = v.setMember? step w := by
  cases v <;> simp only [setMember?, h.text_eq, h.position?_eq]

theorem place?_of_respelled (h : p.Respelled q) (v : Value) : v.place? q = v.place? p := by
  induction h generalizing v with
  | nil => rfl
  | cons hs _ ih => simp only [place?, member?_of_respelled hs, spelling?_of_respelled hs, ih]

theorem lookup?_of_respelled (h : p.Respelled q) (v : Value) : v.lookup? q = v.lookup? p := by
  induction h generalizing v with
  | nil => rfl
  | cons hs _ ih => simp only [lookup?_cons, member?_of_respelled hs, ih]

theorem assign?_of_respelled (h : p.Respelled q) (v w : Value) :
    v.assign? q w = v.assign? p w := by
  induction h generalizing v with
  | nil => rfl
  | cons hs _ ih =>
    simp only [assign?_cons, member?_of_respelled hs, setMember?_of_respelled hs, ih]

/-- Whether two values are the same apart from a place: the same paths lead anywhere apart from it,
to the same places, and the same parts are there. -/
def AgreeApart (place : Path) (v w : Value) : Prop :=
  ∀ path own, v.place? path = some own ∨ w.place? path = some own → place.Apart own →
    w.place? path = v.place? path ∧ w.lookup? path = v.lookup? path

theorem agreeApart_nil (v w : Value) : AgreeApart [] v w :=
  fun _ _ _ ha => absurd List.nil_prefix ha.1

/-- The whole value lies apart from nothing in it. -/
theorem not_apart_of_place?_nil (h : v.place? [] = some place ∨ w.place? [] = some place) :
    ¬ p.Apart place := by
  have hnil : place = [] := by rcases h with h | h <;> exact (Option.some.inj h).symm
  rw [hnil]
  exact fun ha => ha.2 List.nil_prefix

/-- Two containers of one kind that have the same members, except perhaps at a step. -/
structure DiffersAt (step : Segment) (v w : Value) : Prop where
  spelling (other : Segment) : w.spelling? other = v.spelling? other
  member (other : Segment) (hf : fits v other = true) (hn : other ≠ step) :
    w.member? other = v.member? other

theorem differsAt_of_store (h : store v step w = .ok changed) : DiffersAt step v changed := by
  cases v with
  | object members =>
    cases step with
    | key name =>
      cases h
      refine ⟨fun other => rfl, fun other hf hn => ?_⟩
      cases other with
      | key text => exact Table.find?_insert_of_ne members w fun he => hn (congrArg _ he.symm)
      | index position => cases hf
    | index position => cases h
  | array items =>
    cases step with
    | key name => cases h
    | index position =>
      unfold store at h
      dsimp only at h
      split at h
      · cases h
        refine ⟨fun other => rfl, fun other hf hn => ?_⟩
        cases other with
        | key text => cases hf
        | index other => exact List.getElem?_set_ne fun he => hn (congrArg _ he.symm)
      · split at h
        · rename_i hge he
          cases h
          refine ⟨fun other => rfl, fun other hf hn => ?_⟩
          cases other with
          | key text => cases hf
          | index other =>
            have hne : other ≠ items.length := fun ho => hn (congrArg _ (ho.trans he.symm))
            change (items ++ [w])[other]? = items[other]?
            rw [List.getElem?_append]
            split
            · rfl
            · have hlt : items.length < other := by omega
              rw [List.getElem?_eq_none (Nat.le_sub_of_add_le' hlt),
                List.getElem?_eq_none hlt.le]
        · cases h
  | _ => cases h

theorem DiffersAt.of_ne (h : DiffersAt step v w) (hs : v.spelling? other = some own)
    (hn : own ≠ step) (rest : Path) :
    w.place? (other :: rest) = v.place? (other :: rest) ∧
      w.lookup? (other :: rest) = v.lookup? (other :: rest) := by
  have hw : w.spelling? other = some own := (h.spelling other).trans hs
  have hm : w.member? other = v.member? other := by
    rw [← member?_of_spelling? hs, ← member?_of_spelling? hw]
    exact h.member own (fits_of_spelling? hs) hn
  simp only [place?, lookup?_cons, hm, hs, hw, and_self]

/-- The first step on the way to a place, as both containers spell it. -/
theorem DiffersAt.spelling_of_place? (h : DiffersAt step v w) {rest : Path}
    (hp : v.place? (other :: rest) = some place ∨ w.place? (other :: rest) = some place) :
    ∃ own rest', v.spelling? other = some own ∧ place = own :: rest' := by
  rcases hp with hp | hp
  · obtain ⟨-, own, rest', -, hs, -, rfl⟩ := place?_cons_eq_some_iff.1 hp
    exact ⟨own, rest', hs, rfl⟩
  · obtain ⟨-, own, rest', -, hs, -, rfl⟩ := place?_cons_eq_some_iff.1 hp
    exact ⟨own, rest', (h.spelling other).symm.trans hs, rfl⟩

theorem DiffersAt.agreeApart (h : DiffersAt step v w) : AgreeApart [step] v w := by
  intro path place hp ha
  cases path with
  | nil => exact absurd ha (not_apart_of_place?_nil hp)
  | cons other rest =>
    obtain ⟨own, rest', hs, rfl⟩ := h.spelling_of_place? hp
    refine h.of_ne hs (fun he => ha.1 ?_) rest
    rw [he]
    exact List.cons_prefix_cons.2 ⟨rfl, List.nil_prefix⟩

/-- What is the same within a member stays the same within the container. -/
theorem DiffersAt.agreeApart_cons (h : DiffersAt step v w) (hf : fits v step = true)
    (hv : v.member? step = some part) (hw : w.member? step = some part')
    (hp : AgreeApart p part part') : AgreeApart (step :: p) v w := by
  intro path place hplace ha
  cases path with
  | nil => exact absurd ha (not_apart_of_place?_nil hplace)
  | cons other rest =>
    obtain ⟨own, rest', hs, rfl⟩ := h.spelling_of_place? hplace
    by_cases he : own = step
    · subst he
      have hs' : w.spelling? other = some own := (h.spelling other).trans hs
      have hvm : v.member? other = some part := (member?_of_spelling? hs).symm.trans hv
      have hwm : w.member? other = some part' := (member?_of_spelling? hs').symm.trans hw
      simp only [place?, lookup?_cons, hvm, hwm, hs, hs', Option.bind_some] at hplace ⊢
      have hrest : part.place? rest = some rest' ∨ part'.place? rest = some rest' := by
        simpa using hplace
      obtain ⟨hplaces, hparts⟩ := hp rest rest' hrest ha.of_cons
      exact ⟨by rw [hplaces], hparts⟩
    · exact h.of_ne hs he rest

/-- A write within a part of a value changes nothing in the value that it does not change there. -/
theorem agreeApart_of_assign? (hp : v.Paved p) (hl : v.lookup? p = some part)
    (h : v.assign? p part' = some changed) (hq : AgreeApart q part part') :
    AgreeApart (p ++ q) v changed := by
  induction p generalizing v changed with
  | nil =>
    cases hl
    cases h
    exact hq
  | cons step rest ih =>
    obtain ⟨hf, inner, hm, hp⟩ := hp
    rw [lookup?_cons, hm, Option.bind_some] at hl
    rw [assign?_cons, hm, Option.bind_some] at h
    obtain ⟨inner', ha, h⟩ := Option.bind_eq_some_iff.1 h
    exact (differsAt_of_store (store_of_setMember? hf h)).agreeApart_cons hf hm
      (member?_of_setMember? h) (ih hp hl ha)

/-- The same at the place that any path to the part leads to. -/
theorem exists_place_agreeApart (hl : v.lookup? p = some part) (h : v.assign? p part' = some changed)
    (hq : AgreeApart q part part') :
    ∃ place, v.place? p = some place ∧ AgreeApart (place ++ q) v changed := by
  obtain ⟨place, hplace⟩ := place?_of_lookup? hl
  obtain ⟨hpaved, hsame⟩ := lookup?_of_place? hplace
  exact ⟨place, hplace, agreeApart_of_assign? hpaved (hsame.trans hl)
    ((assign?_of_place? hplace part').trans h) hq⟩

/-- A value can be put where a path leads somewhere and nowhere else. It is found there with all its
parts, everything apart from its place is as it was, and paths that differ only in how they spell
positions lead to one place, in reading and in writing. -/
theorem assign_replaces_place (v w : Value) (p : Path) :
    ((v.assign? p w).isSome = (v.lookup? p).isSome ∧
      (v.lookup? p = none → (v.assign? p w).getD v = v)) ∧
    (∀ changed, v.assign? p w = some changed →
      (∀ rest, changed.lookup? (p ++ rest) = w.lookup? rest) ∧
      ∃ place, v.place? p = some place ∧ AgreeApart place v changed) ∧
    ∀ q, p.Respelled q → v.place? q = v.place? p ∧ v.lookup? q = v.lookup? p ∧
      v.assign? q w = v.assign? p w := by
  refine ⟨⟨isSome_assign? v p w, fun hl => ?_⟩, fun changed h => ⟨fun rest => ?_, ?_⟩,
    fun q hq => ⟨place?_of_respelled hq v, lookup?_of_respelled hq v, assign?_of_respelled hq v w⟩⟩
  · have hnone : v.assign? p w = none := by
      rw [← Option.not_isSome_iff_eq_none, isSome_assign?, hl]
      exact Bool.false_ne_true
    rw [hnone, Option.getD_none]
  · rw [lookup?_append, lookup?_of_assign? h, Option.bind_some]
  · have hsome : (v.lookup? p).isSome := by
      rw [← isSome_assign? v p w, h]
      rfl
    obtain ⟨part, hl⟩ := Option.isSome_iff_exists.1 hsome
    obtain ⟨place, hplace, hagree⟩ := exists_place_agreeApart hl h (agreeApart_nil part w)
    rw [List.append_nil] at hagree
    exact ⟨place, hplace, hagree⟩

end Value

end ConfigDoc
