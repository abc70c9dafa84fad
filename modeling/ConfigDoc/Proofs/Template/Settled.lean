import ConfigDoc.Proofs.Template.Resolution
import ConfigDoc.Proofs.Value.Settling

/-! Replacing a template by its text changes no other text. -/

namespace ConfigDoc.Template
open Value

def Ready (document : Value) (t : Template) : Prop :=
  ∀ key ∈ t.tokenKeys, Grounded document.get? key

theorem dependsOn_get? {document : Value} {key key' : String}
    (h : DependsOn document.get? key key') : key' ∈ document.tokenKeys := by
  obtain ⟨v, hv, hk⟩ := h
  exact tokenKeys_subset_of_lookup? hv hk

/-- A document has no circle that matters exactly if all of its templates are ready. -/
theorem not_circular_iff_ready (document : Value) :
    ¬ Circular document.get? document.tokenKeys ↔ ∀ t ∈ document.templates, Ready document t := by
  rw [not_circular_iff dependsOn_get?]
  constructor
  · exact fun h t ht key hk => h key (mem_tokenKeys_iff.2 ⟨t, ht, hk⟩)
  · intro h key hk
    obtain ⟨t, ht, hk⟩ := mem_tokenKeys_iff.1 hk
    exact h t ht key hk

/-- Then there is one way to give texts to all keys. -/
theorem solves_iff_of_ready {document : Value} (h : ∀ t ∈ document.templates, Ready document t)
    {other : String → String} : Solves document.get? other ↔ other = textOf document.get? := by
  apply solves_iff
  intro key
  cases hf : document.get? key with
  | none => exact ⟨"", .missing hf⟩
  | some v =>
    apply grounded_of_dependencies hf
    intro key' hk
    obtain ⟨t, ht, hk⟩ := mem_tokenKeys_iff.1 (dependsOn_get? ⟨v, hf, hk⟩)
    exact h t ht key' hk

abbrev Settled (document later : Value) : Prop :=
  Settles (Ready document) (textOf document.get?) document later

variable {document later : Value} {key s : String}

theorem Settled.get? (h : Settled document later) (key : String) :
    (document.get? key = none ∧ later.get? key = none) ∨ ∃ v w, document.get? key = some v ∧
      later.get? key = some w ∧ Settles (Ready document) (textOf document.get?) v w := by
  have hl := h.lookup? (Path.ofText key)
  unfold Value.get?
  revert hl
  cases document.lookup? (Path.ofText key) <;> cases later.lookup? (Path.ofText key) <;> intro hl
  · exact .inl ⟨rfl, rfl⟩
  · cases hl
  · cases hl
  · cases hl with
    | some hs => exact .inr ⟨_, _, rfl, rfl, hs⟩

theorem Settled.hasText (h : Settled document later) (ht : HasText document.get? key s) :
    HasText later.get? key s := by
  induction ht with
  | @missing key hf =>
    rcases h.get? key with ⟨-, hl⟩ | ⟨v, w, hv, -⟩
    · exact .missing hl
    · cases hf.symm.trans hv
  | @found key v hf given ht ih =>
    rcases h.get? key with ⟨hn, -⟩ | ⟨v', w, hv, hw, hs⟩
    · cases hf.symm.trans hn
    cases hf.symm.trans hv
    have hfill : v.fill given = w.fill given := by
      rw [fill_congr v fun k hk => (ht k hk).textOf_eq.symm, ← hs.fill_eq]
      refine fill_congr w fun k hk => ?_
      obtain ⟨t, hm, hk⟩ := mem_tokenKeys_iff.1 hk
      exact (ht k (mem_tokenKeys_iff.2 ⟨t, hs.templates.1 hm, hk⟩)).textOf_eq
    rw [hfill]
    refine .found hw given fun k hk => ih k ?_
    obtain ⟨t, hm, hk⟩ := mem_tokenKeys_iff.1 hk
    exact mem_tokenKeys_iff.2 ⟨t, hs.templates.1 hm, hk⟩

theorem Settled.grounded_of_later (h : Settled document later) (hg : Grounded later.get? key) :
    Grounded document.get? key := by
  obtain ⟨s, ht⟩ := hg
  induction ht with
  | @missing key hf =>
    rcases h.get? key with ⟨hn, -⟩ | ⟨v, w, -, hw, -⟩
    · exact ⟨"", .missing hn⟩
    · cases hf.symm.trans hw
  | @found key w hf given ht ih =>
    rcases h.get? key with ⟨-, hn⟩ | ⟨v, w', hv, hw, hs⟩
    · cases hf.symm.trans hn
    cases hf.symm.trans hw
    refine grounded_of_dependencies hv fun k hk => ?_
    -- A token of the earlier value is still there, or belongs to a template that was ready.
    obtain ⟨t, hm, hk⟩ := mem_tokenKeys_iff.1 hk
    rcases hs.templates.2 t hm with hl | hr
    · exact ih k (mem_tokenKeys_iff.2 ⟨t, hl, hk⟩)
    · exact hr k hk

theorem Settled.grounded_iff (h : Settled document later) :
    Grounded later.get? key ↔ Grounded document.get? key :=
  ⟨h.grounded_of_later, fun ⟨s, ht⟩ => ⟨s, h.hasText ht⟩⟩

/-- The texts stay what they were. -/
theorem Settled.textOf_eq (h : Settled document later) :
    textOf later.get? = textOf document.get? := by
  funext key
  by_cases hg : Grounded document.get? key
  · exact (h.hasText hg.hasText).textOf_eq
  · rw [textOf, textOf, dif_neg hg, dif_neg fun hl => hg (h.grounded_of_later hl)]

theorem find?_singleton (document : Value) : find? [document] = document.get? := by
  funext key
  simp only [find?, List.findSome?_cons, List.findSome?_nil]
  cases document.get? key <;> rfl

/-- A ready template resolves to its text in every later state. -/
theorem Settled.resolve_eq_ok (h : Settled document later) {t : Template} (ht : Ready document t) :
    t.resolve [later] = .ok (t.substitute (textOf document.get?)) := by
  rw [Template.resolve_eq_ok, find?_singleton, h.textOf_eq]
  rw [find?_singleton]
  exact fun key hk => h.grounded_iff.2 (ht key hk)

/-- Any other template never resolves. -/
theorem Settled.resolve_eq_error (h : Settled document later) {t : Template}
    (ht : ¬ Ready document t) : ∃ chain, t.resolve [later] = .error (.circularTemplate chain) := by
  apply Template.resolve_eq_error
  intro hall
  apply ht
  intro key hk
  rw [find?_singleton] at hall
  exact h.grounded_iff.1 (hall key hk)

end ConfigDoc.Template
