import ConfigDoc.Proofs.Template.Cut
import ConfigDoc.Proofs.Template.Resolution

namespace ConfigDoc.Template

/-- The text that stands for a token key. A key that leads nowhere stands for nothing. Otherwise the
first source that it leads into gives a value, and the text is the one of that value with the
templates in it resolved against the same sources. -/
inductive StandsFor (sources : List Value) (key : String) : String → Prop where
  | nothing (h : ∀ source ∈ sources, source.lookup? (Path.ofText key) = none) :
      StandsFor sources key ""
  | value {before after : List Value} {source v w : Value}
      (split : sources = before ++ source :: after)
      (earlier : ∀ other ∈ before, other.lookup? (Path.ofText key) = none)
      (found : source.lookup? (Path.ofText key) = some v)
      (resolved : v.mapTemplates (fun nested => .string <$> nested.resolve sources) = .ok w) :
      StandsFor sources key w.text

variable {sources : List Value} {key s : String}

theorem find?_eq_none_iff :
    find? sources key = none ↔ ∀ source ∈ sources, source.lookup? (Path.ofText key) = none := by
  rw [find?, List.findSome?_eq_none_iff]
  rfl

theorem find?_eq_some_iff {v : Value} : find? sources key = some v ↔
    ∃ before source after, sources = before ++ source :: after ∧
      source.lookup? (Path.ofText key) = some v ∧
      ∀ other ∈ before, other.lookup? (Path.ofText key) = none := by
  rw [find?, List.findSome?_eq_some_iff]
  rfl

/-- Resolving the templates in a value fills in the texts of their tokens. -/
theorem mapTemplates_resolve_eq_ok_iff {v w : Value} :
    v.mapTemplates (fun nested => .string <$> nested.resolve sources) = .ok w ↔
      (∀ key ∈ v.tokenKeys, Grounded (find? sources) key) ∧
        w = v.fill (textOf (find? sources)) := by
  have hfill (hg : ∀ key ∈ v.tokenKeys, Grounded (find? sources) key) :
      v.mapTemplates (fun nested => .string <$> nested.resolve sources) =
        .ok (v.fill (textOf (find? sources))) := by
    apply Value.mapTemplates_eq_fill
    intro nested hn
    rw [resolve_eq_ok fun key hk => hg key (Value.mem_tokenKeys_iff.2 ⟨nested, hn, hk⟩)]
    rfl
  constructor
  · intro h
    have hg : ∀ key ∈ v.tokenKeys, Grounded (find? sources) key := by
      intro key hk
      obtain ⟨nested, hn, hk⟩ := Value.mem_tokenKeys_iff.1 hk
      obtain ⟨u, hu⟩ := Value.resolve_isOk_of_mapTemplates v h nested hn
      obtain ⟨text, ht, -⟩ := map_eq_ok_iff.1 hu
      exact grounded_of_resolveWithin ht key hk
    exact ⟨hg, (Except.ok.inj ((hfill hg).symm.trans h)).symm⟩
  · rintro ⟨hg, rfl⟩
    exact hfill hg

theorem standsFor_iff : StandsFor sources key s ↔ HasText (find? sources) key s := by
  constructor
  · intro h
    cases h with
    | nothing h => exact .missing (find?_eq_none_iff.2 h)
    | value split earlier found resolved =>
      have hf := find?_eq_some_iff.2 ⟨_, _, _, split, found, earlier⟩
      obtain ⟨hg, rfl⟩ := mapTemplates_resolve_eq_ok_iff.1 resolved
      exact .found hf _ fun k hk => (hg k hk).hasText
  · intro h
    cases h with
    | missing hf => exact .nothing (find?_eq_none_iff.1 hf)
    | @found _ v hf given ht =>
      obtain ⟨before, source, after, split, found, earlier⟩ := find?_eq_some_iff.1 hf
      refine .value split earlier found (mapTemplates_resolve_eq_ok_iff.2 ⟨?_, ?_⟩)
      · exact fun k hk => ⟨given k, ht k hk⟩
      · exact Value.fill_congr v fun k hk => (ht k hk).textOf_eq.symm

/-- A template resolves to a text exactly if all its tokens have texts and it is made of these. -/
theorem resolve_eq_ok_iff {t : Template} : t.resolve sources = .ok s ↔
    (∀ key ∈ t.tokenKeys, Grounded (find? sources) key) ∧
      s = t.substitute (textOf (find? sources)) := by
  constructor
  · intro h
    have hg := grounded_of_resolveWithin h
    exact ⟨hg, Except.ok.inj (h.symm.trans (resolve_eq_ok hg))⟩
  · rintro ⟨hg, rfl⟩
    exact resolve_eq_ok hg

/-- For any sources there are texts for the token keys, the same in every template: a template is
cut into literals and tokens in one way, and it resolves exactly if each of its keys stands for its
text, to the literals with these texts between them. -/
theorem resolve_substitutes (sources : List Value) : ∃ textOf : String → String, ∀ t : Template,
    (∀ cut : Cut, cut.Reads t.source.toList ↔ cut = t.cut) ∧
    t.keys = t.cut.keys.eraseDups ∧
    (t.hasTokens = true ↔ 0 < t.cut.tokens.length) ∧
    ∀ s, t.resolve sources = .ok s ↔
      (∀ key ∈ t.cut.keys, StandsFor sources key (textOf key)) ∧
        s.toList = t.cut.chars fun key => (textOf key).toList := by
  refine ⟨textOf (find? sources), fun t => ⟨fun cut => reads_iff, ?_, ?_, fun s => ?_⟩⟩
  · rw [keys, tokenKeys_eq_keys_cut]
  · rw [hasTokens, tokenKeys_eq_keys_cut, Cut.keys]
    cases t.cut.tokens <;> simp
  · have hstands : (∀ key ∈ t.cut.keys, StandsFor sources key (textOf (find? sources) key)) ↔
        ∀ key ∈ t.tokenKeys, Grounded (find? sources) key := by
      rw [tokenKeys_eq_keys_cut]
      refine forall₂_congr fun key _ => ?_
      rw [standsFor_iff]
      exact ⟨fun h => ⟨_, h⟩, Grounded.hasText⟩
    rw [resolve_eq_ok_iff, hstands, ← toList_substitute, String.toList_inj]

end ConfigDoc.Template
