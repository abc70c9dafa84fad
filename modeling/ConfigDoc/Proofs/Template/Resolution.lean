import ConfigDoc.Proofs.Template.Dependency
import ConfigDoc.Template.Resolve

namespace ConfigDoc

theorem mapM_eq_ok_map {ε α β : Type} {f : α → Except ε β} {g : α → β} {as : List α}
    (h : ∀ a ∈ as, f a = .ok (g a)) : as.mapM f = .ok (as.map g) := by
  induction as with
  | nil => rfl
  | cons a rest ih =>
    obtain ⟨ha, hr⟩ := List.forall_mem_cons.1 h
    rw [List.mapM_cons, ha, ih hr]
    rfl

theorem isOk_of_mapM {ε α β : Type} {f : α → Except ε β} {as : List α} {bs : List β}
    (h : as.mapM f = .ok bs) : ∀ a ∈ as, ∃ b, f a = .ok b := by
  induction as generalizing bs with
  | nil => nofun
  | cons a rest ih =>
    rw [List.mapM_cons] at h
    obtain ⟨b, hb, h⟩ := bind_eq_ok_iff.1 h
    obtain ⟨bs, hr, -⟩ := bind_eq_ok_iff.1 h
    exact List.forall_mem_cons.2 ⟨⟨b, hb⟩, ih hr⟩

theorem error_of_mapM {ε α β : Type} {f : α → Except ε β} {as : List α} {e : ε}
    (h : as.mapM f = .error e) : ∃ a ∈ as, f a = .error e := by
  induction as with
  | nil => cases h
  | cons a rest ih =>
    rw [List.mapM_cons] at h
    rcases bind_eq_error_iff.1 h with h | ⟨b, -, h⟩
    · exact ⟨a, List.mem_cons_self, h⟩
    rcases bind_eq_error_iff.1 h with h | ⟨bs, -, h⟩
    · obtain ⟨a', hm, he⟩ := ih h
      exact ⟨a', List.mem_cons_of_mem _ hm, he⟩
    · cases h

theorem Table.find?_map {α : Type u} (f : String → α) {names : List String} {name : String}
    (h : name ∈ names) : Table.find? (names.map fun n => (n, f n)) name = some (f name) := by
  induction names with
  | nil => cases h
  | cons n rest ih =>
    rw [List.map_cons, find?_cons]
    split
    · rename_i hn
      rw [← hn]
    · rename_i hn
      exact ih ((List.mem_cons.1 h).resolve_left fun he => hn he.symm)

namespace Template
open Relation

theorem mem_keys {t : Template} {key : String} : key ∈ t.keys ↔ key ∈ t.tokenKeys :=
  List.mem_eraseDups

variable {sources : List Value}

def resolveToken (sources : List Value) (remaining visiting : List String) (key : String) :
    Except Error (String × String) :=
  if key ∈ remaining then
    match find? sources key with
    | none => .ok (key, "")
    | some v => do
      let resolved ← v.mapTemplates fun nested => do
        let text ← resolveWithin sources (without key remaining) (visiting ++ [key]) nested
        pure (.string text)
      pure (key, resolved.text)
  else .error (.circularTemplate (visiting ++ [key]))

theorem resolveWithin_eq (remaining visiting : List String) (t : Template) :
    resolveWithin sources remaining visiting t = (do
      let texts ← t.keys.mapM (resolveToken sources remaining visiting)
      pure (t.substitute fun key => (Table.find? texts key).getD "")) := by
  rw [resolveWithin]
  rfl

/-- No circle is in the way as long as every key that can be reached may still be entered. -/
theorem resolveWithin_eq_ok {remaining visiting : List String} {t : Template}
    (hg : ∀ key ∈ t.tokenKeys, Grounded (find? sources) key)
    (hr : ∀ key ∈ t.tokenKeys, ∀ key', ReflTransGen (DependsOn (find? sources)) key key' →
      key' ∈ remaining) :
    resolveWithin sources remaining visiting t =
      .ok (t.substitute (textOf (find? sources))) := by
  induction h : remaining.length using Nat.strongRecOn generalizing remaining visiting t with
  | ind n ih =>
    subst h
    have htoken : ∀ key ∈ t.keys, resolveToken sources remaining visiting key =
        .ok (key, textOf (find? sources) key) := by
      intro key hk
      rw [mem_keys] at hk
      have hfresh := hr key hk key .refl
      rw [resolveToken, if_pos hfresh]
      cases hf : find? sources key with
      | none => rw [(HasText.missing hf).textOf_eq]
      | some v =>
        have hnested : ∀ nested ∈ v.templates, (do
            let text ← resolveWithin sources (without key remaining) (visiting ++ [key]) nested
            pure (Value.string text)) =
            .ok (.string (nested.substitute (textOf (find? sources)))) := by
          intro nested hn
          have hdep {k : String} (hk : k ∈ nested.tokenKeys) :
              DependsOn (find? sources) key k :=
            ⟨v, hf, Value.mem_tokenKeys_iff.2 ⟨nested, hn, hk⟩⟩
          rw [ih _ (length_without_lt hfresh) (fun k hk' => (hg key hk).dependency (hdep hk'))
            (fun k hk' k' hk'' => ?_) rfl]
          · rfl
          -- A key below this one is another key, for this one is on no circle.
          · refine List.mem_filter.2 ⟨hr key hk k' (.head (hdep hk') hk''), ?_⟩
            have hne : k' ≠ key := fun he =>
              (hg key hk).hasText.not_cyclic (TransGen.head' (hdep hk') (he ▸ hk''))
            simpa using hne
        dsimp only
        rw [Value.mapTemplates_eq_fill v hnested]
        have htext := HasText.found hf (textOf (find? sources))
          fun k hk' => ((hg key hk).dependency ⟨v, hf, hk'⟩).hasText
        rw [htext.textOf_eq]
        rfl
    rw [resolveWithin_eq, mapM_eq_ok_map htoken]
    refine congrArg Except.ok (substitute_congr fun key hk => ?_)
    rw [Table.find?_map _ (mem_keys.2 hk), Option.getD_some]

/-- Only where all tokens have texts a template can be resolved. -/
theorem grounded_of_resolveWithin {remaining visiting : List String} {t : Template} {s : String}
    (h : resolveWithin sources remaining visiting t = .ok s) :
    ∀ key ∈ t.tokenKeys, Grounded (find? sources) key := by
  induction hn : remaining.length using Nat.strongRecOn generalizing remaining visiting t s with
  | ind n ih =>
    subst hn
    intro key hk
    rw [resolveWithin_eq] at h
    obtain ⟨texts, hm, -⟩ := bind_eq_ok_iff.1 h
    obtain ⟨pair, hp⟩ := isOk_of_mapM hm key (mem_keys.2 hk)
    rw [resolveToken] at hp
    split at hp
    · rename_i hfresh
      cases hf : find? sources key with
      | none => exact ⟨"", .missing hf⟩
      | some v =>
        rw [hf] at hp
        obtain ⟨resolved, hv, -⟩ := bind_eq_ok_iff.1 hp
        refine grounded_of_dependencies hf fun k hk => ?_
        obtain ⟨nested, hn, hk⟩ := Value.mem_tokenKeys_iff.1 hk
        obtain ⟨u, hu⟩ := Value.resolve_isOk_of_mapTemplates v hv nested hn
        obtain ⟨text, ht, -⟩ := bind_eq_ok_iff.1 hu
        exact ih _ (length_without_lt hfresh) ht rfl k hk
    · cases hp

/-- The only failure is a circle. -/
theorem circular_of_resolveWithin {remaining visiting : List String} {t : Template} {e : Error}
    (h : resolveWithin sources remaining visiting t = .error e) :
    ∃ chain, e = .circularTemplate chain := by
  induction hn : remaining.length using Nat.strongRecOn generalizing remaining visiting t with
  | ind n ih =>
    subst hn
    rw [resolveWithin_eq] at h
    rcases bind_eq_error_iff.1 h with h | ⟨texts, -, h⟩
    · obtain ⟨key, hk, he⟩ := error_of_mapM h
      rw [resolveToken] at he
      split at he
      · rename_i hfresh
        cases hf : find? sources key with
        | none =>
          rw [hf] at he
          cases he
        | some v =>
          rw [hf] at he
          rcases bind_eq_error_iff.1 he with he | ⟨resolved, -, he⟩
          · obtain ⟨nested, -, he⟩ := Value.resolve_error_of_mapTemplates v he
            rcases bind_eq_error_iff.1 he with he | ⟨text, -, he⟩
            · exact ih _ (length_without_lt hfresh) he rfl
            · cases he
          · cases he
      · cases he
        exact ⟨_, rfl⟩
    · cases h

theorem mem_of_dependsOn {key key' : String} (h : DependsOn (find? sources) key key') :
    key' ∈ sources.flatMap Value.tokenKeys := by
  obtain ⟨v, hf, hk⟩ := h
  obtain ⟨source, hs, hf⟩ := List.exists_of_findSome?_eq_some hf
  exact List.mem_flatMap.2 ⟨source, hs, Value.tokenKeys_subset_of_lookup? hf hk⟩

/-- A template whose tokens have texts gets these, whatever else is in the sources. -/
theorem resolve_eq_ok {t : Template} (h : ∀ key ∈ t.tokenKeys, Grounded (find? sources) key) :
    t.resolve sources = .ok (t.substitute (textOf (find? sources))) := by
  refine resolveWithin_eq_ok h fun key hk key' hr => ?_
  rcases ReflTransGen.cases_tail hr with rfl | ⟨_, -, hd⟩
  · exact List.mem_append_left _ hk
  · exact List.mem_append_right _ (mem_of_dependsOn hd)

/-- A template with a token that has no text meets a circle. -/
theorem resolve_eq_error {t : Template} (h : ¬ ∀ key ∈ t.tokenKeys, Grounded (find? sources) key) :
    ∃ chain, t.resolve sources = .error (.circularTemplate chain) := by
  cases hr : t.resolve sources with
  | ok s => exact absurd (grounded_of_resolveWithin hr) h
  | error e =>
    obtain ⟨chain, rfl⟩ := circular_of_resolveWithin hr
    exact ⟨chain, rfl⟩

end Template

end ConfigDoc
