import ConfigDoc.Proofs.Value.Templates
import ConfigDoc.Value.Text
import Mathlib.Data.Fintype.Card
import Mathlib.Data.Set.Finite.List
import Mathlib.Logic.Relation

/-! Which token keys depend on which, and the texts that stand for them all at once. -/

namespace ConfigDoc.Template
open Relation

/-- A token key depends on the tokens of the templates in the value that it names. -/
def DependsOn (find : String → Option Value) (key key' : String) : Prop :=
  ∃ v, find key = some v ∧ key' ∈ v.tokenKeys

/-- Some key on the way from the given ones needs its own text. -/
def Circular (find : String → Option Value) (keys : List String) : Prop :=
  ∃ key ∈ keys, ∃ key', ReflTransGen (DependsOn find) key key' ∧
    TransGen (DependsOn find) key' key'

/-- Texts for all token keys that fit together: each is the text of the value that the key names,
with every template in there filled in, and nothing if the key names nothing. -/
def Solves (find : String → Option Value) (textOf : String → String) : Prop :=
  ∀ key, textOf key = match find key with
    | none => ""
    | some v => (v.fill textOf).text

/-- The text of a token key, where it can be computed from its dependencies. -/
inductive HasText (find : String → Option Value) : String → String → Prop where
  | missing {key : String} (h : find key = none) : HasText find key ""
  | found {key : String} {v : Value} (h : find key = some v) (textOf : String → String)
      (ht : ∀ key' ∈ v.tokenKeys, HasText find key' (textOf key')) :
      HasText find key (v.fill textOf).text

variable {find : String → Option Value} {key key' s s' : String}

theorem HasText.unique (h : HasText find key s) (h' : HasText find key s') : s = s' := by
  induction h generalizing s' with
  | missing hf =>
    cases h' with
    | missing => rfl
    | found hf' => cases hf.symm.trans hf'
  | found hf textOf ht ih =>
    cases h' with
    | missing hf' => cases hf.symm.trans hf'
    | found hf' textOf' ht' =>
      cases hf.symm.trans hf'
      rw [Value.fill_congr _ fun k hk => ih k hk (ht' k hk)]

def Grounded (find : String → Option Value) (key : String) : Prop := ∃ s, HasText find key s

theorem grounded_of_dependencies {v : Value} (hf : find key = some v)
    (h : ∀ key' ∈ v.tokenKeys, Grounded find key') : Grounded find key := by
  choose! textOf ht using h
  exact ⟨_, .found hf textOf ht⟩

theorem Grounded.dependency (h : Grounded find key) (hd : DependsOn find key key') :
    Grounded find key' := by
  obtain ⟨s, h⟩ := h
  obtain ⟨v, hf, hk⟩ := hd
  cases h with
  | missing hf' => cases hf.symm.trans hf'
  | found hf' textOf ht =>
    cases hf.symm.trans hf'
    exact ⟨_, ht key' hk⟩

theorem Grounded.reachable (h : Grounded find key) (hr : ReflTransGen (DependsOn find) key key') :
    Grounded find key' := by
  induction hr with
  | refl => exact h
  | tail _ hd ih => exact ih.dependency hd

/-- A key with a text is on no circle: its text is made of texts that came before it. -/
theorem HasText.not_cyclic (h : HasText find key s) : ¬ TransGen (DependsOn find) key key := by
  induction h with
  | missing hf =>
    intro hc
    obtain ⟨k, ⟨v, hv, -⟩, -⟩ := TransGen.head'_iff.1 hc
    cases hf.symm.trans hv
  | found hf textOf ht ih =>
    intro hc
    obtain ⟨k, ⟨v, hv, hk⟩, hr⟩ := TransGen.head'_iff.1 hc
    cases hf.symm.trans hv
    exact ih k hk (TransGen.tail' hr ⟨_, hf, hk⟩)

/-- Where finitely many keys are ever needed, a key from which no circle is reached has a text. -/
theorem grounded_of_acyclic {keys : List String} (hk : ∀ {k k'}, DependsOn find k k' → k' ∈ keys)
    (h : ∀ key', ReflTransGen (DependsOn find) key key' → ¬ TransGen (DependsOn find) key' key') :
    Grounded find key := by
  let Reached := { k // k ∈ key :: keys ∧ ReflTransGen (DependsOn find) key k }
  have hfinite : Finite Reached :=
    ((List.finite_toSet (key :: keys)).subset fun k hk => hk.1 :
      { k | k ∈ key :: keys ∧ ReflTransGen (DependsOn find) key k }.Finite).to_subtype
  let below (k k' : Reached) : Prop := TransGen (DependsOn find) k'.1 k.1
  have : IsTrans Reached below := ⟨fun a b c hab hbc => hbc.trans hab⟩
  have : Std.Irrefl below := ⟨fun k hc => h k.1 k.2.2 hc⟩
  have hwf : WellFounded below := Finite.wellFounded_of_trans_of_irrefl below
  suffices hall : ∀ k : Reached, Grounded find k.1 from
    hall ⟨key, List.mem_cons_self, .refl⟩
  intro k
  induction k using hwf.induction with
  | _ k ih =>
    cases hf : find k.1 with
    | none => exact ⟨"", .missing hf⟩
    | some v =>
      refine grounded_of_dependencies hf fun k' hk' => ?_
      have hd : DependsOn find k.1 k' := ⟨v, hf, hk'⟩
      exact ih ⟨k', List.mem_cons_of_mem _ (hk hd), k.2.2.tail hd⟩ (.single hd)

theorem not_circular_iff {keys all : List String} (hk : ∀ {k k'}, DependsOn find k k' → k' ∈ all) :
    ¬ Circular find keys ↔ ∀ key ∈ keys, Grounded find key := by
  constructor
  · intro h key hm
    exact grounded_of_acyclic hk fun key' hr hc => h ⟨key, hm, key', hr, hc⟩
  · rintro h ⟨key, hm, key', hr, hc⟩
    obtain ⟨s, hs⟩ := (h key hm).reachable hr
    exact hs.not_cyclic hc

open Classical in
noncomputable def textOf (find : String → Option Value) (key : String) : String :=
  if h : Grounded find key then h.choose else ""

theorem Grounded.hasText (h : Grounded find key) : HasText find key (textOf find key) := by
  rw [textOf, dif_pos h]
  exact h.choose_spec

theorem HasText.textOf_eq (h : HasText find key s) : textOf find key = s :=
  (Grounded.hasText ⟨s, h⟩).unique h

/-- If every key has a text, these are the only texts that fit together. -/
theorem solves_iff (h : ∀ key, Grounded find key) {other : String → String} :
    Solves find other ↔ other = textOf find := by
  constructor
  · intro hs
    funext key
    obtain ⟨s, ht⟩ := h key
    rw [ht.textOf_eq]
    induction ht with
    | @missing key hf =>
      have hk := hs key
      rwa [hf] at hk
    | @found key v hf textOf ht ih =>
      have hk := hs key
      rw [hf] at hk
      exact hk.trans (congrArg Value.text (Value.fill_congr v ih))
  · rintro rfl key
    cases hf : find key with
    | none => exact (HasText.missing hf).textOf_eq
    | some v => exact (HasText.found hf _ fun k _ => (h k).hasText).textOf_eq

end ConfigDoc.Template
