import ConfigDoc.Table
import Mathlib.Data.List.Induction
import Mathlib.Data.List.Nodup

namespace ConfigDoc.Table

variable {α : Type u}

@[simp] theorem names_append (table others : Table α) :
    (table ++ others).names = table.names ++ others.names := List.map_append

theorem find?_eq_none_iff {table : Table α} {name : String} :
    table.find? name = none ↔ name ∉ table.names := by
  induction table with
  | nil => simp [names]
  | cons entry rest ih =>
    by_cases h : entry.1 = name
    · simp [find?_cons, names, h]
    · have h' : ¬ name = entry.1 := fun e => h e.symm
      simp only [find?_cons, h, if_false, ih, names, List.map_cons, List.mem_cons, h', false_or]

theorem mem_of_find? {table : Table α} {name : String} {value : α}
    (h : table.find? name = some value) : (name, value) ∈ table := by
  induction table with
  | nil => cases h
  | cons entry rest ih =>
    rw [find?_cons] at h
    split at h
    · rename_i hn
      cases h
      exact hn ▸ List.mem_cons_self
    · exact List.mem_cons_of_mem _ (ih h)

theorem find?_of_mem {table : Table α} {name : String} {value : α} (hn : table.names.Nodup)
    (h : (name, value) ∈ table) : table.find? name = some value := by
  induction table with
  | nil => cases h
  | cons entry rest ih =>
    obtain ⟨hnew, hn⟩ := List.nodup_cons.1 hn
    rw [find?_cons]
    rcases List.mem_cons.1 h with rfl | h
    · exact if_pos rfl
    · have hne : entry.1 ≠ name := fun he => hnew (he ▸ List.mem_map_of_mem (f := Prod.fst) h)
      rw [if_neg hne, ih hn h]

theorem has_iff {table : Table α} {name : String} : table.has name = true ↔ name ∈ table.names := by
  have h : table.find? name = none ↔ name ∉ table.names := find?_eq_none_iff
  rw [has, Option.isSome_iff_ne_none, ne_eq, h, not_not]

theorem insert_append_cons {before after : Table α} {name : String} {value other : α}
    (h : name ∉ before.names) :
    insert (before ++ (name, other) :: after) name value = before ++ (name, value) :: after := by
  induction before with
  | nil => simp [insert]
  | cons entry rest ih =>
    simp only [names, List.map_cons, List.mem_cons, not_or] at h
    rw [List.cons_append, insert, if_neg (Ne.symm h.1), ih h.2, List.cons_append]

theorem insert_of_not_mem {table : Table α} {name : String} {value : α}
    (h : name ∉ table.names) : table.insert name value = table ++ [(name, value)] := by
  induction table with
  | nil => simp [insert]
  | cons entry rest ih =>
    simp only [names, List.map_cons, List.mem_cons, not_or] at h
    rw [insert, if_neg (Ne.symm h.1), ih h.2, List.cons_append]

/-- A name that is present splits the table at its first entry. -/
theorem exists_split {table : Table α} {name : String} (h : name ∈ table.names) :
    ∃ (before : Table α) (value : α) (after : Table α),
      table = before ++ (name, value) :: after ∧ name ∉ before.names := by
  induction table with
  | nil => simp [names] at h
  | cons entry rest ih =>
    by_cases he : entry.1 = name
    · subst he
      exact ⟨[], entry.2, rest, rfl, by simp [names]⟩
    · simp only [names, List.map_cons, List.mem_cons] at h
      obtain ⟨before, value, after, rfl, hb⟩ := ih (h.resolve_left (Ne.symm he))
      exact ⟨entry :: before, value, after, rfl, by simpa [names, Ne.symm he] using hb⟩

theorem insert_insert (table : Table α) (name : String) (value other : α) :
    (table.insert name other).insert name value = table.insert name value := by
  by_cases h : name ∈ table.names
  · obtain ⟨before, old, after, rfl, hb⟩ := exists_split h
    rw [insert_append_cons hb, insert_append_cons hb, insert_append_cons hb]
  · rw [insert_of_not_mem h, insert_of_not_mem h, insert_append_cons h]

theorem mem_names_insert {table : Table α} {name other : String} {value : α} :
    other ∈ (table.insert name value).names ↔ other = name ∨ other ∈ table.names := by
  rw [names_insert]
  split
  · rename_i h
    constructor
    · exact .inr
    · rintro (rfl | ho)
      · exact h
      · exact ho
  · rw [List.mem_append, List.mem_singleton, or_comm]

theorem nodup_insert {table : Table α} (name : String) (value : α) (h : table.names.Nodup) :
    (table.insert name value).names.Nodup := by
  rw [names_insert]
  split
  · exact h
  · rename_i hn
    exact List.nodup_append.2 ⟨h, by simp, by rintro a ha b hb rfl; simp_all⟩

/-- Fresh names are appended in order. -/
theorem foldl_insert {table pairs : Table α} (h : (table.names ++ pairs.names).Nodup) :
    pairs.foldl (fun table pair => table.insert pair.1 pair.2) table = table ++ pairs := by
  induction pairs generalizing table with
  | nil => simp
  | cons pair rest ih =>
    have hp : pair.1 ∉ table.names := by
      simp only [names, List.map_cons] at h
      exact fun hm => (List.nodup_append.1 h).2.2 _ hm _ List.mem_cons_self rfl
    rw [List.foldl_cons, insert_of_not_mem hp, ih (by simpa [names] using h)]
    simp

theorem ofList_of_nodup {pairs : Table α} (h : pairs.names.Nodup) : ofList pairs = pairs := by
  rw [ofList, foldl_insert (by simpa only [names, List.map_nil, List.nil_append] using h),
    List.nil_append]

theorem ofList_append_singleton (pairs : Table α) (pair : String × α) :
    ofList (pairs ++ [pair]) = (ofList pairs).insert pair.1 pair.2 :=
  List.foldl_concat ..

/-- Names stand in the order in which they come first. -/
theorem names_ofList (pairs : Table α) : (ofList pairs).names = pairs.names.eraseDups := by
  induction pairs using List.reverseRecOn with
  | nil => rfl
  | append_singleton rest pair ih =>
    rw [ofList_append_singleton, names_insert, ih, names_append, List.eraseDups_append,
      show names [pair] = [pair.1] from rfl]
    simp only [List.mem_eraseDups]
    split
    · rename_i hm
      simp [List.removeAll, hm]
    · rename_i hm
      simp [List.removeAll, hm, List.eraseDups_cons]

/-- A name stands for what comes last under it. -/
theorem find?_ofList (pairs : Table α) (name : String) :
    (ofList pairs).find? name = (pairs.reverse.find? fun pair => pair.1 = name).map Prod.snd := by
  induction pairs using List.reverseRecOn with
  | nil => rfl
  | append_singleton rest pair ih =>
    rw [ofList_append_singleton, List.reverse_append, List.reverse_singleton, List.singleton_append,
      List.find?_cons]
    by_cases hn : pair.1 = name
    · simp [hn]
    · rw [find?_insert_of_ne _ _ hn, ih]
      simp [hn]

theorem mem_of_mem_insert {table : Table α} {name : String} {value : α} {pair : String × α}
    (h : pair ∈ table.insert name value) : pair = (name, value) ∨ pair ∈ table := by
  induction table with
  | nil => exact .inl (List.mem_singleton.1 h)
  | cons entry rest ih =>
    rw [insert] at h
    split at h
    · exact (List.mem_cons.1 h).imp_right (List.mem_cons_of_mem _)
    · rcases List.mem_cons.1 h with rfl | h
      · exact .inr List.mem_cons_self
      · exact (ih h).imp_right (List.mem_cons_of_mem _)

def insertAll (table pairs : Table α) : Table α :=
  pairs.foldl (fun table pair => table.insert pair.1 pair.2) table

theorem mem_of_mem_insertAll {table pairs : Table α} {pair : String × α}
    (h : pair ∈ insertAll table pairs) :
    pair ∈ table ∨ pair ∈ pairs := by
  induction pairs generalizing table with
  | nil => exact .inl h
  | cons first rest ih =>
    rcases ih h with h | h
    · rcases mem_of_mem_insert h with rfl | h
      · exact .inr List.mem_cons_self
      · exact .inl h
    · exact .inr (List.mem_cons_of_mem _ h)

theorem mem_of_mem_ofList {pairs : Table α} {pair : String × α} (h : pair ∈ ofList pairs) :
    pair ∈ pairs := (mem_of_mem_insertAll h).resolve_left List.not_mem_nil

theorem nodup_insertAll {table pairs : Table α} (h : table.names.Nodup) :
    (insertAll table pairs).names.Nodup := by
  induction pairs generalizing table with
  | nil => exact h
  | cons first rest ih => exact ih (nodup_insert _ _ h)

theorem nodup_ofList (pairs : Table α) : (ofList pairs).names.Nodup :=
  nodup_insertAll List.nodup_nil

def Named {β : Type v} (R : α → β → Prop) (pair : String × α) (other : String × β) : Prop :=
  pair.1 = other.1 ∧ R pair.2 other.2

section
variable {β : Type v} {R : α → β → Prop} {table pairs : Table α} {others : Table β}

theorem forall₂_insert (h : List.Forall₂ (Named R) table others) (name : String) {value : α}
    {other : β} (hv : R value other) :
    List.Forall₂ (Named R) (table.insert name value) (others.insert name other) := by
  induction h with
  | nil => exact .cons ⟨rfl, hv⟩ .nil
  | @cons pair pair' rest rest' hp hr ih =>
    rw [insert, insert, hp.1]
    split
    · exact .cons ⟨rfl, hv⟩ hr
    · exact .cons hp ih

theorem forall₂_insertAll {pairs' : Table β} (h : List.Forall₂ (Named R) table others)
    (hp : List.Forall₂ (Named R) pairs pairs') :
    List.Forall₂ (Named R) (insertAll table pairs)
      (insertAll others pairs') := by
  induction hp generalizing table others with
  | nil => exact h
  | @cons pair pair' rest rest' hp hr ih =>
    rw [insertAll, insertAll, List.foldl_cons, List.foldl_cons, hp.1]
    exact ih (forall₂_insert h _ hp.2)

/-- What has been replaced by an insertion stood for something too. -/
theorem exists_of_forall₂_insert {name : String} {value : α}
    (h : List.Forall₂ (Named R) (table.insert name value) others)
    (hr : ∀ pair ∈ table, pair.1 = name → ∃ b, R pair.2 b) :
    ∃ (before : Table β) (other : β), List.Forall₂ (Named R) table before ∧ R value other ∧
      others = before.insert name other := by
  induction table generalizing others with
  | nil =>
    obtain ⟨other, rest, ⟨hn, hv⟩, hr, rfl⟩ := List.forall₂_cons_left_iff.1 h
    cases hr
    exact ⟨[], other.2, .nil, hv, congrArg (fun n => [(n, other.2)]) hn.symm⟩
  | cons pair rest ih =>
    obtain ⟨hp, hrest⟩ := List.forall_mem_cons.1 hr
    rw [insert] at h
    split at h
    · rename_i hname
      obtain ⟨other, others, ⟨hn, hv⟩, hr, rfl⟩ := List.forall₂_cons_left_iff.1 h
      obtain ⟨b, hb⟩ := hp hname
      refine ⟨(name, b) :: others, other.2, .cons ⟨hname, hb⟩ hr, hv, ?_⟩
      rw [insert, if_pos rfl]
      exact congrArg (fun n => (n, other.2) :: others) hn.symm
    · rename_i hname
      obtain ⟨other, others, hn, hr, rfl⟩ := List.forall₂_cons_left_iff.1 h
      obtain ⟨before, b, hb, hv, rfl⟩ := ih hr hrest
      refine ⟨other :: before, b, .cons hn hb, hv, ?_⟩
      rw [insert, if_neg (hn.1 ▸ hname)]

theorem exists_of_forall₂_insertAll
    (h : List.Forall₂ (Named R) (insertAll table pairs) others)
    (ht : ∀ pair ∈ table, ∀ later ∈ pairs, pair.1 = later.1 → ∃ b, R pair.2 b)
    (hp : pairs.Pairwise fun pair later => pair.1 = later.1 → ∃ b, R pair.2 b) :
    ∃ before pairs' : Table β,
      List.Forall₂ (Named R) table before ∧ List.Forall₂ (Named R) pairs pairs' ∧
      others = insertAll before pairs' := by
  induction pairs generalizing table with
  | nil => exact ⟨others, [], h, .nil, rfl⟩
  | cons first rest ih =>
    obtain ⟨hfirst, hrest⟩ := List.pairwise_cons.1 hp
    obtain ⟨after, pairs', hafter, hpairs, rfl⟩ := ih h (fun pair hm later hl => by
      rcases mem_of_mem_insert hm with rfl | hm
      · exact hfirst later hl
      · exact ht pair hm later (List.mem_cons_of_mem _ hl)) hrest
    obtain ⟨before, b, hb, hv, rfl⟩ := exists_of_forall₂_insert hafter fun pair hm =>
      ht pair hm first List.mem_cons_self
    exact ⟨before, (first.1, b) :: pairs', hb, .cons ⟨rfl, hv⟩ hpairs, rfl⟩

/-- If all that is overwritten stands for something, it makes no difference whether names are put
together before or after. -/
theorem forall₂_ofList_iff
    (hp : pairs.Pairwise fun pair later => pair.1 = later.1 → ∃ b, R pair.2 b) :
    List.Forall₂ (Named R) (ofList pairs) others ↔
      ∃ pairs', List.Forall₂ (Named R) pairs pairs' ∧ others = ofList pairs' := by
  constructor
  · intro h
    obtain ⟨before, pairs', hb, hpairs, rfl⟩ := exists_of_forall₂_insertAll
      (show List.Forall₂ (Named R) (insertAll [] pairs) others from h)
      (fun _ hm => absurd hm List.not_mem_nil) hp
    cases hb
    exact ⟨pairs', hpairs, rfl⟩
  · rintro ⟨pairs', hpairs, rfl⟩
    exact forall₂_insertAll .nil hpairs

end

section
variable {β : Type v} {f : String × α → List β}

theorem flatMap_insert_perm {table : Table α} {name : String} (value : α)
    (h : ∀ pair ∈ table, pair.1 = name → f pair = []) :
    ((table.insert name value).flatMap f).Perm (table.flatMap f ++ f (name, value)) := by
  induction table with
  | nil => simp [insert]
  | cons pair rest ih =>
    obtain ⟨hp, hr⟩ := List.forall_mem_cons.1 h
    rw [insert]
    split
    · rename_i hn
      rw [List.flatMap_cons, List.flatMap_cons, hp hn, List.nil_append]
      exact List.perm_append_comm
    · rw [List.flatMap_cons, List.flatMap_cons, List.append_assoc]
      exact (ih hr).append_left _

theorem flatMap_insertAll_perm {table pairs : Table α}
    (ht : ∀ pair ∈ table, ∀ later ∈ pairs, pair.1 = later.1 → f pair = [])
    (hp : pairs.Pairwise fun pair later => pair.1 = later.1 → f pair = []) :
    ((insertAll table pairs).flatMap f).Perm
      (table.flatMap f ++ pairs.flatMap f) := by
  induction pairs generalizing table with
  | nil => simp [insertAll]
  | cons first rest ih =>
    obtain ⟨hfirst, hrest⟩ := List.pairwise_cons.1 hp
    refine (ih (fun pair hm later hl => ?_) hrest).trans ?_
    · rcases mem_of_mem_insert hm with rfl | hm
      · exact hfirst later hl
      · exact ht pair hm later (List.mem_cons_of_mem _ hl)
    · rw [List.flatMap_cons, ← List.append_assoc]
      exact (flatMap_insert_perm first.2 fun pair hm =>
        ht pair hm first List.mem_cons_self).append_right _

/-- If nothing comes from what is overwritten, the same comes from the rest, in some order. -/
theorem flatMap_ofList_perm {pairs : Table α}
    (hp : pairs.Pairwise fun pair later => pair.1 = later.1 → f pair = []) :
    ((ofList pairs).flatMap f).Perm (pairs.flatMap f) :=
  flatMap_insertAll_perm (fun _ hm => absurd hm List.not_mem_nil) hp

end

end ConfigDoc.Table
