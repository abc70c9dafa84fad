import ConfigDoc.Config
import ConfigDoc.Proofs.Table
import Mathlib.Data.List.Duplicate
import Mathlib.Data.List.Find

namespace ConfigDoc

variable {σ : Type}

namespace Table

variable {α : Type}

/-- A table takes all of another in its order, or refuses a name that is there already. -/
theorem extend_cases (table others : Table α) :
    (table.extend others = .ok (table ++ others) ∧
      (table.names.Nodup → (table ++ others).names.Nodup)) ∨
    ∃ name, table.extend others = .error (.duplicateHandler name) ∧
      List.Duplicate name (table ++ others).names := by
  induction others generalizing table with
  | nil =>
    rw [List.append_nil]
    exact .inl ⟨rfl, id⟩
  | cons entry rest ih =>
    obtain ⟨name, value⟩ := entry
    rw [extend]
    split
    · rename_i hh
      refine .inr ⟨name, rfl, ?_⟩
      rw [names_append, List.duplicate_iff_sublist]
      exact (List.singleton_sublist.2 (has_iff.1 hh)).append
        (List.singleton_sublist.2 List.mem_cons_self)
    · rename_i hh
      have hn : name ∉ table.names := fun hm => hh (has_iff.2 hm)
      have hnodup : table.names.Nodup → (table.insert name value).names.Nodup :=
        nodup_insert name value
      rw [insert_of_not_mem hn] at hnodup ⊢
      rcases ih (table ++ [(name, value)]) with ⟨hok, hi⟩ | hi
      · rw [List.append_assoc] at hok hi
        exact .inl ⟨hok, hi ∘ hnodup⟩
      · rw [List.append_assoc] at hi
        exact .inr hi

end Table

namespace Plugin

def directives (plugins : List (Plugin σ)) : Table (DirectiveHandler σ) :=
  plugins.flatMap fun plugin => plugin.handlers.directives

def mappers (plugins : List (Plugin σ)) : Table (MapperHandler σ) :=
  plugins.flatMap fun plugin => plugin.handlers.mappers

/-- Plugins are merged in their order, unless a name is there twice for one kind of handler. -/
theorem merge_cases (merged : Handlers σ) (plugins : List (Plugin σ)) :
    (merge merged plugins =
        .ok ⟨merged.directives ++ directives plugins, merged.mappers ++ mappers plugins⟩ ∧
      (merged.directives.names.Nodup → (merged.directives ++ directives plugins).names.Nodup) ∧
      (merged.mappers.names.Nodup → (merged.mappers ++ mappers plugins).names.Nodup)) ∨
    ∃ name, merge merged plugins = .error (.duplicateHandler name) ∧
      (List.Duplicate name (merged.directives ++ directives plugins).names ∨
        List.Duplicate name (merged.mappers ++ mappers plugins).names) := by
  induction plugins generalizing merged with
  | nil =>
    simp only [directives, mappers, List.flatMap_nil, List.append_nil]
    exact .inl ⟨rfl, id, id⟩
  | cons plugin rest ih =>
    have hd : directives (plugin :: rest) = plugin.handlers.directives ++ directives rest :=
      List.flatMap_cons
    have hm : mappers (plugin :: rest) = plugin.handlers.mappers ++ mappers rest :=
      List.flatMap_cons
    rw [merge, hd, hm, ← List.append_assoc, ← List.append_assoc]
    rcases merged.directives.extend_cases plugin.handlers.directives with
      ⟨hok, hdirectives⟩ | ⟨name, he, hname⟩
    · rw [hok]
      rcases merged.mappers.extend_cases plugin.handlers.mappers with
        ⟨hok, hmappers⟩ | ⟨name, he, hname⟩
      · rw [hok]
        refine (ih ⟨_, _⟩).imp_left fun h => ?_
        exact ⟨h.1, h.2.1 ∘ hdirectives, h.2.2 ∘ hmappers⟩
      · rw [he]
        refine .inr ⟨name, rfl, .inr (hname.mono_sublist ?_)⟩
        exact (List.sublist_append_left _ _).map _
    · rw [he]
      refine .inr ⟨name, rfl, .inl (hname.mono_sublist ?_)⟩
      exact (List.sublist_append_left _ _).map _

end Plugin

namespace Options

def directives (options : Options σ) (registered : List (Plugin σ)) : Table (DirectiveHandler σ) :=
  options.handlers.directives ++ Plugin.directives (options.plugins.select registered)

def mappers (options : Options σ) (registered : List (Plugin σ)) : Table (MapperHandler σ) :=
  options.handlers.mappers ++ Plugin.mappers (options.plugins.select registered)

def Repeats (options : Options σ) (registered : List (Plugin σ)) (name : String) : Prop :=
  List.Duplicate name (options.directives registered).names ∨
    List.Duplicate name (options.mappers registered).names

end Options

namespace Config

def wrap (mappers : Table (MapperHandler σ)) : Table (DirectiveHandler σ) :=
  mappers.map fun entry => (entry.1, .ofMapper entry.2)

theorem names_wrap (mappers : Table (MapperHandler σ)) : (wrap mappers).names = mappers.names := by
  rw [wrap, Table.names, List.map_map]
  rfl

/-- Mappers are added behind the directives, or the first that has the name of one is refused. -/
theorem install_cases (directives : Table (DirectiveHandler σ)) {mappers : Table (MapperHandler σ)}
    (h : mappers.names.Nodup) :
    (mappers.names.find? (· ∈ directives.names) = none ∧
      install directives mappers = .ok (directives ++ wrap mappers)) ∨
    ∃ name, mappers.names.find? (· ∈ directives.names) = some name ∧
      install directives mappers = .error (.nameConflict name) := by
  induction mappers generalizing directives with
  | nil =>
    rw [wrap, List.map_nil, List.append_nil]
    exact .inl ⟨rfl, rfl⟩
  | cons entry rest ih =>
    obtain ⟨name, mapper⟩ := entry
    obtain ⟨hnew, hrest⟩ := List.nodup_cons.1 h
    have hnames : Table.names ((name, mapper) :: rest) = name :: Table.names rest := rfl
    rw [install, hnames]
    split
    · rename_i hh
      exact .inr ⟨name, List.find?_cons_of_pos (decide_eq_true (Table.has_iff.1 hh)), rfl⟩
    · rename_i hh
      have hn : name ∉ directives.names := fun hm => hh (Table.has_iff.2 hm)
      -- The later mappers have other names than the one that has become a directive.
      have hfind : (Table.names rest).find? (· ∈ (directives.insert name (.ofMapper mapper)).names) =
          (Table.names rest).find? (· ∈ directives.names) := List.find?_congr fun other ho => by
        have hne : other ≠ name := fun he => hnew (he ▸ ho)
        simp only [Table.mem_names_insert, hne, false_or]
      have hi := ih (directives.insert name (.ofMapper mapper)) hrest
      rw [hfind, Table.insert_of_not_mem hn, List.append_assoc] at hi
      rw [List.find?_cons_of_neg (by simpa using hn), Table.insert_of_not_mem hn]
      exact hi

/-- In a table of directives and mappers with different names every one is found. -/
theorem find?_wrap {directives : Table (DirectiveHandler σ)} {mappers : Table (MapperHandler σ)}
    (hd : directives.names.Nodup) (hm : mappers.names.Nodup)
    (h : ∀ name ∈ mappers.names, name ∉ directives.names) :
    (∀ name handler, (name, handler) ∈ directives →
      (directives ++ wrap mappers).find? name = some handler) ∧
    ∀ name mapper, (name, mapper) ∈ mappers →
      (directives ++ wrap mappers).find? name = some (.ofMapper mapper) := by
  have hnodup : (directives ++ wrap mappers).names.Nodup := by
    rw [Table.names_append, names_wrap]
    exact List.nodup_append.2 ⟨hd, hm, fun name hn other ho he => h other ho (he ▸ hn)⟩
  constructor
  · intro name handler hn
    exact Table.find?_of_mem hnodup (List.mem_append_left _ hn)
  · intro name mapper hn
    have hw : (name, .ofMapper mapper) ∈ wrap mappers := List.mem_map.2 ⟨_, hn, rfl⟩
    exact Table.find?_of_mem hnodup (List.mem_append_right _ hw)

variable {registered : List (Plugin σ)} {options : Options σ}

/-- A preparation gets to its mappers with all that the host and the plugins have, unless a name
comes twice. -/
theorem prepare_cases (hd : options.handlers.directives.names.Nodup)
    (hm : options.handlers.mappers.names.Nodup) :
    (prepare registered options =
        (install (options.directives registered) (options.mappers registered)).map
          (⟨options.interpolate, options.asynchronous, ·⟩) ∧
      (options.directives registered).names.Nodup ∧ (options.mappers registered).names.Nodup) ∨
    ∃ name, prepare registered options = .error (.duplicateHandler name) ∧
      options.Repeats registered name := by
  rw [prepare, Plugins.resolve]
  rcases Plugin.merge_cases Handlers.empty (options.plugins.select registered) with
    ⟨hok, -⟩ | ⟨name, he, hname⟩
  · rw [hok]
    dsimp only [bind, Except.bind, Handlers.empty, List.nil_append]
    rcases Table.extend_cases options.handlers.mappers
      (Plugin.mappers (options.plugins.select registered)) with ⟨hok, hmappers⟩ | ⟨name, he, hname⟩
    · rw [hok]
      rcases Table.extend_cases options.handlers.directives
        (Plugin.directives (options.plugins.select registered)) with
        ⟨hok, hdirectives⟩ | ⟨name, he, hname⟩
      · rw [hok]
        exact .inl ⟨rfl, hdirectives hd, hmappers hm⟩
      · rw [he]
        exact .inr ⟨name, rfl, .inl hname⟩
    · rw [he]
      exact .inr ⟨name, rfl, .inr hname⟩
  · rw [he]
    refine .inr ⟨name, rfl, hname.imp (·.mono_sublist ?_) (·.mono_sublist ?_)⟩
    · exact (List.sublist_append_right _ _).map _
    · exact (List.sublist_append_right _ _).map _

/-- The namespace of a configuration, for a host whose tables have every name once; plugins may have
any. A preparation succeeds exactly if every name is used once: it lists the directives of the host,
those of the plugins, then the mappers in the same order, each under its own name. Names that come
twice for one kind of handler are complained about before mappers that have the name of a directive,
the first of which is named. -/
theorem prepare_namespace (registered : List (Plugin σ)) (options : Options σ)
    (hd : options.handlers.directives.names.Nodup) (hm : options.handlers.mappers.names.Nodup) :
    ((∃ config, prepare registered options = .ok config) ↔
      (∀ name, ¬ options.Repeats registered name) ∧
        ∀ name ∈ (options.mappers registered).names, name ∉ (options.directives registered).names) ∧
    (∀ config, prepare registered options = .ok config →
      config.interpolate = options.interpolate ∧ config.asynchronous = options.asynchronous ∧
      config.handlers = options.directives registered ++ wrap (options.mappers registered) ∧
      (∀ name handler, (name, handler) ∈ options.directives registered →
        config.handler? name = some handler) ∧
      ∀ name mapper, (name, mapper) ∈ options.mappers registered →
        config.handler? name = some (.ofMapper mapper)) ∧
    ((∃ name, options.Repeats registered name) →
      ∃ name, options.Repeats registered name ∧
        prepare registered options = .error (.duplicateHandler name)) ∧
    ((∀ name, ¬ options.Repeats registered name) →
      ∀ name, (options.mappers registered).names.find?
          (· ∈ (options.directives registered).names) = some name →
        prepare registered options = .error (.nameConflict name)) := by
  -- A name that comes twice is noticed before any mapper is compared with the directives.
  rcases prepare_cases hd hm with ⟨hp, hd, hm⟩ | ⟨name, hp, hname⟩
  · have hnone : ∀ name, ¬ options.Repeats registered name := fun name hname =>
      hname.elim (·.not_nodup hd) (·.not_nodup hm)
    rcases install_cases (options.directives registered) hm with ⟨hfind, hi⟩ | ⟨name, hfind, hi⟩
    · have hdisjoint : ∀ name ∈ (options.mappers registered).names,
          name ∉ (options.directives registered).names := by
        simpa using List.find?_eq_none.1 hfind
      rw [hi] at hp
      refine ⟨⟨fun _ => ⟨hnone, hdisjoint⟩, fun _ => ⟨_, hp⟩⟩, fun config hc => ?_,
        fun ⟨name, hname⟩ => absurd hname (hnone name), fun _ name hn => ?_⟩
      · cases hp.symm.trans hc
        exact ⟨rfl, rfl, rfl, find?_wrap hd hm hdisjoint⟩
      · cases hfind.symm.trans hn
    · rw [hi] at hp
      refine ⟨⟨fun ⟨config, hc⟩ => ?_, fun h => ?_⟩, fun config hc => ?_,
        fun ⟨name, hname⟩ => absurd hname (hnone name), fun _ other ho => ?_⟩
      · cases hp.symm.trans hc
      · have hboth := List.find?_some hfind
        exact absurd (of_decide_eq_true hboth) (h.2 name (List.mem_of_find?_eq_some hfind))
      · cases hp.symm.trans hc
      · cases hfind.symm.trans ho
        exact hp
  · refine ⟨⟨fun ⟨config, hc⟩ => ?_, fun h => absurd hname (h.1 name)⟩, fun config hc => ?_,
      fun _ => ⟨name, hname, hp⟩, fun h => absurd hname (h name)⟩
    · cases hp.symm.trans hc
    · cases hp.symm.trans hc

/-- A host with a directive and a mapper, and two plugins, the first of which names its mapper. -/
def twoPlugins (name : String) : Options Unit where
  interpolate := true
  asynchronous := false
  handlers := ⟨[("log", fun _ _ => .done .ready)], [("trim", .ofHost fun v _ host => (.ok v, host))]⟩
  plugins := .explicit
    [⟨"text", ⟨[("env", fun _ _ => .done .ready)], [(name, .ofHost fun v _ host => (.ok v, host))]⟩⟩,
      ⟨"files", ⟨[("read", fun _ _ => .done .ready)], []⟩⟩]

/-- A mapper may have a name of its own, not that of a directive, even of a later plugin, and not that
of a mapper. -/
theorem prepare_twoPlugins :
    (∃ config, prepare [] (twoPlugins "upper") = .ok config ∧
      config.handlers.names = ["log", "env", "read", "trim", "upper"]) ∧
    prepare [] (twoPlugins "read") = .error (.nameConflict "read") ∧
    ∃ name, prepare [] (twoPlugins "trim") = .error (.duplicateHandler name) := by
  refine ⟨?_, ?_, ?_⟩
  · have hp := prepare_namespace [] (twoPlugins "upper") (by decide) (by decide)
    obtain ⟨config, hc⟩ := hp.1.2 ⟨fun name hn => hn.elim (·.not_nodup (by decide))
      (·.not_nodup (by decide)), by decide⟩
    exact ⟨config, hc, by rw [(hp.2.1 config hc).2.2.1]; decide⟩
  · exact (prepare_namespace [] (twoPlugins "read") (by decide) (by decide)).2.2.2
      (fun name hn => hn.elim (·.not_nodup (by decide)) (·.not_nodup (by decide))) "read" (by decide)
  · obtain ⟨name, -, hn⟩ := (prepare_namespace [] (twoPlugins "trim") (by decide)
      (by decide)).2.2.1 ⟨"trim", .inr (by decide)⟩
    exact ⟨name, hn⟩

end Config

end ConfigDoc
