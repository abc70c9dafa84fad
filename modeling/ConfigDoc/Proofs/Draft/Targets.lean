import ConfigDoc.Proofs.Draft.Members
import ConfigDoc.Proofs.Value.Settling

/-! The slots that the jobs of a draft work on. They lie within the document; without repeated keys,
each template has a job of its own, which is bound to the slot of its template. -/

namespace ConfigDoc.Tree
open Reference Value

variable {interpolate : Bool}

mutual

/-- A job that resolves a template points to it. -/
theorem pointsTo_of_mem_jobs (tree : Tree) (hd : ∀ node ∈ tree.nodes, node.Distinct) {v : Value}
    (hv : tree.initial interpolate .document = .ok v) (target : Reference)
    (context : Value → Value) (hf : target.Focuses context) {r : Reference} {t : Template}
    (h : .interpolate r t ∈ tree.jobs interpolate target) :
    PointsTo (context v) r (.template t) := by
  cases tree with
  | numeric x | boolean b | rawString s | directive call => cases h
  | complexString s =>
    rw [jobs] at h
    split at h
    · rename_i ha
      cases List.mem_singleton.1 h
      rw [initial, if_pos ha] at hv
      cases hv
      exact hf.pointsTo _
    · cases h
  | array items =>
    rw [initial] at hv
    obtain ⟨vs, hi, rfl⟩ := map_eq_ok_iff.1 hv
    exact pointsTo_of_mem_itemJobs items (forall_nodes_array.1 hd).2 hi [] target context hf h
  | map entries =>
    obtain ⟨hn, hd⟩ := forall_nodes_map.1 hd
    obtain ⟨-, ms, hi, rfl⟩ := initial_map_eq_ok_iff.1 hv
    rw [ofList_initialMembers (hn _ rfl) hi]
    exact pointsTo_of_mem_entryJobs entries hd hi [] (hn _ rfl) target context hf h
  | block entries =>
    obtain ⟨hn, hd⟩ := forall_nodes_block.1 hd
    obtain ⟨-, ms, hi, rfl⟩ := initial_block_eq_ok_iff.1 hv
    rw [ofList_initialMembers (hn _ rfl) hi]
    rw [jobs, List.mem_append] at h
    rcases h with h | h
    · exact pointsTo_of_mem_entryJobs entries hd hi [] (hn _ rfl) target context hf h
    · obtain ⟨call, -, hc⟩ := List.mem_map.1 h
      cases hc
  | piped raw chain =>
    rw [jobs, List.mem_append] at h
    rcases h with h | h
    · exact pointsTo_of_mem_jobs raw (forall_nodes_piped.1 hd).2.1 hv target context hf h
    · unfold chainJobs at h
      split at h
      · cases h
      · cases List.mem_singleton.1 h
termination_by structural tree

theorem pointsTo_of_mem_itemJobs (items : List Tree)
    (hd : ∀ item ∈ items, ∀ node ∈ item.nodes, node.Distinct) {vs : List Value}
    (hv : initialItems interpolate .document items = .ok vs) (before : List Value)
    (target : Reference) (context : Value → Value) (hf : target.Focuses context) {r : Reference}
    {t : Template} (h : .interpolate r t ∈ itemJobs interpolate items before.length target) :
    PointsTo (context (.array (before ++ vs))) r (.template t) := by
  cases items with
  | nil => cases h
  | cons item rest =>
    obtain ⟨hn, hd⟩ := List.forall_mem_cons.1 hd
    obtain ⟨v, vs, hi, hr, rfl⟩ := initialItems_cons_eq_ok_iff.1 hv
    rw [itemJobs, List.mem_append] at h
    rcases h with h | h
    · exact pointsTo_of_mem_jobs item hn hi _ _ (hf.item before vs) h
    · have hp := pointsTo_of_mem_itemJobs rest hd hr (before ++ [v]) target context hf
        (by rwa [List.length_append, List.length_singleton])
      rwa [List.append_assoc, List.singleton_append] at hp
termination_by structural items

theorem pointsTo_of_mem_entryJobs (entries : List (Entry Tree))
    (hd : ∀ entry ∈ entries, ∀ node ∈ entry.value.nodes, node.Distinct) {ms : Table Value}
    (hv : initialMembers interpolate .document entries = .ok ms) (before : Table Value)
    (hk : (before.names ++ keys entries).Nodup) (target : Reference) (context : Value → Value)
    (hf : target.Focuses context) {r : Reference} {t : Template}
    (h : .interpolate r t ∈ entryJobs interpolate entries target) :
    PointsTo (context (.object (before ++ ms))) r (.template t) := by
  cases entries with
  | nil => cases h
  | cons entry rest =>
    obtain ⟨key, value⟩ := entry
    obtain ⟨hn, hd⟩ := List.forall_mem_cons.1 hd
    rw [keys] at hk
    rw [entryJobs] at h
    by_cases hc : value.asCall?.isSome
    · rw [if_pos hc] at hk h
      rw [initialMembers, if_pos hc] at hv
      exact pointsTo_of_mem_entryJobs rest hd hv before hk target context hf h
    · rw [if_neg hc] at hk h
      obtain ⟨v, ms, hi, hr, rfl⟩ := (initialMembers_cons_eq_ok_iff hc).1 hv
      have hb : key ∉ before.names := fun hm =>
        (List.nodup_append.1 hk).2.2 _ hm _ List.mem_cons_self rfl
      rcases List.mem_append.1 h with h | h
      · exact pointsTo_of_mem_jobs value hn hi _ _ (hf.member_append ms hb) h
      · have hp := pointsTo_of_mem_entryJobs rest hd hr (before ++ [(key, v)])
          (by simpa [Table.names] using hk) target context hf h
        rwa [List.append_assoc, List.singleton_append] at hp
termination_by structural entries

end

variable {ready : Template → Prop} {textOf : String → String}

mutual

/-- When the slots of all jobs hold texts, no template is left. -/
theorem hasTemplate_of_jobs (tree : Tree) (hd : ∀ node ∈ tree.nodes, node.Distinct) {v w : Value}
    (hv : tree.initial interpolate .document = .ok v) (hs : Settles ready textOf v w)
    (target : Reference) (context : Value → Value) (hf : target.Focuses context)
    (h : ∀ r t, .interpolate r t ∈ tree.jobs interpolate target →
      ∃ text, (context w).lookup? r.location = some (.string text)) :
    w.hasTemplate = false := by
  cases tree with
  | numeric x | boolean b | rawString s =>
    cases hv
    cases hs
    rfl
  | directive call => cases hv
  | complexString s =>
    rw [initial] at hv
    split at hv
    · rename_i ha
      cases hv
      obtain ⟨text, hl⟩ := h target ⟨s⟩ (by rw [jobs, if_pos ha]; exact List.mem_singleton_self _)
      rw [(hf.pointsTo w).lookup] at hl
      cases hl
      rfl
    · cases hv
      cases hs
      rfl
  | array items =>
    rw [initial] at hv
    obtain ⟨vs, hi, rfl⟩ := map_eq_ok_iff.1 hv
    obtain ⟨ws, rfl, hs⟩ := hs
    exact anyTemplate_of_itemJobs items (forall_nodes_array.1 hd).2 hi hs [] target context hf h
  | map entries =>
    obtain ⟨hn, hd⟩ := forall_nodes_map.1 hd
    obtain ⟨-, ms, hi, rfl⟩ := initial_map_eq_ok_iff.1 hv
    rw [ofList_initialMembers (hn _ rfl) hi] at hs
    obtain ⟨ns, rfl, hs⟩ := hs
    exact anyMemberTemplate_of_entryJobs entries hd hi hs [] (hn _ rfl) target context hf h
  | block entries =>
    obtain ⟨hn, hd⟩ := forall_nodes_block.1 hd
    obtain ⟨-, ms, hi, rfl⟩ := initial_block_eq_ok_iff.1 hv
    rw [ofList_initialMembers (hn _ rfl) hi] at hs
    obtain ⟨ns, rfl, hs⟩ := hs
    exact anyMemberTemplate_of_entryJobs entries hd hi hs [] (hn _ rfl) target context hf
      fun r t hm => h r t (List.mem_append_left _ hm)
  | piped raw chain =>
    exact hasTemplate_of_jobs raw (forall_nodes_piped.1 hd).2.1 hv hs target context hf
      fun r t hm => h r t (List.mem_append_left _ hm)
termination_by structural tree

theorem anyTemplate_of_itemJobs (items : List Tree)
    (hd : ∀ item ∈ items, ∀ node ∈ item.nodes, node.Distinct) {vs ws : List Value}
    (hv : initialItems interpolate .document items = .ok vs)
    (hs : SettlesItems ready textOf vs ws) (before : List Value) (target : Reference)
    (context : Value → Value) (hf : target.Focuses context)
    (h : ∀ r t, .interpolate r t ∈ itemJobs interpolate items before.length target →
      ∃ text, (context (.array (before ++ ws))).lookup? r.location = some (.string text)) :
    anyTemplate ws = false := by
  cases items with
  | nil =>
    cases hv
    cases hs
    rfl
  | cons item rest =>
    obtain ⟨hn, hd⟩ := List.forall_mem_cons.1 hd
    obtain ⟨v, vs, hi, hr, rfl⟩ := initialItems_cons_eq_ok_iff.1 hv
    obtain ⟨w, ws, rfl, hsw, hsr⟩ := hs
    apply Bool.or_eq_false_iff.2
    constructor
    · exact hasTemplate_of_jobs item hn hi hsw _ _ (hf.item before ws) fun r t hm =>
        h r t (List.mem_append_left _ hm)
    · refine anyTemplate_of_itemJobs rest hd hr hsr (before ++ [w]) target context hf
        fun r t hm => ?_
      rw [List.append_assoc, List.singleton_append]
      rw [List.length_append, List.length_singleton] at hm
      exact h r t (List.mem_append_right _ hm)
termination_by structural items

theorem anyMemberTemplate_of_entryJobs (entries : List (Entry Tree))
    (hd : ∀ entry ∈ entries, ∀ node ∈ entry.value.nodes, node.Distinct) {ms ns : Table Value}
    (hv : initialMembers interpolate .document entries = .ok ms)
    (hs : SettlesMembers ready textOf ms ns) (before : Table Value)
    (hk : (before.names ++ keys entries).Nodup) (target : Reference) (context : Value → Value)
    (hf : target.Focuses context)
    (h : ∀ r t, .interpolate r t ∈ entryJobs interpolate entries target →
      ∃ text, (context (.object (before ++ ns))).lookup? r.location = some (.string text)) :
    anyMemberTemplate ns = false := by
  cases entries with
  | nil =>
    cases hv
    cases hs
    rfl
  | cons entry rest =>
    obtain ⟨key, value⟩ := entry
    obtain ⟨hn, hd⟩ := List.forall_mem_cons.1 hd
    rw [keys] at hk
    rw [entryJobs] at h
    by_cases hc : value.asCall?.isSome
    · rw [if_pos hc] at hk h
      rw [initialMembers, if_pos hc] at hv
      exact anyMemberTemplate_of_entryJobs rest hd hv hs before hk target context hf h
    · rw [if_neg hc] at hk h
      obtain ⟨v, ms, hi, hr, rfl⟩ := (initialMembers_cons_eq_ok_iff hc).1 hv
      obtain ⟨w, ns, rfl, hsw, hsr⟩ := hs
      have hb : key ∉ before.names := fun hm =>
        (List.nodup_append.1 hk).2.2 _ hm _ List.mem_cons_self rfl
      apply Bool.or_eq_false_iff.2
      constructor
      · exact hasTemplate_of_jobs value hn hi hsw _ _ (hf.member_append ns hb) fun r t hm =>
          h r t (List.mem_append_left _ hm)
      · refine anyMemberTemplate_of_entryJobs rest hd hr hsr (before ++ [(key, w)])
          (by simpa [Table.names] using hk) target context hf fun r t hm => ?_
        rw [List.append_assoc, List.singleton_append]
        exact h r t (List.mem_append_right _ hm)
termination_by structural entries

end

mutual

/-- Templates are resolved into slots within the slot of the tree. -/
theorem location_of_mem_jobs (tree : Tree) (slot : Reference) {r : Reference} {t : Template}
    (h : .interpolate r t ∈ tree.jobs interpolate slot) : slot.location <+: r.location := by
  cases tree with
  | numeric x | boolean b | rawString s | directive call => cases h
  | complexString s =>
    rw [jobs] at h
    split at h
    · cases List.mem_singleton.1 h
      exact List.prefix_rfl
    · cases h
  | array items => exact location_of_mem_itemJobs items 0 slot h
  | map entries => exact location_of_mem_entryJobs entries slot h
  | block entries =>
    rw [jobs, List.mem_append] at h
    rcases h with h | h
    · exact location_of_mem_entryJobs entries slot h
    · obtain ⟨call, -, hc⟩ := List.mem_map.1 h
      cases hc
  | piped raw chain =>
    rw [jobs, List.mem_append] at h
    rcases h with h | h
    · exact location_of_mem_jobs raw slot h
    · unfold chainJobs at h
      split at h
      · cases h
      · cases List.mem_singleton.1 h
termination_by structural tree

theorem location_of_mem_itemJobs (items : List Tree) (position : Nat) (slot : Reference)
    {r : Reference} {t : Template}
    (h : .interpolate r t ∈ itemJobs interpolate items position slot) :
    slot.location <+: r.location := by
  cases items with
  | nil => cases h
  | cons item rest =>
    rw [itemJobs, List.mem_append] at h
    rcases h with h | h
    · exact (List.prefix_append _ _).trans (location_of_mem_jobs item _ h)
    · exact location_of_mem_itemJobs rest (position + 1) slot h
termination_by structural items

theorem location_of_mem_entryJobs (entries : List (Entry Tree)) (slot : Reference) {r : Reference}
    {t : Template} (h : .interpolate r t ∈ entryJobs interpolate entries slot) :
    slot.location <+: r.location := by
  cases entries with
  | nil => cases h
  | cons entry rest =>
    obtain ⟨key, value⟩ := entry
    rw [entryJobs, List.mem_append] at h
    rcases h with h | h
    · split at h
      · cases h
      · exact (List.prefix_append _ _).trans (location_of_mem_jobs value _ h)
    · exact location_of_mem_entryJobs rest slot h
termination_by structural entries

end

end ConfigDoc.Tree
