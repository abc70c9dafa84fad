import ConfigDoc.Proofs.Draft.Targets
import ConfigDoc.Proofs.Value.Paths

/-! Where the slots of a draft's jobs lie when no key is repeated: each at the end of a path through
the document, and none below the slot of a job that comes before it. -/

namespace ConfigDoc

/-- Whether a job leaves a path intact. A sweep replaces templates only, whatever its slot is. -/
def Job.Spares (job : Job) (path : Path) : Prop := job = .sweep ∨ job.slot.location.Spares path

namespace Tree
open Value

variable {interpolate : Bool}

/-- Without repeated keys every member is found under its key. -/
theorem paved_members {entries : List (Entry Tree)} {ms : Table Value} (hn : (keys entries).Nodup)
    (hi : initialMembers interpolate .document entries = .ok ms) {key : String} {w : Value}
    (hm : (key, w) ∈ ms) {rest : Path} (hp : w.Paved rest) :
    (object (Table.ofList ms)).Paved (.key key :: rest) := by
  rw [ofList_initialMembers hn hi]
  exact ⟨rfl, w, Table.find?_of_mem (by rwa [names_initialMembers hi]) hm, hp⟩

mutual

/-- The slot of a job lies at the end of a path through the value of the tree. -/
theorem paved_of_mem_jobs (tree : Tree) (hd : ∀ node ∈ tree.nodes, node.Distinct) {v : Value}
    (hv : tree.initial interpolate .document = .ok v) (slot : Reference) {job : Job}
    (h : job ∈ tree.jobs interpolate slot) :
    ∃ rest, job.slot.location = slot.location ++ rest ∧ v.Paved rest := by
  have hown : ∀ job : Job, job.slot = slot →
      ∃ rest, job.slot.location = slot.location ++ rest ∧ v.Paved rest := fun job hs =>
    ⟨[], by rw [hs, List.append_nil], trivial⟩
  cases tree with
  | numeric x | boolean b | rawString s | directive call => cases h
  | complexString s =>
    rw [jobs] at h
    split at h
    · cases List.mem_singleton.1 h
      exact hown _ rfl
    · cases h
  | array items =>
    obtain ⟨vs, hi, rfl⟩ := map_eq_ok_iff.1 hv
    obtain ⟨k, w, rest, hw, hl, hp⟩ :=
      paved_of_mem_itemJobs items (forall_nodes_array.1 hd).2 hi 0 slot h
    rw [Nat.zero_add] at hl
    exact ⟨_, hl, rfl, w, hw, hp⟩
  | map entries =>
    obtain ⟨hn, hd⟩ := forall_nodes_map.1 hd
    obtain ⟨-, ms, hi, rfl⟩ := initial_map_eq_ok_iff.1 hv
    obtain ⟨key, w, rest, hm, hl, hp⟩ := paved_of_mem_entryJobs entries hd hi slot h
    exact ⟨_, hl, paved_members (hn _ rfl) hi hm hp⟩
  | block entries =>
    obtain ⟨hn, hd⟩ := forall_nodes_block.1 hd
    obtain ⟨-, ms, hi, rfl⟩ := initial_block_eq_ok_iff.1 hv
    rw [jobs, List.mem_append] at h
    rcases h with h | h
    · obtain ⟨key, w, rest, hm, hl, hp⟩ := paved_of_mem_entryJobs entries hd hi slot h
      exact ⟨_, hl, paved_members (hn _ rfl) hi hm hp⟩
    · obtain ⟨call, -, rfl⟩ := List.mem_map.1 h
      exact hown _ rfl
  | piped raw chain =>
    rw [jobs, List.mem_append] at h
    rcases h with h | h
    · exact paved_of_mem_jobs raw (forall_nodes_piped.1 hd).2.1 hv slot h
    · unfold chainJobs at h
      split at h
      · cases h
      · cases List.mem_singleton.1 h
        exact hown _ rfl
termination_by structural tree

theorem paved_of_mem_itemJobs (items : List Tree)
    (hd : ∀ item ∈ items, ∀ node ∈ item.nodes, node.Distinct) {vs : List Value}
    (hv : initialItems interpolate .document items = .ok vs) (position : Nat) (slot : Reference)
    {job : Job} (h : job ∈ itemJobs interpolate items position slot) :
    ∃ k w rest, vs[k]? = some w ∧
      job.slot.location = slot.location ++ .index (position + k) :: rest ∧ w.Paved rest := by
  cases items with
  | nil => cases h
  | cons item rest =>
    obtain ⟨hn, hd⟩ := List.forall_mem_cons.1 hd
    obtain ⟨v, vs, hi, hr, rfl⟩ := initialItems_cons_eq_ok_iff.1 hv
    rw [itemJobs, List.mem_append] at h
    rcases h with h | h
    · obtain ⟨path, hl, hp⟩ := paved_of_mem_jobs item hn hi _ h
      rw [Reference.location_below, List.append_assoc] at hl
      exact ⟨0, v, path, rfl, hl, hp⟩
    · obtain ⟨k, w, path, hw, hl, hp⟩ := paved_of_mem_itemJobs rest hd hr (position + 1) slot h
      rw [Nat.add_right_comm] at hl
      exact ⟨k + 1, w, path, hw, hl, hp⟩
termination_by structural items

theorem paved_of_mem_entryJobs (entries : List (Entry Tree))
    (hd : ∀ entry ∈ entries, ∀ node ∈ entry.value.nodes, node.Distinct) {ms : Table Value}
    (hv : initialMembers interpolate .document entries = .ok ms) (slot : Reference)
    {job : Job} (h : job ∈ entryJobs interpolate entries slot) :
    ∃ key w rest, (key, w) ∈ ms ∧
      job.slot.location = slot.location ++ .key key :: rest ∧ w.Paved rest := by
  cases entries with
  | nil => cases h
  | cons entry rest =>
    obtain ⟨key, value⟩ := entry
    obtain ⟨hn, hd⟩ := List.forall_mem_cons.1 hd
    rw [entryJobs] at h
    by_cases hc : value.asCall?.isSome
    · rw [if_pos hc] at h
      rw [initialMembers, if_pos hc] at hv
      exact paved_of_mem_entryJobs rest hd hv slot h
    · rw [if_neg hc] at h
      obtain ⟨v, ms, hi, hr, rfl⟩ := (initialMembers_cons_eq_ok_iff hc).1 hv
      rcases List.mem_append.1 h with h | h
      · obtain ⟨path, hl, hp⟩ := paved_of_mem_jobs value hn hi _ h
        rw [Reference.location_below, List.append_assoc] at hl
        exact ⟨key, v, path, List.mem_cons_self, hl, hp⟩
      · obtain ⟨other, w, path, hw, hl, hp⟩ := paved_of_mem_entryJobs rest hd hr slot h
        exact ⟨other, w, path, List.mem_cons_of_mem _ hw, hl, hp⟩
termination_by structural entries

end

/-- Jobs on a slot itself spare each other, and jobs below it spare them. -/
theorem pairwise_append_own {inner own : List Job} (slot : Reference)
    (hp : inner.Pairwise fun i j => i.Spares j.slot.location)
    (hi : ∀ job ∈ inner, ∃ rest, job.slot.location = slot.location ++ rest)
    (ho : ∀ job ∈ own, job.slot = slot) :
    (inner ++ own).Pairwise fun i j => i.Spares j.slot.location := by
  have hspares : ∀ i : Job, (∃ rest, i.slot.location = slot.location ++ rest) → ∀ j ∈ own,
      i.Spares j.slot.location := fun i ⟨rest, hl⟩ j hj => .inr (by
    rw [hl, ho j hj]
    exact Path.spares_append _ _)
  refine List.pairwise_append.2 ⟨hp, ?_, fun i hm => hspares i (hi i hm)⟩
  exact List.pairwise_of_forall_mem_list fun i hm =>
    hspares i ⟨[], by rw [ho i hm, List.append_nil]⟩

mutual

/-- No job works below the slot of a job that comes before it: what is inside comes first, and parts
with different steps do not meet. -/
theorem pairwise_jobs (tree : Tree) (hd : ∀ node ∈ tree.nodes, node.Distinct) {v : Value}
    (hv : tree.initial interpolate .document = .ok v) (slot : Reference) :
    (tree.jobs interpolate slot).Pairwise fun i j => i.Spares j.slot.location := by
  cases tree with
  | numeric x | boolean b | rawString s | directive call => exact .nil
  | complexString s =>
    rw [jobs]
    split
    · exact List.pairwise_singleton _ _
    · exact .nil
  | array items =>
    obtain ⟨vs, hi, rfl⟩ := map_eq_ok_iff.1 hv
    exact pairwise_itemJobs items (forall_nodes_array.1 hd).2 hi 0 slot
  | map entries =>
    obtain ⟨hn, hd⟩ := forall_nodes_map.1 hd
    obtain ⟨-, ms, hi, rfl⟩ := initial_map_eq_ok_iff.1 hv
    exact pairwise_entryJobs entries (hn _ rfl) hd hi slot
  | block entries =>
    obtain ⟨hn, hd⟩ := forall_nodes_block.1 hd
    obtain ⟨-, ms, hi, rfl⟩ := initial_block_eq_ok_iff.1 hv
    -- The members lie below the slot, and the calls of the block come after them on the slot itself.
    refine pairwise_append_own slot (pairwise_entryJobs entries (hn _ rfl) hd hi slot)
      (fun job hm => ?_) fun job hm => ?_
    · obtain ⟨key, w, rest, -, hl, -⟩ := paved_of_mem_entryJobs entries hd hi slot hm
      exact ⟨_, hl⟩
    · obtain ⟨call, -, rfl⟩ := List.mem_map.1 hm
      rfl
  | piped raw chain =>
    have hd := (forall_nodes_piped.1 hd).2.1
    refine pairwise_append_own slot (pairwise_jobs raw hd hv slot) (fun job hm => ?_)
      fun job hm => ?_
    · obtain ⟨rest, hl, -⟩ := paved_of_mem_jobs raw hd hv slot hm
      exact ⟨rest, hl⟩
    · unfold chainJobs at hm
      split at hm
      · cases hm
      · cases List.mem_singleton.1 hm
        rfl
termination_by structural tree

theorem pairwise_itemJobs (items : List Tree)
    (hd : ∀ item ∈ items, ∀ node ∈ item.nodes, node.Distinct) {vs : List Value}
    (hv : initialItems interpolate .document items = .ok vs) (position : Nat) (slot : Reference) :
    (itemJobs interpolate items position slot).Pairwise fun i j => i.Spares j.slot.location := by
  cases items with
  | nil => exact .nil
  | cons item rest =>
    obtain ⟨hn, hd⟩ := List.forall_mem_cons.1 hd
    obtain ⟨v, vs, hi, hr, rfl⟩ := initialItems_cons_eq_ok_iff.1 hv
    refine List.pairwise_append.2 ⟨pairwise_jobs item hn hi _,
      pairwise_itemJobs rest hd hr (position + 1) slot, fun i him j hjm => .inr ?_⟩
    obtain ⟨p, hp, -⟩ := paved_of_mem_jobs item hn hi _ him
    obtain ⟨k, w, q, -, hq, -⟩ := paved_of_mem_itemJobs rest hd hr (position + 1) slot hjm
    rw [hp, hq, Reference.location_below, List.append_assoc]
    exact Path.spares_of_ne (fun he => by injection he; omega) _ _ _
termination_by structural items

theorem pairwise_entryJobs (entries : List (Entry Tree)) (hk : (keys entries).Nodup)
    (hd : ∀ entry ∈ entries, ∀ node ∈ entry.value.nodes, node.Distinct) {ms : Table Value}
    (hv : initialMembers interpolate .document entries = .ok ms) (slot : Reference) :
    (entryJobs interpolate entries slot).Pairwise fun i j => i.Spares j.slot.location := by
  cases entries with
  | nil => exact .nil
  | cons entry rest =>
    obtain ⟨key, value⟩ := entry
    obtain ⟨hn, hd⟩ := List.forall_mem_cons.1 hd
    rw [keys] at hk
    rw [entryJobs]
    by_cases hc : value.asCall?.isSome
    · rw [if_pos hc] at hk ⊢
      rw [initialMembers, if_pos hc] at hv
      exact pairwise_entryJobs rest hk hd hv slot
    · rw [if_neg hc] at hk ⊢
      obtain ⟨hnew, hk⟩ := List.nodup_cons.1 hk
      obtain ⟨v, ms, hi, hr, rfl⟩ := (initialMembers_cons_eq_ok_iff hc).1 hv
      refine List.pairwise_append.2 ⟨pairwise_jobs value hn hi _,
        pairwise_entryJobs rest hk hd hr slot, fun i him j hjm => .inr ?_⟩
      obtain ⟨p, hp, -⟩ := paved_of_mem_jobs value hn hi _ him
      obtain ⟨other, w, q, hm, hq, -⟩ := paved_of_mem_entryJobs rest hd hr slot hjm
      have hother : other ∈ keys rest :=
        names_initialMembers hr ▸ List.mem_map_of_mem (f := Prod.fst) hm
      rw [hp, hq, Reference.location_below, List.append_assoc]
      exact Path.spares_of_ne (fun he => by cases he; exact hnew hother) _ _ _
termination_by structural entries

end

end Tree

end ConfigDoc
