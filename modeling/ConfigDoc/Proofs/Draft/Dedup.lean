import ConfigDoc.Proofs.Draft.Acceptance
import ConfigDoc.Proofs.Tree.Dedup
import Mathlib.Data.List.Perm.Basic

/-! A draft without repeated keys: the same document, and the same work in another order. -/

namespace ConfigDoc

def Job.dedup : Job → Job
  | .directives target calls => .directives target (Tree.dedupCalls calls)
  | job => job

namespace Tree
open Reference

variable {interpolate : Bool} {placement : Placement}

/-- In the document every refusal is the same one. -/
theorem initial_dedup {tree : Tree} (h : tree.Lossless interpolate .document) :
    tree.dedup.initial interpolate .document = tree.initial interpolate .document := by
  cases hv : tree.initial interpolate .document with
  | ok v => exact (initial_dedup_iff tree h v).2 hv
  | error e =>
    cases hd : tree.dedup.initial interpolate .document with
    | ok v => cases hv.symm.trans ((initial_dedup_iff tree h v).1 hd)
    | error e' =>
      obtain ⟨kind, rfl, hk⟩ := error_of_initial tree hv
      obtain ⟨kind', rfl, hk'⟩ := error_of_initial tree.dedup hd
      rw [hk rfl, hk' rfl]

theorem entryJobs_eq (entries : List (Entry Tree)) (target : Reference) :
    entryJobs interpolate entries target =
      entries.flatMap fun entry => entry.value.jobs interpolate (target.below (.key entry.key)) := by
  induction entries with
  | nil => rfl
  | cons entry rest ih =>
    obtain ⟨key, value⟩ := entry
    rw [entryJobs, ih, List.flatMap_cons]
    cases value <;> rfl

theorem map_dedup_chainJobs (target : Reference) (calls : List (Call Tree)) :
    (chainJobs target calls).map Job.dedup = chainJobs target (dedupCalls calls) := by
  cases calls <;> rfl

theorem jobs_block {entries : List (Entry Tree)}
    (hn : ∀ entry ∈ entries, entry.value.asCall? = none) (target : Reference) :
    (block entries).jobs interpolate target = entryJobs interpolate entries target := by
  rw [jobs, List.filterMap_eq_nil_iff.2 hn, List.map_nil, List.append_nil]

/-- Where the work of the values stays, so does that of the entries that are left. -/
theorem entryJobs_dedup_perm {entries : List (Entry Tree)}
    (ho : Overwrites interpolate .document entries)
    (hp : ∀ entry ∈ entries, ∀ target, ((entry.value.jobs interpolate target).map Job.dedup).Perm
      (entry.value.dedup.jobs interpolate target)) (target : Reference) :
    ((entryJobs interpolate entries target).map Job.dedup).Perm
      (entryJobs interpolate (entriesOf (Table.ofList (dedupMembers entries))) target) := by
  let f (pair : String × Tree) : List Job :=
    pair.2.jobs interpolate (target.below (.key pair.1))
  have hpairs : (dedupMembers entries).Pairwise fun pair later =>
      pair.1 = later.1 → f pair = [] := by
    rw [dedupMembers_eq, List.pairwise_map]
    apply ho.imp_of_mem
    intro old later hm _ hidle hk
    have hnone := hp old hm (target.below (.key old.key))
    have hold : old.value.jobs interpolate (target.below (.key old.key)) = [] :=
      (hidle hk).unqueued _
    rw [hold] at hnone
    exact hnone.nil_eq.symm
  rw [entryJobs_eq, entryJobs_eq, List.map_flatMap, entriesOf, List.flatMap_map]
  have hvalues := List.Perm.flatMap_left entries fun entry hm =>
    hp entry hm (target.below (.key entry.key))
  have hleft := (Table.flatMap_ofList_perm hpairs).symm
  rw [dedupMembers_eq, List.flatMap_map, ← dedupMembers_eq] at hleft
  exact hvalues.trans hleft

mutual

/-- Giving each key once changes the order of the work at most. -/
theorem jobs_dedup_perm (tree : Tree) (h : tree.Lossless interpolate .document)
    (target : Reference) : ((tree.jobs interpolate target).map Job.dedup).Perm
      (tree.dedup.jobs interpolate target) := by
  cases tree with
  | numeric x | boolean b | rawString s | directive call => exact .nil
  | complexString s =>
    rw [dedup, jobs]
    split <;> exact .refl _
  | array items => exact itemJobs_dedup_perm items h 0 target
  | map entries => exact entryJobs_dedup_perm h.1 (entryJobs_dedup_perms entries h.2) target
  | block entries =>
    obtain ⟨hn, ho, hl⟩ := h
    rw [dedup, jobs_block hn, jobs_block (asCall?_entriesOf hn)]
    exact entryJobs_dedup_perm ho (entryJobs_dedup_perms entries hl) target
  | piped raw chain =>
    rw [dedup, jobs, jobs, List.map_append, map_dedup_chainJobs]
    exact (jobs_dedup_perm raw h target).append_right _
termination_by structural tree

theorem itemJobs_dedup_perm (items : List Tree) (h : LosslessItems interpolate .document items)
    (position : Nat) (target : Reference) :
    ((itemJobs interpolate items position target).map Job.dedup).Perm
      (itemJobs interpolate (dedupItems items) position target) := by
  cases items with
  | nil => exact .nil
  | cons item rest =>
    rw [dedupItems, itemJobs, itemJobs, List.map_append]
    exact (jobs_dedup_perm item h.1 _).append (itemJobs_dedup_perm rest h.2 _ target)
termination_by structural items

theorem entryJobs_dedup_perms (entries : List (Entry Tree))
    (h : LosslessEntries interpolate .document entries) :
    ∀ entry ∈ entries, ∀ target, ((entry.value.jobs interpolate target).map Job.dedup).Perm
      (entry.value.dedup.jobs interpolate target) := by
  cases entries with
  | nil => nofun
  | cons entry rest =>
    exact List.forall_mem_cons.2
      ⟨jobs_dedup_perm entry.value h.1, entryJobs_dedup_perms rest h.2⟩
termination_by structural entries

end

end Tree

end ConfigDoc
