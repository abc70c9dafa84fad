import ConfigDoc.Proofs.Draft.Members

/-! Trees in which every block and every map gives a key once, and what that changes. -/

namespace ConfigDoc.Tree

def entriesOf (table : Table Tree) : List (Entry Tree) :=
  table.map fun member => ⟨member.1, member.2⟩

mutual

/-- The tree in which each key of a block or a map is given once, in its first place and with its
last value. -/
def dedup : Tree → Tree
  | .numeric x => .numeric x
  | .boolean b => .boolean b
  | .rawString s => .rawString s
  | .complexString s => .complexString s
  | .block entries => .block (entriesOf (Table.ofList (dedupMembers entries)))
  | .map entries => .map (entriesOf (Table.ofList (dedupMembers entries)))
  | .array items => .array (dedupItems items)
  | .directive ⟨name, args⟩ => .directive ⟨name, dedupItems args⟩
  | .piped raw chain => .piped (dedup raw) (dedupCalls chain)
termination_by structural tree => tree

def dedupItems : List Tree → List Tree
  | [] => []
  | item :: rest => dedup item :: dedupItems rest
termination_by structural items => items

def dedupMembers : List (Entry Tree) → Table Tree
  | [] => []
  | ⟨key, value⟩ :: rest => (key, dedup value) :: dedupMembers rest
termination_by structural entries => entries

def dedupCalls : List (Call Tree) → List (Call Tree)
  | [] => []
  | ⟨name, args⟩ :: rest => ⟨name, dedupItems args⟩ :: dedupCalls rest
termination_by structural calls => calls

end

/-- Whether a value can be dropped: it is accepted, and no work is queued for it. -/
structure Idle (interpolate : Bool) (placement : Placement) (tree : Tree) : Prop where
  accepted : ∃ v, tree.initial interpolate placement = .ok v
  unqueued (target : Reference) : placement.queued (tree.jobs interpolate target) = []

def Overwrites (interpolate : Bool) (placement : Placement) (entries : List (Entry Tree)) : Prop :=
  entries.Pairwise fun entry later => entry.key = later.key → entry.value.Idle interpolate placement

mutual

/-- Whether no block has calls of its own, and nothing is lost when each key is given once. -/
def Lossless (interpolate : Bool) (placement : Placement) : Tree → Prop
  | .block entries => (∀ entry ∈ entries, entry.value.asCall? = none) ∧
      Overwrites interpolate placement entries ∧ LosslessEntries interpolate placement entries
  | .map entries =>
    Overwrites interpolate placement entries ∧ LosslessEntries interpolate placement entries
  | .array items => LosslessItems interpolate placement items
  | .piped raw _ => Lossless interpolate placement raw
  | _ => True
termination_by structural tree => tree

def LosslessItems (interpolate : Bool) (placement : Placement) : List Tree → Prop
  | [] => True
  | item :: rest =>
    Lossless interpolate placement item ∧ LosslessItems interpolate placement rest
termination_by structural items => items

def LosslessEntries (interpolate : Bool) (placement : Placement) : List (Entry Tree) → Prop
  | [] => True
  | ⟨_, value⟩ :: rest =>
    Lossless interpolate placement value ∧ LosslessEntries interpolate placement rest
termination_by structural entries => entries

end

theorem dedupMembers_eq (entries : List (Entry Tree)) :
    dedupMembers entries = entries.map fun entry => (entry.key, entry.value.dedup) := by
  induction entries with
  | nil => rfl
  | cons entry rest ih => rw [dedupMembers, ih, List.map_cons]

theorem asCall?_dedup {tree : Tree} (h : tree.asCall? = none) : tree.dedup.asCall? = none := by
  cases tree with
  | directive call => cases h
  | _ => rfl

/-- An entry that is left has the value of one that was there. -/
theorem exists_of_mem_entriesOf {entries : List (Entry Tree)} {entry : Entry Tree}
    (h : entry ∈ entriesOf (Table.ofList (dedupMembers entries))) :
    ∃ old ∈ entries, entry.value = old.value.dedup := by
  obtain ⟨member, hm, rfl⟩ := List.mem_map.1 h
  have hold := Table.mem_of_mem_ofList hm
  rw [dedupMembers_eq] at hold
  obtain ⟨old, ho, rfl⟩ := List.mem_map.1 hold
  exact ⟨old, ho, rfl⟩

theorem asCall?_entriesOf {entries : List (Entry Tree)}
    (hn : ∀ entry ∈ entries, entry.value.asCall? = none) :
    ∀ entry ∈ entriesOf (Table.ofList (dedupMembers entries)), entry.value.asCall? = none := by
  intro entry hm
  obtain ⟨old, ho, hv⟩ := exists_of_mem_entriesOf hm
  rw [hv]
  exact asCall?_dedup (hn old ho)

theorem keys_entriesOf_sublist (table : Table Tree) :
    (keys (entriesOf table)).Sublist table.names := by
  induction table with
  | nil => exact .refl _
  | cons member rest ih =>
    show (keys (⟨member.1, member.2⟩ :: entriesOf rest)).Sublist (member.1 :: Table.names rest)
    rw [keys]
    split
    · exact ih.cons _
    · exact ih.cons_cons _

theorem nodup_keys_dedup (entries : List (Entry Tree)) :
    (keys (entriesOf (Table.ofList (dedupMembers entries)))).Nodup :=
  (keys_entriesOf_sublist _).nodup (Table.nodup_ofList _)

mutual

theorem distinct_dedup (tree : Tree) : ∀ node ∈ tree.dedup.nodes, node.Distinct := by
  cases tree with
  | numeric x | boolean b | rawString s | complexString s =>
    intro node hn entries he
    cases List.mem_singleton.1 hn
    cases he
  | block entries =>
    refine forall_nodes_block.2 ⟨fun es he => ?_, fun entry hm => ?_⟩
    · cases he
      exact nodup_keys_dedup entries
    · obtain ⟨old, ho, hv⟩ := exists_of_mem_entriesOf hm
      rw [hv]
      exact distinct_dedupMembers entries old ho
  | map entries =>
    refine forall_nodes_map.2 ⟨fun es he => ?_, fun entry hm => ?_⟩
    · cases he
      exact nodup_keys_dedup entries
    · obtain ⟨old, ho, hv⟩ := exists_of_mem_entriesOf hm
      rw [hv]
      exact distinct_dedupMembers entries old ho
  | array items => exact forall_nodes_array.2 ⟨nofun, distinct_dedupItems items⟩
  | directive call =>
    obtain ⟨name, args⟩ := call
    exact forall_nodes_directive.2 ⟨nofun, distinct_dedupItems args⟩
  | piped raw chain =>
    exact forall_nodes_piped.2 ⟨nofun, distinct_dedup raw, distinct_dedupCalls chain⟩
termination_by structural tree

theorem distinct_dedupItems (items : List Tree) :
    ∀ item ∈ dedupItems items, ∀ node ∈ item.nodes, node.Distinct := by
  cases items with
  | nil => nofun
  | cons item rest =>
    exact List.forall_mem_cons.2 ⟨distinct_dedup item, distinct_dedupItems rest⟩
termination_by structural items

theorem distinct_dedupMembers (entries : List (Entry Tree)) :
    ∀ entry ∈ entries, ∀ node ∈ entry.value.dedup.nodes, node.Distinct := by
  cases entries with
  | nil => nofun
  | cons entry rest =>
    exact List.forall_mem_cons.2 ⟨distinct_dedup entry.value, distinct_dedupMembers rest⟩
termination_by structural entries

theorem distinct_dedupCalls (calls : List (Call Tree)) :
    ∀ call ∈ dedupCalls calls, ∀ arg ∈ call.args, ∀ node ∈ arg.nodes, node.Distinct := by
  cases calls with
  | nil => nofun
  | cons call rest =>
    exact List.forall_mem_cons.2 ⟨distinct_dedupItems call.args, distinct_dedupCalls rest⟩
termination_by structural calls

end

section
variable {interpolate : Bool} {placement : Placement} {entries : List (Entry Tree)} {v : Value}

def Gives (interpolate : Bool) (placement : Placement) (entry : Entry Tree)
    (member : String × Value) : Prop :=
  entry.key = member.1 ∧ entry.value.initial interpolate placement = .ok member.2

theorem initialMembers_iff_forall₂ {members : Table Value} :
    ((∀ entry ∈ entries, entry.value.asCall? = none) ∧
        initialMembers interpolate placement entries = .ok members) ↔
      List.Forall₂ (Gives interpolate placement) entries members := by
  induction entries generalizing members with
  | nil => simp [initialMembers, eq_comm]
  | cons entry rest ih =>
    obtain ⟨key, value⟩ := entry
    rw [List.forall₂_cons_left_iff, List.forall_mem_cons]
    constructor
    · rintro ⟨⟨hn, hr⟩, h⟩
      have hc : ¬ value.asCall?.isSome := by simp [show value.asCall? = none from hn]
      obtain ⟨w, ms, hv, hm, rfl⟩ := (initialMembers_cons_eq_ok_iff hc).1 h
      exact ⟨(key, w), ms, ⟨rfl, hv⟩, ih.1 ⟨hr, hm⟩, rfl⟩
    · rintro ⟨⟨name, w⟩, ms, ⟨rfl, hv⟩, hr, rfl⟩
      obtain ⟨hc, hm⟩ := ih.2 hr
      -- A call is not accepted as a value.
      have hn : value.asCall? = none := by
        cases value with
        | directive call => cases hv
        | _ => rfl
      exact ⟨⟨hn, hc⟩, (initialMembers_cons_eq_ok_iff (by simp [hn])).2 ⟨w, ms, hv, hm, rfl⟩⟩

theorem initial_map_iff : (map entries).initial interpolate placement = .ok v ↔
    ∃ members, List.Forall₂ (Gives interpolate placement) entries members ∧
      v = .object (Table.ofList members) := by
  rw [initial_map_eq_ok_iff]
  constructor
  · rintro ⟨hn, members, hm, rfl⟩
    exact ⟨members, initialMembers_iff_forall₂.1 ⟨hn, hm⟩, rfl⟩
  · rintro ⟨members, h, rfl⟩
    obtain ⟨hn, hm⟩ := initialMembers_iff_forall₂.2 h
    exact ⟨hn, members, hm, rfl⟩

/-- Without calls of its own a block is like a map. -/
theorem initial_block_iff (hn : ∀ entry ∈ entries, entry.value.asCall? = none) :
    (block entries).initial interpolate placement = .ok v ↔
      ∃ members, List.Forall₂ (Gives interpolate placement) entries members ∧
        v = .object (Table.ofList members) := by
  rw [← initial_map_iff, initial_map_eq_ok_iff, initial_block_eq_ok_iff]
  exact and_congr_left fun _ => ⟨fun _ => hn, fun _ _ => hn⟩

/-- Where values are accepted as they were before, so are the entries that are left. -/
theorem forall₂_dedup_iff (ho : Overwrites interpolate placement entries)
    (hv : ∀ entry ∈ entries, ∀ w, entry.value.dedup.initial interpolate placement = .ok w ↔
      entry.value.initial interpolate placement = .ok w) {members : Table Value} :
    List.Forall₂ (Gives interpolate placement)
        (entriesOf (Table.ofList (dedupMembers entries))) members ↔
      ∃ all, List.Forall₂ (Gives interpolate placement) entries all ∧
        members = Table.ofList all := by
  let R (tree : Tree) (w : Value) : Prop := tree.initial interpolate placement = .ok w
  have hleft (table : Table Tree) (ms : Table Value) :
      List.Forall₂ (Gives interpolate placement) (entriesOf table) ms ↔
        List.Forall₂ (Table.Named R) table ms := List.forall₂_map_left_iff
  have hpairs : (dedupMembers entries).Pairwise fun pair later =>
      pair.1 = later.1 → ∃ w, R pair.2 w := by
    rw [dedupMembers_eq, List.pairwise_map]
    apply ho.imp_of_mem
    intro old later hm _ hidle hk
    obtain ⟨w, hw⟩ := (hidle hk).accepted
    exact ⟨w, (hv _ hm w).2 hw⟩
  rw [hleft, Table.forall₂_ofList_iff hpairs]
  apply exists_congr
  intro all
  apply and_congr_left
  intro _
  rw [dedupMembers_eq, List.forall₂_map_left_iff, List.forall₂_iff_zip, List.forall₂_iff_zip]
  apply and_congr_right
  intro _
  constructor
  · intro h entry member hm
    exact (h hm).imp_right (hv entry (List.of_mem_zip hm).1 member.2).1
  · intro h entry member hm
    exact (h hm).imp_right (hv entry (List.of_mem_zip hm).1 member.2).2

theorem exists_dedup_iff (ho : Overwrites interpolate placement entries)
    (hv : ∀ entry ∈ entries, ∀ w, entry.value.dedup.initial interpolate placement = .ok w ↔
      entry.value.initial interpolate placement = .ok w) :
    (∃ members, List.Forall₂ (Gives interpolate placement)
        (entriesOf (Table.ofList (dedupMembers entries))) members ∧
          v = .object (Table.ofList members)) ↔
      ∃ members, List.Forall₂ (Gives interpolate placement) entries members ∧
        v = .object (Table.ofList members) := by
  have hi (all : Table Value) : Table.ofList (Table.ofList all) = Table.ofList all :=
    Table.ofList_of_nodup (Table.nodup_ofList all)
  constructor
  · rintro ⟨members, h, rfl⟩
    obtain ⟨all, ha, rfl⟩ := (forall₂_dedup_iff ho hv).1 h
    exact ⟨all, ha, by rw [hi]⟩
  · rintro ⟨all, ha, rfl⟩
    exact ⟨_, (forall₂_dedup_iff ho hv).2 ⟨all, ha, rfl⟩, by rw [hi]⟩

mutual

/-- What is dropped has no part in the value that a tree stands for at first. -/
theorem initial_dedup_iff (tree : Tree) (h : tree.Lossless interpolate placement) (v : Value) :
    tree.dedup.initial interpolate placement = .ok v ↔
      tree.initial interpolate placement = .ok v := by
  cases tree with
  | numeric x | boolean b | rawString s | complexString s => exact Iff.rfl
  | directive call => exact ⟨nofun, nofun⟩
  | block entries =>
    obtain ⟨hn, ho, hl⟩ := h
    rw [dedup, initial_block_iff (asCall?_entriesOf hn), initial_block_iff hn]
    exact exists_dedup_iff ho (initialMembers_dedup_iff entries hl)
  | map entries =>
    obtain ⟨ho, hl⟩ := h
    rw [dedup, initial_map_iff, initial_map_iff]
    exact exists_dedup_iff ho (initialMembers_dedup_iff entries hl)
  | array items =>
    rw [dedup, initial, initial, map_eq_ok_iff, map_eq_ok_iff]
    simp only [initialItems_dedup_iff items h]
  | piped raw chain =>
    have hraw := initial_dedup_iff raw h v
    cases placement with
    | argument => exact ⟨nofun, nofun⟩
    | document => exact hraw
termination_by structural tree

theorem initialItems_dedup_iff (items : List Tree)
    (h : LosslessItems interpolate placement items) (vs : List Value) :
    initialItems interpolate placement (dedupItems items) = .ok vs ↔
      initialItems interpolate placement items = .ok vs := by
  cases items with
  | nil => exact Iff.rfl
  | cons item rest =>
    have hi := initial_dedup_iff item h.1
    have hr := initialItems_dedup_iff rest h.2
    rw [dedupItems, initialItems, initialItems, bind_eq_ok_iff, bind_eq_ok_iff]
    simp only [bind_eq_ok_iff, hi, hr]
termination_by structural items

theorem initialMembers_dedup_iff (entries : List (Entry Tree))
    (h : LosslessEntries interpolate placement entries) :
    ∀ entry ∈ entries, ∀ v, entry.value.dedup.initial interpolate placement = .ok v ↔
      entry.value.initial interpolate placement = .ok v := by
  cases entries with
  | nil => nofun
  | cons entry rest =>
    exact List.forall_mem_cons.2
      ⟨initial_dedup_iff entry.value h.1, initialMembers_dedup_iff rest h.2⟩
termination_by structural entries

end

end

end ConfigDoc.Tree
