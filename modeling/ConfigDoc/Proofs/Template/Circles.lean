import ConfigDoc.Proofs.Template.Resolution

/-! Resolving a template step by step with nothing but the keys on the way: how deep it goes, and
which circle it meets. -/

namespace ConfigDoc

theorem mapError_bind_eq {ε ε' α β : Type} {f : ε → ε'} {x : Except ε α} {x' : Except ε' α}
    {k : α → Except ε β} {k' : α → Except ε' β} (hx : x' = x.mapError f)
    (hk : ∀ a, k' a = (k a).mapError f) : (x' >>= k') = (x >>= k).mapError f := by
  rw [hx, show k' = fun a => (k a).mapError f from funext hk]
  cases x <;> rfl

theorem mapM_mapError {ε ε' α β : Type} {f : ε → ε'} {step : α → Except ε β}
    {step' : α → Except ε' β} {as : List α} (h : ∀ a ∈ as, step' a = (step a).mapError f) :
    as.mapM step' = (as.mapM step).mapError f := by
  induction as with
  | nil => rfl
  | cons a rest ih =>
    obtain ⟨ha, hr⟩ := List.forall_mem_cons.1 h
    rw [List.mapM_cons, List.mapM_cons]
    exact mapError_bind_eq ha fun b => mapError_bind_eq (ih hr) fun bs => rfl

namespace Value

variable {ε ε' : Type} {f : ε → ε'} {resolve : Template → Except ε Value}
  {resolve' : Template → Except ε' Value}

mutual

theorem mapTemplates_mapError (v : Value)
    (h : ∀ t ∈ v.templates, resolve' t = (resolve t).mapError f) :
    v.mapTemplates resolve' = (v.mapTemplates resolve).mapError f := by
  cases v with
  | template t => exact h t (List.mem_singleton_self t)
  | array items => exact mapError_bind_eq (mapItemTemplates_mapError items h) fun _ => rfl
  | object members => exact mapError_bind_eq (mapMemberTemplates_mapError members h) fun _ => rfl
  | _ => rfl
termination_by structural v

theorem mapItemTemplates_mapError (vs : List Value)
    (h : ∀ t ∈ itemTemplates vs, resolve' t = (resolve t).mapError f) :
    mapItemTemplates resolve' vs = (mapItemTemplates resolve vs).mapError f := by
  cases vs with
  | nil => rfl
  | cons v rest =>
    obtain ⟨hv, hr⟩ := List.forall_mem_append.1 h
    exact mapError_bind_eq (mapTemplates_mapError v hv) fun _ =>
      mapError_bind_eq (mapItemTemplates_mapError rest hr) fun _ => rfl
termination_by structural vs

theorem mapMemberTemplates_mapError (ms : List (String × Value))
    (h : ∀ t ∈ memberTemplates ms, resolve' t = (resolve t).mapError f) :
    mapMemberTemplates resolve' ms = (mapMemberTemplates resolve ms).mapError f := by
  cases ms with
  | nil => rfl
  | cons member rest =>
    obtain ⟨hv, hr⟩ := List.forall_mem_append.1 h
    exact mapError_bind_eq (mapTemplates_mapError member.2 hv) fun _ =>
      mapError_bind_eq (mapMemberTemplates_mapError rest hr) fun _ => rfl
termination_by structural ms

end

end Value

namespace Template
open Relation

/-- A way on which each key needs the next, from one of the keys at the start. -/
structure Way (find : String → Option Value) (start way : List String) : Prop where
  linked : way.IsChain (DependsOn find)
  head : ∃ key ∈ start, way.head? = some key

/-- A way of distinct keys, and behind them one of these again. -/
structure Loop (find : String → Option Value) (start chain : List String) : Prop where
  way : Way find start chain
  closes : ∃ visited key, chain = visited ++ [key] ∧ visited.Nodup ∧ key ∈ visited

variable {find : String → Option Value} {start way : List String} {key key' : String}

theorem way_singleton (h : key ∈ start) : Way find start [key] :=
  ⟨.singleton key, key, h, rfl⟩

theorem Way.append_dependency (h : Way find start (way ++ [key])) (hd : DependsOn find key key') :
    Way find start (way ++ [key] ++ [key']) := by
  obtain ⟨hl, first, hs, hh⟩ := h
  constructor
  · refine List.isChain_append.2 ⟨hl, .singleton key', fun last hlast next hnext => ?_⟩
    rw [List.getLast?_concat] at hlast
    cases hlast
    cases hnext
    exact hd
  · refine ⟨first, hs, ?_⟩
    rw [List.head?_append, hh, Option.some_or]

variable {sources : List Value}

/-- The text of a template by the keys on the way alone: a key that is being resolved already closes
a circle, every other one is resolved. No text comes out (`none`) where more than `depth` templates
would have to be open at once. -/
def resolveUpTo (sources : List Value) (depth : Nat) (visiting : List String) (t : Template) :
    Except (Option Error) String :=
  match depth with
  | 0 => .error none
  | depth + 1 => do
    let texts ← t.keys.mapM fun key => do
      if key ∈ visiting then throw (some (.circularTemplate (visiting ++ [key])))
      else
        match find? sources key with
        | none => pure (key, "")
        | some v =>
          let resolved ← v.mapTemplates fun nested => do
            let text ← resolveUpTo sources depth (visiting ++ [key]) nested
            pure (.string text)
          pure (key, resolved.text)
    pure (t.substitute fun key => (Table.find? texts key).getD "")

/-- With as many levels as there are keys left, the bound is never met. -/
theorem resolveUpTo_eq {reachable remaining visiting : List String} {depth : Nat} {t : Template}
    (hclosed : ∀ {k k'}, DependsOn (find? sources) k k' → k' ∈ reachable)
    (hkeys : ∀ key ∈ reachable, key ∈ remaining ↔ key ∉ visiting)
    (ht : ∀ key ∈ t.tokenKeys, key ∈ reachable) (hd : remaining.length < depth) :
    resolveUpTo sources depth visiting t =
      (resolveWithin sources remaining visiting t).mapError some := by
  induction depth generalizing remaining visiting t with
  | zero => omega
  | succ depth ih =>
    rw [resolveUpTo, resolveWithin_eq]
    refine mapError_bind_eq (mapM_mapError fun key hk => ?_) fun texts => rfl
    have hr := ht key (mem_keys.1 hk)
    rw [resolveToken]
    by_cases hv : key ∈ visiting
    · rw [if_pos hv, if_neg fun hm => (hkeys key hr).1 hm hv]
      rfl
    have hm := (hkeys key hr).2 hv
    rw [if_neg hv, if_pos hm]
    cases hf : find? sources key with
    | none => rfl
    | some v =>
      refine mapError_bind_eq (Value.mapTemplates_mapError v fun nested hn => ?_) fun _ => rfl
      refine mapError_bind_eq (ih (fun k hk => ?_) (fun k hk => ?_) ?_) fun _ => rfl
      · have hk' := hkeys k hk
        by_cases he : k = key
        · simp [he, without]
        · simp [he, without, hk']
      · exact hclosed ⟨v, hf, Value.mem_tokenKeys_iff.2 ⟨nested, hn, hk⟩⟩
      · have := length_without_lt hm
        omega

/-- Whatever the depth, a failure tells the way that was taken. -/
theorem loop_of_resolveUpTo {visiting : List String} {depth : Nat} {t : Template} {e : Error}
    (hv : visiting.Nodup) (hw : ∀ key ∈ t.tokenKeys, Way (find? sources) start (visiting ++ [key]))
    (h : resolveUpTo sources depth visiting t = .error (some e)) :
    ∃ chain, e = .circularTemplate chain ∧ Loop (find? sources) start chain := by
  induction depth generalizing visiting t with
  | zero => cases h
  | succ depth ih =>
    rw [resolveUpTo] at h
    rcases bind_eq_error_iff.1 h with h | ⟨texts, -, h⟩
    swap
    · cases h
    obtain ⟨key, hk, h⟩ := error_of_mapM h
    have hway := hw key (mem_keys.1 hk)
    split at h
    · rename_i hm
      cases h
      exact ⟨_, rfl, hway, visiting, key, rfl, hv, hm⟩
    rename_i hm
    cases hf : find? sources key with
    | none =>
      rw [hf] at h
      cases h
    | some v =>
      rw [hf] at h
      rcases bind_eq_error_iff.1 h with h | ⟨resolved, -, h⟩
      swap
      · cases h
      obtain ⟨nested, hn, h⟩ := Value.resolve_error_of_mapTemplates v h
      rcases bind_eq_error_iff.1 h with h | ⟨text, -, h⟩
      swap
      · cases h
      -- The way goes on with a key that is not on it yet, and with those that this one needs.
      refine ih (List.nodup_append.2 ⟨hv, List.nodup_singleton key, ?_⟩) (fun k hk => ?_) h
      · intro a ha b hb
        cases List.mem_singleton.1 hb
        exact fun he => hm (he ▸ ha)
      · exact hway.append_dependency ⟨v, hf, Value.mem_tokenKeys_iff.2 ⟨nested, hn, hk⟩⟩

/-- Resolving a template ends with as many templates open at once as there are keys to meet, and one
more. It fails exactly if a key on the way from its tokens needs its own text, and then it reports a
loop from one of its tokens. -/
theorem resolve_terminates (sources : List Value) (t : Template) :
    (∀ depth, (reachableKeys sources t).length < depth →
      resolveUpTo sources depth [] t = (t.resolve sources).mapError some) ∧
    ((∃ s, t.resolve sources = .ok s) ↔ ¬ Circular (find? sources) t.tokenKeys) ∧
    ∀ e, t.resolve sources = .error e →
      ∃ chain, e = .circularTemplate chain ∧ Loop (find? sources) t.tokenKeys chain := by
  have hbounded : ∀ depth, (reachableKeys sources t).length < depth →
      resolveUpTo sources depth [] t = (t.resolve sources).mapError some := fun depth hd =>
    resolveUpTo_eq (fun hd => List.mem_append_right _ (mem_of_dependsOn hd))
      (fun key hk => ⟨fun _ => List.not_mem_nil, fun _ => hk⟩)
      (fun key hk => List.mem_append_left _ hk) hd
  refine ⟨hbounded, ?_, fun e he => ?_⟩
  · rw [not_circular_iff mem_of_dependsOn]
    exact ⟨fun ⟨s, hs⟩ => grounded_of_resolveWithin hs, fun h => ⟨_, resolve_eq_ok h⟩⟩
  · have hrun := hbounded _ (Nat.lt_succ_self _)
    rw [he] at hrun
    exact loop_of_resolveUpTo List.nodup_nil (fun key hk => way_singleton hk) hrun

/-- One slot under two spellings: the circle closes when a spelling comes again. -/
example : (Template.mk "$\x7ba[0]\x7d").resolve
      [.object [("a", .array [.template ⟨"<$\x7ba.0\x7d>"⟩])]] =
    .error (.circularTemplate ["a[0]", "a.0", "a.0"]) := by decide +kernel

end Template

end ConfigDoc
