import ConfigDoc.Proofs.Tree.Grammar
import ConfigDoc.Tree.Read
import Mathlib.Data.List.TakeWhile

namespace ConfigDoc.Tree
open Grammar

def Consumes (ts rest : Tokens) (us : List Token) : Prop :=
  ∃ front, ts = front ++ rest ∧ front.map Token.Placed.token = us

theorem consumes_nil {ts rest : Tokens} : Consumes ts rest [] ↔ ts = rest := by
  simp [Consumes]

theorem consumes_cons {ts rest : Tokens} {token : Token} {us : List Token} :
    Consumes ts rest (token :: us) ↔
      ∃ placed tail, ts = placed :: tail ∧ placed.token = token ∧ Consumes tail rest us := by
  constructor
  · rintro ⟨front, rfl, hf⟩
    obtain ⟨placed, tail, rfl, hp, ht⟩ := List.map_eq_cons_iff.1 hf
    exact ⟨placed, tail ++ rest, rfl, hp, tail, rfl, ht⟩
  · rintro ⟨placed, tail, rfl, hp, front, rfl, hf⟩
    exact ⟨placed :: front, rfl, by simp [hp, hf]⟩

theorem consumes_append {ts rest : Tokens} {us vs : List Token} :
    Consumes ts rest (us ++ vs) ↔ ∃ mid, Consumes ts mid us ∧ Consumes mid rest vs := by
  constructor
  · rintro ⟨front, rfl, hf⟩
    obtain ⟨front₁, front₂, rfl, h₁, h₂⟩ := List.map_eq_append_iff.1 hf
    exact ⟨front₂ ++ rest, ⟨front₁, by simp, h₁⟩, front₂, rfl, h₂⟩
  · rintro ⟨mid, ⟨front₁, rfl, h₁⟩, front₂, rfl, h₂⟩
    exact ⟨front₁ ++ front₂, by simp, by simp [h₁, h₂]⟩

theorem Consumes.trans {ts mid rest : Tokens} {us vs : List Token} (h : Consumes ts mid us)
    (h' : Consumes mid rest vs) : Consumes ts rest (us ++ vs) := consumes_append.2 ⟨mid, h, h'⟩

/-- Behind the last token there is only the end of the input, so every other token can be taken. -/
theorem Consumes.token {ts rest : Tokens} {token : Token} {us : List Token} (h : peek ts = token)
    (he : token ≠ .eof) (ht : Consumes ts.tail rest us) : Consumes ts rest (token :: us) := by
  cases ts with
  | nil => exact absurd h.symm he
  | cons placed tail => exact consumes_cons.2 ⟨placed, tail, rfl, h, ht⟩

theorem Consumes.peek {ts rest : Tokens} {token : Token} {us : List Token}
    (h : Consumes ts rest (token :: us)) : peek ts = token := by
  obtain ⟨placed, tail, rfl, hp, -⟩ := consumes_cons.1 h
  exact hp

theorem Consumes.tail {ts rest : Tokens} {token : Token} {us : List Token}
    (h : Consumes ts rest (token :: us)) : Consumes ts.tail rest us := by
  obtain ⟨placed, tail, rfl, -, ht⟩ := consumes_cons.1 h
  exact ht

theorem Consumes.rfl {ts : Tokens} : Consumes ts ts [] := consumes_nil.2 (Eq.refl ts)

theorem consumes_skipNewlines (ts : Tokens) :
    ∃ breaks, LineBreaks breaks ∧ Consumes ts (skipNewlines ts) breaks := by
  refine ⟨_, ?_, ts.takeWhile fun placed => placed.token = .newline, ?_, rfl⟩
  · intro token ht
    obtain ⟨placed, hp, rfl⟩ := List.mem_map.1 ht
    simpa using List.mem_takeWhile_imp hp
  · exact List.takeWhile_append_dropWhile.symm

theorem skipNewlines_of_peek_ne {ts : Tokens} (h : peek ts ≠ .newline) : skipNewlines ts = ts := by
  cases ts with
  | nil => rfl
  | cons placed rest =>
    have : ¬ placed.token = .newline := h
    simp [skipNewlines, this]

theorem skipNewlines_eq {ts mid : Tokens} {breaks : List Token} (hb : LineBreaks breaks)
    (h : Consumes ts mid breaks) (hm : peek mid ≠ .newline) : skipNewlines ts = mid := by
  induction breaks generalizing ts with
  | nil =>
    rw [consumes_nil.1 h]
    exact skipNewlines_of_peek_ne hm
  | cons token rest ih =>
    obtain ⟨placed, tail, rfl, hp, ht⟩ := consumes_cons.1 h
    have hn : placed.token = .newline := hp.trans (hb token List.mem_cons_self)
    rw [skipNewlines, List.dropWhile_cons_of_pos (by simp [hn])]
    exact ih (fun u hu => hb u (List.mem_cons_of_mem _ hu)) ht

theorem statementKey?_eq_some_iff {token : Token} {key : String} :
    statementKey? token = some key ↔ StatementKey token key := by
  constructor
  · intro h
    cases token <;> simp only [statementKey?, Option.some.injEq, reduceCtorEq] at h <;> subst h
    · exact .name _
    · exact .quoted (.single _)
    · exact .quoted (.double _)
  · rintro (_ | ⟨_ | _⟩) <;> rfl

theorem memberKey?_eq_some_iff {token : Token} {key : String} :
    memberKey? token = some key ↔ QuotedKey token key := by
  constructor
  · intro h
    cases token <;> simp only [memberKey?, Option.some.injEq, reduceCtorEq] at h <;> subst h
    · exact .single _
    · exact .double _
  · rintro (_ | _) <;> rfl

theorem scalar?_eq_some_iff {token : Token} {tree : Tree} :
    scalar? token = some tree ↔ Scalar token tree := by
  constructor
  · intro h
    cases token <;> simp only [scalar?, Option.some.injEq, reduceCtorEq] at h <;> subst h
    · exact .raw _
    · exact .complex _
    · exact .number _
    · exact .bool _
  · rintro (_ | _ | _ | _) <;> rfl

theorem Plain.of_scalar {token : Token} {tree : Tree} (h : Scalar token tree) : tree.Plain := by
  cases h <;> simp [Plain, nodes, kind]

/-! ### What is read is derived -/

/-- What the functions that read phrases have in common: each result is derived by the tokens taken,
and within the arguments of a call it is plain. -/
structure Sound (steps : Nat) : Prop where
  statements {closing : Token} {ts rest : Tokens} {entries : List (Entry Tree)}
    (hc : closing ≠ .newline) (h : statements steps closing ts = .ok (entries, rest)) :
    ∃ us, Consumes ts rest us ∧ Derives (.body entries) us ∧ peek rest = closing
  statement {ts rest : Tokens} {entry : Entry Tree} (h : statement steps ts = .ok (entry, rest)) :
    ∃ us, Consumes ts rest us ∧ Derives (.statement entry) us
  expression {plain : Bool} {ts rest : Tokens} {tree : Tree}
    (h : expression steps plain ts = .ok (tree, rest)) :
    ∃ us, Consumes ts rest us ∧ Derives (.expression tree) us ∧ (plain = true → tree.Plain)
  rightCalls {ts rest : Tokens} {calls : List (Call Tree)}
    (h : rightCalls steps ts = .ok (calls, rest)) :
    ∃ us, Consumes ts rest us ∧ Derives (.rightPipes calls) us
  leftCalls {ts rest : Tokens} {calls : List (Call Tree)}
    (h : leftCalls steps ts = .ok (calls, rest)) :
    ∃ us, Consumes ts rest us ∧ Derives (.leftPipes calls) us
  call {ts rest : Tokens} {made : Call Tree} (h : call steps ts = .ok (made, rest)) :
    ∃ us, Consumes ts rest us ∧ Derives (.call made) us
  value {plain : Bool} {ts rest : Tokens} {tree : Tree}
    (h : value steps plain ts = .ok (tree, rest)) :
    ∃ us, Consumes ts rest us ∧ Derives (.value tree) us ∧ (plain = true → tree.Plain)
  items {plain : Bool} {closing : Token} {ending : Expectation} {ts rest : Tokens}
    {trees : List Tree} (hc : closing ≠ .eof)
    (h : items steps plain closing ending ts = .ok (trees, rest)) :
    ∃ us, Consumes ts rest (us ++ [closing]) ∧ Derives (.items trees) us ∧
      (plain = true → ∀ tree ∈ trees, tree.Plain)
  members {plain : Bool} {ts rest : Tokens} {entries : List (Entry Tree)}
    (h : members steps plain ts = .ok (entries, rest)) :
    ∃ us, Consumes ts rest (us ++ [.rbrace]) ∧ Derives (.members entries) us ∧
      (plain = true → ∀ entry ∈ entries, entry.value.Plain)

theorem refuse_ne_ok {α : Type} {expected : Expectation} {ts : Tokens} {a : α} :
    refuse expected ts ≠ .ok a := nofun

private theorem sound_zero : Sound 0 := by
  constructor <;> intros <;> rename_i h <;> cases h

private theorem sound_rightCalls {steps : Nat} (ih : Sound steps) {ts rest : Tokens}
    {calls : List (Call Tree)} (h : rightCalls (steps + 1) ts = .ok (calls, rest)) :
    ∃ us, Consumes ts rest us ∧ Derives (.rightPipes calls) us := by
  rw [rightCalls] at h
  split at h
  · rename_i hp
    obtain ⟨⟨first, ts₁⟩, hf, h⟩ := bind_eq_ok_iff.1 h
    obtain ⟨⟨others, ts₂⟩, ho, h⟩ := bind_eq_ok_iff.1 h
    cases h
    obtain ⟨before, hb, hcb⟩ := consumes_skipNewlines ts
    obtain ⟨after, ha, hca⟩ := consumes_skipNewlines (skipNewlines ts).tail
    obtain ⟨us, hu, hdu⟩ := ih.call hf
    obtain ⟨vs, hv, hdv⟩ := ih.rightCalls ho
    have hc := hcb.trans (.token hp (by decide) (hca.trans (hu.trans hv)))
    exact ⟨_, hc, .rightPipe hb ha hdu hdv⟩
  · cases h
    exact ⟨[], .rfl, .noRightPipe⟩

private theorem sound_leftCalls {steps : Nat} (ih : Sound steps) {ts rest : Tokens}
    {calls : List (Call Tree)} (h : leftCalls (steps + 1) ts = .ok (calls, rest)) :
    ∃ us, Consumes ts rest us ∧ Derives (.leftPipes calls) us := by
  rw [leftCalls] at h
  obtain ⟨⟨first, ts₁⟩, hf, h⟩ := bind_eq_ok_iff.1 h
  obtain ⟨us, hu, hdu⟩ := ih.call hf
  dsimp only at h
  split at h
  · exact absurd h refuse_ne_ok
  · rename_i hp
    obtain ⟨before, hb, hcb⟩ := consumes_skipNewlines ts₁
    obtain ⟨after, ha, hca⟩ := consumes_skipNewlines (skipNewlines ts₁).tail
    split at h
    · obtain ⟨⟨others, ts₂⟩, ho, h⟩ := bind_eq_ok_iff.1 h
      cases h
      obtain ⟨vs, hv, hdv⟩ := ih.leftCalls ho
      have hc := hu.trans (hcb.trans (.token (not_not.1 hp) (by decide) (hca.trans hv)))
      exact ⟨_, hc, .leftPipe hdu hb ha hdv⟩
    · cases h
      have hc := hu.trans (hcb.trans (.token (not_not.1 hp) (by decide) hca))
      exact ⟨_, hc, .lastLeftPipe hdu hb ha⟩

private theorem sound_call {steps : Nat} (ih : Sound steps) {ts rest : Tokens} {made : Call Tree}
    (h : call (steps + 1) ts = .ok (made, rest)) :
    ∃ us, Consumes ts rest us ∧ Derives (.call made) us := by
  rw [call] at h
  split at h
  · exact absurd h refuse_ne_ok
  rename_i hat
  have hat : peek ts = .atSign := not_not.1 hat
  dsimp only at h
  split at h
  · rename_i name hn
    split at h
    · rename_i hl
      obtain ⟨breaks, hb, hc⟩ := consumes_skipNewlines ts.tail.tail.tail
      split at h
      · rename_i hr
        cases h
        have hc' := hc.trans (.token hr (by decide) .rfl)
        exact ⟨_, .token hat (by decide) (.token hn (by simp) (.token hl (by decide) hc')),
          .emptyCall name hb⟩
      · obtain ⟨⟨args, ts₁⟩, ha, h⟩ := bind_eq_ok_iff.1 h
        cases h
        obtain ⟨us, hu, hd, hp⟩ := ih.items (by decide) ha
        exact ⟨_, .token hat (by decide) (.token hn (by simp) (.token hl (by decide)
          (hc.trans hu))), .fullCall name hb hd (hp rfl)⟩
    · cases h
      exact ⟨_, .token hat (by decide) (.token hn (by simp) .rfl), .bareCall name⟩
  · exact absurd h refuse_ne_ok

private theorem sound_value {steps : Nat} (ih : Sound steps) {plain : Bool} {ts rest : Tokens}
    {tree : Tree} (h : value (steps + 1) plain ts = .ok (tree, rest)) :
    ∃ us, Consumes ts rest us ∧ Derives (.value tree) us ∧ (plain = true → tree.Plain) := by
  rw [value] at h
  obtain ⟨breaks, hb, hc⟩ := consumes_skipNewlines ts.tail
  split at h
  · rename_i hl
    dsimp only at h
    split at h
    · rename_i hr
      cases h
      exact ⟨_, .token hl (by decide) (hc.trans (.token hr (by decide) .rfl)), .emptyArray hb,
        fun _ => plain_array.2 (by simp)⟩
    · obtain ⟨⟨trees, ts₁⟩, hi, h⟩ := bind_eq_ok_iff.1 h
      cases h
      obtain ⟨us, hu, hd, hp⟩ := ih.items (by decide) hi
      exact ⟨_, .token hl (by decide) (hc.trans hu), .array hb hd,
        fun hplain => plain_array.2 (hp hplain)⟩
  split at h
  · rename_i hl
    dsimp only at h
    split at h
    · rename_i hr
      cases h
      exact ⟨_, .token hl (by decide) (hc.trans (.token hr (by decide) .rfl)), .emptyMap hb,
        fun _ => plain_map.2 (by simp)⟩
    · obtain ⟨⟨entries, ts₁⟩, hm, h⟩ := bind_eq_ok_iff.1 h
      cases h
      obtain ⟨us, hu, hd, hp⟩ := ih.members hm
      exact ⟨_, .token hl (by decide) (hc.trans hu), .map hb hd,
        fun hplain => plain_map.2 (hp hplain)⟩
  split at h
  · rename_i hs
    cases h
    have hs := scalar?_eq_some_iff.1 hs
    have he : peek ts ≠ .eof := fun he => by rw [he] at hs; cases hs
    exact ⟨_, .token rfl he .rfl, .scalar hs, fun _ => .of_scalar hs⟩
  · exact absurd h refuse_ne_ok

private theorem sound_expression {steps : Nat} (ih : Sound steps) {plain : Bool}
    {ts rest : Tokens} {tree : Tree} (h : expression (steps + 1) plain ts = .ok (tree, rest)) :
    ∃ us, Consumes ts rest us ∧ Derives (.expression tree) us ∧ (plain = true → tree.Plain) := by
  rw [expression] at h
  split at h
  · rename_i hplain
    split at h
    · exact absurd h refuse_ne_ok
    obtain ⟨⟨raw, ts₁⟩, hv, h⟩ := bind_eq_ok_iff.1 h
    obtain ⟨us, hu, hd, hp⟩ := ih.value hv
    dsimp only at h
    split at h
    · exact absurd h refuse_ne_ok
    · cases h
      exact ⟨us, hu, .unpiped hd, hp⟩
  rename_i hplain
  split at h
  · obtain ⟨⟨calls, ts₁⟩, hl, h⟩ := bind_eq_ok_iff.1 h
    obtain ⟨⟨raw, ts₂⟩, hv, h⟩ := bind_eq_ok_iff.1 h
    obtain ⟨us, hu, hdu⟩ := ih.leftCalls hl
    obtain ⟨vs, hv', hdv, -⟩ := ih.value hv
    dsimp only at h
    split at h
    · exact absurd h refuse_ne_ok
    · cases h
      have hn : calls.reverse ≠ [] := by cases hdu <;> simp
      have hd : Derives (.expression (pipedThrough raw calls.reverse)) (us ++ vs) := by
        rw [pipedThrough, if_neg (by simpa using hn)]
        exact .leftPiped hdu hdv
      exact ⟨_, hu.trans hv', hd, fun hp => absurd hp hplain⟩
  · obtain ⟨⟨raw, ts₁⟩, hv, h⟩ := bind_eq_ok_iff.1 h
    obtain ⟨⟨calls, ts₂⟩, hr, h⟩ := bind_eq_ok_iff.1 h
    obtain ⟨us, hu, hdu, -⟩ := ih.value hv
    obtain ⟨vs, hv', hdv⟩ := ih.rightCalls hr
    dsimp only at h
    split at h
    · exact absurd h refuse_ne_ok
    · cases h
      refine ⟨_, hu.trans hv', ?_, fun hp => absurd hp hplain⟩
      cases hdv with
      | noRightPipe =>
        rw [List.append_nil]
        exact .unpiped hdu
      | rightPipe hb ha hc hcs => exact .rightPiped hdu (.rightPipe hb ha hc hcs) (by simp)

private theorem sound_items {steps : Nat} (ih : Sound steps) {plain : Bool} {closing : Token}
    {ending : Expectation} {ts rest : Tokens} {trees : List Tree} (hc : closing ≠ .eof)
    (h : items (steps + 1) plain closing ending ts = .ok (trees, rest)) :
    ∃ us, Consumes ts rest (us ++ [closing]) ∧ Derives (.items trees) us ∧
      (plain = true → ∀ tree ∈ trees, tree.Plain) := by
  rw [items] at h
  obtain ⟨⟨first, ts₁⟩, hf, h⟩ := bind_eq_ok_iff.1 h
  obtain ⟨us, hu, hd, hp⟩ := ih.expression hf
  obtain ⟨before, hb, hcb⟩ := consumes_skipNewlines ts₁
  dsimp only at h
  split at h
  · rename_i hcomma
    obtain ⟨after, ha, hca⟩ := consumes_skipNewlines (skipNewlines ts₁).tail
    split at h
    · rename_i hend
      cases h
      refine ⟨us ++ (before ++ .comma :: after), ?_, .lastItem hd hb (.inr ⟨after, ha, rfl⟩), ?_⟩
      · simp only [List.append_assoc, List.cons_append]
        exact hu.trans (hcb.trans (.token hcomma (by decide) (hca.trans (.token hend hc .rfl))))
      · simpa using hp
    · obtain ⟨⟨others, ts₂⟩, ho, h⟩ := bind_eq_ok_iff.1 h
      cases h
      obtain ⟨vs, hv, hdv, hps⟩ := ih.items hc ho
      refine ⟨us ++ (before ++ .comma :: (after ++ vs)), ?_, .item hd hb ha hdv, ?_⟩
      · simp only [List.append_assoc, List.cons_append]
        exact hu.trans (hcb.trans (.token hcomma (by decide) (hca.trans hv)))
      · intro hplain
        exact List.forall_mem_cons.2 ⟨hp hplain, hps hplain⟩
  split at h
  · rename_i hend
    cases h
    refine ⟨us ++ (before ++ []), ?_, .lastItem hd hb (.inl rfl), ?_⟩
    · simp only [List.append_assoc, List.nil_append]
      exact hu.trans (hcb.trans (.token hend hc .rfl))
    · simpa using hp
  · exact absurd h refuse_ne_ok

private theorem sound_members {steps : Nat} (ih : Sound steps) {plain : Bool} {ts rest : Tokens}
    {entries : List (Entry Tree)} (h : members (steps + 1) plain ts = .ok (entries, rest)) :
    ∃ us, Consumes ts rest (us ++ [.rbrace]) ∧ Derives (.members entries) us ∧
      (plain = true → ∀ entry ∈ entries, entry.value.Plain) := by
  rw [members] at h
  split at h
  · exact absurd h refuse_ne_ok
  rename_i key hk
  have hk := memberKey?_eq_some_iff.1 hk
  have he : peek ts ≠ .eof := fun he => by rw [he] at hk; cases hk
  obtain ⟨before, hb, hcb⟩ := consumes_skipNewlines ts.tail
  dsimp only at h
  split at h
  · exact absurd h refuse_ne_ok
  rename_i hcolon
  have hcolon := not_not.1 hcolon
  obtain ⟨after, ha, hca⟩ := consumes_skipNewlines (skipNewlines ts.tail).tail
  obtain ⟨⟨tree, ts₁⟩, hf, h⟩ := bind_eq_ok_iff.1 h
  obtain ⟨us, hu, hd, hp⟩ := ih.expression hf
  obtain ⟨breaks, hr, hcr⟩ := consumes_skipNewlines ts₁
  have hc {rest : Tokens} {vs : List Token} (hv : Consumes (skipNewlines ts₁) rest vs) :
      Consumes ts rest (peek ts :: (before ++ .colon :: (after ++ (us ++ (breaks ++ vs))))) :=
    .token rfl he (hcb.trans (.token hcolon (by decide) (hca.trans (hu.trans (hcr.trans hv)))))
  dsimp only at h
  split at h
  · rename_i hcomma
    obtain ⟨breaks', hr', hcr'⟩ := consumes_skipNewlines (skipNewlines ts₁).tail
    split at h
    · rename_i hend
      cases h
      refine ⟨_, ?_, .lastMember hk hb ha hd hr (.inr ⟨breaks', hr', rfl⟩), ?_⟩
      · simpa only [List.append_assoc, List.cons_append] using
          hc (.token hcomma (by decide) (hcr'.trans (.token hend (by decide) .rfl)))
      · simpa using hp
    · obtain ⟨⟨others, ts₂⟩, ho, h⟩ := bind_eq_ok_iff.1 h
      cases h
      obtain ⟨vs, hv, hdv, hps⟩ := ih.members ho
      refine ⟨_, ?_, .member hk hb ha hd hr hr' hdv, ?_⟩
      · simpa only [List.append_assoc, List.cons_append] using
          hc (.token hcomma (by decide) (hcr'.trans hv))
      · intro hplain
        exact List.forall_mem_cons.2 ⟨hp hplain, hps hplain⟩
  split at h
  · rename_i hend
    cases h
    refine ⟨_, ?_, .lastMember hk hb ha hd hr (.inl rfl), ?_⟩
    · simpa only [List.append_assoc, List.cons_append, List.nil_append] using
        hc (.token hend (by decide) .rfl)
    · simpa using hp
  · exact absurd h refuse_ne_ok

private theorem sound_statement {steps : Nat} (ih : Sound steps) {ts rest : Tokens}
    {entry : Entry Tree} (h : statement (steps + 1) ts = .ok (entry, rest)) :
    ∃ us, Consumes ts rest us ∧ Derives (.statement entry) us := by
  rw [statement] at h
  split at h
  · obtain ⟨⟨made, ts₁⟩, hm, h⟩ := bind_eq_ok_iff.1 h
    cases h
    obtain ⟨us, hu, hd⟩ := ih.call hm
    exact ⟨us, hu, .callStatement hd⟩
  split at h
  · exact absurd h refuse_ne_ok
  rename_i key hk
  have hk := statementKey?_eq_some_iff.1 hk
  have he : peek ts ≠ .eof := fun he => by rw [he] at hk; rcases hk with _ | ⟨⟨⟩⟩
  dsimp only at h
  split at h
  · rename_i hequals
    obtain ⟨⟨tree, ts₁⟩, hx, h⟩ := bind_eq_ok_iff.1 h
    cases h
    obtain ⟨breaks, hb, hc⟩ := consumes_skipNewlines ts.tail.tail
    obtain ⟨us, hu, hd, -⟩ := ih.expression hx
    exact ⟨_, .token rfl he (.token hequals (by decide) (hc.trans hu)), .assignment hk hb hd⟩
  split at h
  · rename_i hbrace
    obtain ⟨⟨entries, ts₁⟩, hs, h⟩ := bind_eq_ok_iff.1 h
    cases h
    obtain ⟨us, hu, hd, hend⟩ := ih.statements (by decide) hs
    exact ⟨_, .token rfl he (.token hbrace (by decide)
      (hu.trans (.token hend (by decide) .rfl))), .block hk hd⟩
  · exact absurd h refuse_ne_ok

/-- The end of the input is part of no phrase. -/
theorem eof_not_mem_of_derives {phrase : Phrase} {us : List Token} (h : Derives phrase us) :
    .eof ∉ us := by
  have hbreaks {breaks : List Token} (hb : LineBreaks breaks) : Token.eof ∉ breaks :=
    fun he => by cases hb _ he
  induction h with
  | emptyBody hb => exact hbreaks hb
  | bodyCons hb hf hc hr he ihf ihr => rcases hc with rfl | rfl <;> simp [hbreaks hb, ihf, ihr]
  | callStatement h ih => exact ih
  | assignment hk hb h ih =>
    have := hbreaks hb
    rcases hk with _ | ⟨_ | _⟩ <;> simp [this, ih]
  | block hk h ih => rcases hk with _ | ⟨_ | _⟩ <;> simp [ih]
  | unpiped h ih => exact ih
  | rightPiped h hc hn ih ihc => simp [ih, ihc]
  | leftPiped hc h ihc ih => simp [ih, ihc]
  | noRightPipe => simp
  | rightPipe hb ha h hc ih ihc => simp [hbreaks hb, hbreaks ha, ih, ihc]
  | lastLeftPipe h hb ha ih => simp [hbreaks hb, hbreaks ha, ih]
  | leftPipe h hb ha hc ih ihc => simp [hbreaks hb, hbreaks ha, ih, ihc]
  | scalar h => cases h <;> simp
  | emptyArray hb => simp [hbreaks hb]
  | array hb h ih => simp [hbreaks hb, ih]
  | emptyMap hb => simp [hbreaks hb]
  | map hb h ih => simp [hbreaks hb, ih]
  | lastItem h hb hc ih =>
    rcases hc with rfl | ⟨after, ha, rfl⟩
    · simp [hbreaks hb, ih]
    · simp [hbreaks hb, hbreaks ha, ih]
  | item h hb ha ht ih iht => simp [hbreaks hb, hbreaks ha, ih, iht]
  | lastMember hk hb ha h hr hc ih =>
    rcases hc with rfl | ⟨after, ha', rfl⟩
    · cases hk <;> simp [hbreaks hb, hbreaks ha, hbreaks hr, ih]
    · cases hk <;> simp [hbreaks hb, hbreaks ha, hbreaks hr, hbreaks ha', ih]
  | member hk hb ha h hr hr' he ih ihe =>
    cases hk <;> simp [hbreaks hb, hbreaks ha, hbreaks hr, hbreaks hr', ih, ihe]
  | bareCall name => simp
  | emptyCall name hb => simp [hbreaks hb]
  | fullCall name hb h hp ih => simp [hbreaks hb, ih]

theorem sound_terminator {closing : Token} {ts rest : Tokens}
    (h : terminator closing ts = .ok rest) :
    ∃ comma, (comma = [] ∨ comma = [.comma]) ∧ Consumes ts rest comma ∧
      (peek rest = .newline ∨ peek rest = .eof ∨ peek rest = closing) := by
  unfold terminator at h
  dsimp only at h
  split at h
  · rename_i hc
    split at h
    · rename_i hend
      cases h
      exact ⟨[.comma], .inr rfl, .token hc (by decide) .rfl, hend⟩
    · exact absurd h refuse_ne_ok
  · split at h
    · rename_i hend
      cases h
      exact ⟨[], .inl rfl, .rfl, hend⟩
    · exact absurd h refuse_ne_ok

private theorem statements_of_peek_eq {steps : Nat} {closing : Token} {ts rest : Tokens}
    {entries : List (Entry Tree)} (hc : closing ≠ .newline) (hp : peek ts = closing)
    (h : statements steps closing ts = .ok (entries, rest)) : entries = [] ∧ rest = ts := by
  cases steps with
  | zero => cases h
  | succ steps =>
    rw [statements, skipNewlines_of_peek_ne (by rw [hp]; exact hc), if_pos hp] at h
    cases h
    exact ⟨rfl, rfl⟩

private theorem sound_statements {steps : Nat} (ih : Sound steps) {closing : Token}
    {ts rest : Tokens} {entries : List (Entry Tree)} (hc : closing ≠ .newline)
    (h : statements (steps + 1) closing ts = .ok (entries, rest)) :
    ∃ us, Consumes ts rest us ∧ Derives (.body entries) us ∧ peek rest = closing := by
  rw [statements] at h
  obtain ⟨breaks, hb, hcb⟩ := consumes_skipNewlines ts
  dsimp only at h
  split at h
  · rename_i hend
    cases h
    exact ⟨breaks, hcb, .emptyBody hb, hend⟩
  split at h
  · cases h
  obtain ⟨⟨entry, ts₁⟩, hs, h⟩ := bind_eq_ok_iff.1 h
  obtain ⟨ts₂, ht, h⟩ := bind_eq_ok_iff.1 h
  obtain ⟨⟨others, ts₃⟩, ho, h⟩ := bind_eq_ok_iff.1 h
  cases h
  obtain ⟨first, hf, hdf⟩ := ih.statement hs
  obtain ⟨comma, hcomma, hcc, hp⟩ := sound_terminator ht
  by_cases hclose : peek ts₂ = closing
  · obtain ⟨rfl, rfl⟩ := statements_of_peek_eq hc hclose ho
    refine ⟨_, hcb.trans (hf.trans (hcc.trans .rfl)), ?_, hclose⟩
    exact .bodyCons hb hdf hcomma (.emptyBody (by simp [LineBreaks])) (.inl rfl)
  · obtain ⟨us, hu, hd, hend⟩ := ih.statements hc ho
    refine ⟨_, hcb.trans (hf.trans (hcc.trans hu)), .bodyCons hb hdf hcomma hd ?_, hend⟩
    -- The first token of what follows is the one at which the statement was allowed to end.
    cases us with
    | nil => exact .inl rfl
    | cons token tail =>
      obtain ⟨placed, ts₄, rfl, rfl, -⟩ := consumes_cons.1 hu
      rcases hp with hp | hp | hp
      · exact .inr (congrArg some hp)
      · exact absurd (List.mem_cons_self (a := placed.token))
          (by rw [show placed.token = .eof from hp] at hd ⊢; exact eof_not_mem_of_derives hd)
      · exact absurd hp hclose

theorem sound (steps : Nat) : Sound steps := by
  induction steps with
  | zero => exact sound_zero
  | succ steps ih =>
    exact {
      statements := sound_statements ih
      statement := sound_statement ih
      expression := sound_expression ih
      rightCalls := sound_rightCalls ih
      leftCalls := sound_leftCalls ih
      call := sound_call ih
      value := sound_value ih
      items := sound_items ih
      members := sound_members ih }

end ConfigDoc.Tree
