import ConfigDoc.Proofs.Tree.Soundness
import ConfigDoc.Tree.Reader

/-! The steps that reading is given are enough: every phrase but an empty one takes tokens, so
between two of them only a few steps are nested. -/

namespace ConfigDoc.Tree
open Grammar

variable {α β : Type}

def IsRefusal (e : Error) : Prop :=
  ∃ message line column hint code,
    e = .badSyntax message line column hint (some code) ∧ code ≠ Fault.endOfInput.code

def Exhausted (x : Except Error α) : Prop := ∃ e, x = .error e ∧ ¬ IsRefusal e

theorem not_exhausted_iff {x : Except Error α} :
    ¬ Exhausted x ↔ ∀ e, x = .error e → IsRefusal e := by
  simp [Exhausted]

theorem not_exhausted_ok (a : α) : ¬ Exhausted (.ok a : Except Error α) := nofun

theorem Fault.code_eq_endOfInput_iff {fault : Fault} :
    fault.code = Fault.endOfInput.code ↔ fault = .endOfInput := by
  cases fault with
  | unexpected expected got => cases expected <;> simp [Fault.code, Expectation.code]
  | _ => simp [Fault.code]

theorem isRefusal_report {fault : Fault} (ts : Tokens) :
    IsRefusal (report fault ts) ↔ fault ≠ .endOfInput := by
  have hcode {line column : Nat} : IsRefusal (.badSyntax fault.message line column fault.hint?
      (some fault.code)) ↔ fault ≠ .endOfInput := by
    rw [Ne, ← Fault.code_eq_endOfInput_iff]
    constructor
    · rintro ⟨_, _, _, _, _, he, hne⟩
      cases he
      exact hne
    · exact fun hne => ⟨_, _, _, _, _, rfl, hne⟩
  cases ts <;> exact hcode

theorem exhausted_report {fault : Fault} (ts : Tokens) :
    Exhausted (.error (report fault ts) : Except Error α) ↔ fault = .endOfInput := by
  simp [Exhausted, isRefusal_report]

theorem not_exhausted_refuse (expected : Expectation) (ts : Tokens) :
    ¬ Exhausted (refuse expected ts : Except Error α) := by
  rw [refuse, exhausted_report]
  simp

theorem Exhausted.bind {x : Except Error α} {f : α → Except Error β} (h : Exhausted x) :
    Exhausted (x >>= f) := by
  obtain ⟨e, rfl, he⟩ := h
  exact ⟨e, rfl, he⟩

theorem not_exhausted_bind {x : Except Error α} {f : α → Except Error β} (hx : ¬ Exhausted x)
    (hf : ∀ a, x = .ok a → ¬ Exhausted (f a)) : ¬ Exhausted (x >>= f) := by
  rintro ⟨e, h, he⟩
  rcases bind_eq_error_iff.1 h with h | ⟨a, ha, h⟩
  · exact hx ⟨e, h, he⟩
  · exact hf a ha ⟨e, h, he⟩

theorem not_exhausted_terminator (closing : Token) (ts : Tokens) :
    ¬ Exhausted (terminator closing ts) := by
  unfold terminator
  generalize (if peek ts = .comma then ts.tail else ts) = after
  dsimp only
  split
  · exact not_exhausted_ok _
  · exact not_exhausted_refuse _ _

theorem length_skipNewlines_le (ts : Tokens) : (skipNewlines ts).length ≤ ts.length :=
  (List.dropWhile_suffix _).length_le

theorem length_tail_lt {ts : Tokens} {token : Token} (h : peek ts = token) (he : token ≠ .eof) :
    ts.tail.length < ts.length := by
  cases ts with
  | nil => exact absurd h.symm he
  | cons placed tail => simp

theorem Consumes.length_eq {ts rest : Tokens} {us : List Token} (h : Consumes ts rest us) :
    ts.length = us.length + rest.length := by
  obtain ⟨front, rfl, rfl⟩ := h
  simp

theorem Consumes.length_le {ts rest : Tokens} {us : List Token} (h : Consumes ts rest us) :
    rest.length ≤ ts.length := by
  rw [h.length_eq]
  exact Nat.le_add_left _ _

/-- Only a body and the pipes behind a value can be empty. -/
theorem ne_nil_of_derives {phrase : Phrase} {us : List Token} (h : Derives phrase us) :
    us ≠ [] ∨ (∃ entries, phrase = .body entries) ∨ ∃ calls, phrase = .rightPipes calls := by
  induction h with
  | emptyBody | bodyCons => exact .inr (.inl ⟨_, rfl⟩)
  | noRightPipe | rightPipe => exact .inr (.inr ⟨_, rfl⟩)
  | callStatement _ ih | unpiped _ ih => exact .inl (by simpa using ih)
  | rightPiped _ _ _ ih _ | lastItem _ _ _ ih =>
    exact .inl (List.append_ne_nil_of_left_ne_nil (by simpa using ih) _)
  | leftPiped _ _ _ ih => exact .inl (List.append_ne_nil_of_right_ne_nil _ (by simpa using ih))
  | _ => exact .inl (by simp)

theorem Consumes.length_lt {ts rest : Tokens} {us : List Token} (h : Consumes ts rest us)
    (hn : us ≠ []) : rest.length < ts.length := by
  have := List.length_pos_iff.2 hn
  have := h.length_eq
  omega

theorem length_statement_lt {steps : Nat} {ts rest : Tokens} {entry : Entry Tree}
    (h : statement steps ts = .ok (entry, rest)) : rest.length < ts.length := by
  obtain ⟨us, hc, hd⟩ := (sound steps).statement h
  exact hc.length_lt (by simpa using ne_nil_of_derives hd)

theorem length_expression_lt {steps : Nat} {plain : Bool} {ts rest : Tokens} {tree : Tree}
    (h : expression steps plain ts = .ok (tree, rest)) : rest.length < ts.length := by
  obtain ⟨us, hc, hd, -⟩ := (sound steps).expression h
  exact hc.length_lt (by simpa using ne_nil_of_derives hd)

theorem length_leftCalls_lt {steps : Nat} {ts rest : Tokens} {calls : List (Call Tree)}
    (h : leftCalls steps ts = .ok (calls, rest)) : rest.length < ts.length := by
  obtain ⟨us, hc, hd⟩ := (sound steps).leftCalls h
  exact hc.length_lt (by simpa using ne_nil_of_derives hd)

theorem length_call_lt {steps : Nat} {ts rest : Tokens} {made : Call Tree}
    (h : call steps ts = .ok (made, rest)) : rest.length < ts.length := by
  obtain ⟨us, hc, hd⟩ := (sound steps).call h
  exact hc.length_lt (by simpa using ne_nil_of_derives hd)

theorem length_value_lt {steps : Nat} {plain : Bool} {ts rest : Tokens} {tree : Tree}
    (h : value steps plain ts = .ok (tree, rest)) : rest.length < ts.length := by
  obtain ⟨us, hc, hd, -⟩ := (sound steps).value h
  exact hc.length_lt (by simpa using ne_nil_of_derives hd)

theorem length_terminator_le {closing : Token} {ts rest : Tokens}
    (h : terminator closing ts = .ok rest) : rest.length ≤ ts.length := by
  obtain ⟨comma, -, hc, -⟩ := sound_terminator h
  exact hc.length_le

/-- The elements of an array, a map or a list of arguments, and `closing`. There may be none. -/
def enclosed (closing : Token) (elements : Tokens → Except Error (List α × Tokens)) (ts : Tokens) :
    Except Error (List α × Tokens) :=
  if peek ts = closing then .ok ([], ts.tail) else elements ts

def continued (closing : Token) (ending : Expectation)
    (others : Tokens → Except Error (List α × Tokens)) (first : α) (ts : Tokens) :
    Except Error (List α × Tokens) :=
  let ts := skipNewlines ts
  if peek ts = .comma then
    let ts := skipNewlines ts.tail
    if peek ts = closing then .ok ([first], ts.tail)
    else do
      let (others, ts) ← others ts
      pure (first :: others, ts)
  else if peek ts = closing then .ok ([first], ts.tail)
  else refuse ending ts

def member (steps : Nat) (plain : Bool) (ts : Tokens) : Except Error (Entry Tree × Tokens) :=
  match memberKey? (peek ts) with
  | none => refuse .mapKey ts
  | some key =>
    let ts := skipNewlines ts.tail
    if peek ts ≠ .colon then refuse .mapColon ts
    else do
      let (value, ts) ← expression steps plain (skipNewlines ts.tail)
      pure (⟨key, value⟩, ts)

theorem items_eq_continued (steps : Nat) (plain : Bool) (closing : Token) (ending : Expectation)
    (ts : Tokens) :
    items (steps + 1) plain closing ending ts = (do
      let (first, ts) ← expression steps plain ts
      continued closing ending (items steps plain closing ending) first ts) := by
  rw [items]
  rfl

theorem members_eq_continued (steps : Nat) (plain : Bool) (ts : Tokens) :
    members (steps + 1) plain ts = (do
      let (first, ts) ← member steps plain ts
      continued .rbrace .memberEnd (members steps plain) first ts) := by
  rw [members, member]
  cases memberKey? (peek ts) with
  | none => rfl
  | some key =>
    dsimp only
    split
    · rfl
    · cases expression steps plain (skipNewlines (skipNewlines ts.tail).tail) <;> rfl

theorem value_eq_enclosed (steps : Nat) (plain : Bool) (ts : Tokens) :
    value (steps + 1) plain ts =
      if peek ts = .lbracket then do
        let (trees, ts) ← enclosed .rbracket (items steps plain .rbracket .itemEnd)
          (skipNewlines ts.tail)
        pure (.array trees, ts)
      else if peek ts = .lbrace then do
        let (entries, ts) ← enclosed .rbrace (members steps plain) (skipNewlines ts.tail)
        pure (.map entries, ts)
      else
        match scalar? (peek ts) with
        | some tree => .ok (tree, ts.tail)
        | none => refuse .value ts := by
  rw [value, enclosed, enclosed]
  dsimp only
  split
  · split <;> rfl
  · split
    · split <;> rfl
    · rfl

theorem call_eq_enclosed (steps : Nat) (ts : Tokens) :
    call (steps + 1) ts =
      if peek ts = .atSign then
        match callName? (peek ts.tail) with
        | none => refuse .callName ts.tail
        | some name =>
          if peek ts.tail.tail = .lparen then do
            let (args, ts) ← enclosed .rparen (items steps true .rparen (.argumentEnd name))
              (skipNewlines ts.tail.tail.tail)
            pure (⟨name, args⟩, ts)
          else .ok (⟨name, []⟩, ts.tail.tail)
      else refuse .call ts := by
  rw [call, ite_not]
  dsimp only
  split
  · cases peek ts.tail with
    | ident name =>
      dsimp only [callName?, enclosed]
      split
      · split <;> rfl
      · rfl
    | _ => rfl
  · rfl

theorem length_tail_lt_of_key {ts : Tokens} {sort : Token → Option α} {a : α}
    (h : sort (peek ts) = some a) (he : sort .eof = none) : ts.tail.length < ts.length := by
  refine length_tail_lt rfl fun hp => ?_
  rw [hp, he] at h
  cases h

theorem length_member_lt {steps : Nat} {plain : Bool} {ts rest : Tokens} {entry : Entry Tree}
    (h : member steps plain ts = .ok (entry, rest)) : rest.length < ts.length := by
  unfold member at h
  split at h
  · exact absurd h refuse_ne_ok
  · rename_i key hk
    dsimp only at h
    split at h
    · exact absurd h refuse_ne_ok
    · obtain ⟨⟨tree, rest'⟩, hv, h⟩ := bind_eq_ok_iff.1 h
      cases h
      dsimp only
      have := length_tail_lt_of_key hk rfl
      have := length_skipNewlines_le ts.tail
      have := length_skipNewlines_le (skipNewlines ts.tail).tail
      have := (skipNewlines ts.tail).length_tail
      have := length_expression_lt hv
      omega

/-! ### Enough steps -/

theorem not_exhausted_enclosed {closing : Token}
    {elements : Tokens → Except Error (List α × Tokens)} {ts : Tokens}
    (he : ¬ Exhausted (elements ts)) : ¬ Exhausted (enclosed closing elements ts) := by
  unfold enclosed
  split
  · exact not_exhausted_ok _
  · exact he

theorem not_exhausted_continued {closing : Token} {ending : Expectation} {first : α}
    {others : Tokens → Except Error (List α × Tokens)} {ts : Tokens}
    (ho : ∀ rest : Tokens, rest.length ≤ ts.length → ¬ Exhausted (others rest)) :
    ¬ Exhausted (continued closing ending others first ts) := by
  have := length_skipNewlines_le ts
  have := (skipNewlines ts).length_tail
  have := length_skipNewlines_le (skipNewlines ts).tail
  unfold continued
  dsimp only
  split
  · split
    · exact not_exhausted_ok _
    · exact not_exhausted_bind (ho _ (by omega)) fun _ _ => not_exhausted_ok _
  split
  · exact not_exhausted_ok _
  · exact not_exhausted_refuse _ _

structure Enough (steps : Nat) : Prop where
  statements {closing : Token} {ts : Tokens} (hs : 4 * ts.length + 4 ≤ steps) :
    ¬ Exhausted (statements steps closing ts)
  statement {ts : Tokens} (hs : 4 * ts.length + 3 ≤ steps) : ¬ Exhausted (statement steps ts)
  expression {plain : Bool} {ts : Tokens} (hs : 4 * ts.length + 3 ≤ steps) :
    ¬ Exhausted (expression steps plain ts)
  rightCalls {ts : Tokens} (hs : 4 * ts.length + 2 ≤ steps) : ¬ Exhausted (rightCalls steps ts)
  leftCalls {ts : Tokens} (hs : 4 * ts.length + 2 ≤ steps) : ¬ Exhausted (leftCalls steps ts)
  call {ts : Tokens} (hs : 4 * ts.length + 1 ≤ steps) : ¬ Exhausted (call steps ts)
  value {plain : Bool} {ts : Tokens} (hs : 4 * ts.length + 1 ≤ steps) :
    ¬ Exhausted (value steps plain ts)
  items {plain : Bool} {closing : Token} {ending : Expectation} {ts : Tokens}
    (hs : 4 * ts.length + 4 ≤ steps) : ¬ Exhausted (items steps plain closing ending ts)
  members {plain : Bool} {ts : Tokens} (hs : 4 * ts.length + 4 ≤ steps) :
    ¬ Exhausted (members steps plain ts)

section
variable {steps : Nat} (ih : Enough steps)
include ih

private theorem enough_statements {closing : Token} {ts : Tokens}
    (hs : 4 * ts.length + 4 ≤ steps + 1) : ¬ Exhausted (statements (steps + 1) closing ts) := by
  rw [statements]
  have hskip := length_skipNewlines_le ts
  dsimp only
  split
  · exact not_exhausted_ok _
  split
  · exact mt (exhausted_report _).1 (by simp)
  refine not_exhausted_bind (ih.statement (by omega)) ?_
  rintro ⟨entry, ts₁⟩ h₁
  refine not_exhausted_bind (not_exhausted_terminator _ _) fun ts₂ h₂ => ?_
  dsimp only at h₂
  have := length_statement_lt h₁
  have := length_terminator_le h₂
  exact not_exhausted_bind (ih.statements (by omega)) fun _ _ => not_exhausted_ok _

private theorem enough_statement {ts : Tokens} (hs : 4 * ts.length + 3 ≤ steps + 1) :
    ¬ Exhausted (statement (steps + 1) ts) := by
  rw [statement]
  split
  · exact not_exhausted_bind (ih.call (by omega)) fun _ _ => not_exhausted_ok _
  split
  · exact not_exhausted_refuse _ _
  rename_i key hk
  have hkey := length_tail_lt_of_key hk rfl
  have htail := ts.tail.length_tail
  dsimp only
  split
  · have := length_skipNewlines_le ts.tail.tail
    exact not_exhausted_bind (ih.expression (by omega)) fun _ _ => not_exhausted_ok _
  split
  · rename_i hb
    have := length_tail_lt hb (by decide)
    exact not_exhausted_bind (ih.statements (by omega)) fun _ _ => not_exhausted_ok _
  · exact not_exhausted_refuse _ _

private theorem enough_expression {plain : Bool} {ts : Tokens}
    (hs : 4 * ts.length + 3 ≤ steps + 1) : ¬ Exhausted (expression (steps + 1) plain ts) := by
  rw [expression]
  split
  · split
    · exact not_exhausted_refuse _ _
    · refine not_exhausted_bind (ih.value (by omega)) fun _ _ => ?_
      dsimp only
      split
      · exact not_exhausted_refuse _ _
      · exact not_exhausted_ok _
  split
  · refine not_exhausted_bind (ih.leftCalls (by omega)) ?_
    rintro ⟨calls, ts₁⟩ h₁
    have := length_leftCalls_lt h₁
    refine not_exhausted_bind (ih.value (by omega)) fun _ _ => ?_
    dsimp only
    split
    · exact not_exhausted_refuse _ _
    · exact not_exhausted_ok _
  · refine not_exhausted_bind (ih.value (by omega)) ?_
    rintro ⟨raw, ts₁⟩ h₁
    have := length_value_lt h₁
    refine not_exhausted_bind (ih.rightCalls (by omega)) fun _ _ => ?_
    dsimp only
    split
    · exact not_exhausted_refuse _ _
    · exact not_exhausted_ok _

private theorem enough_rightCalls {ts : Tokens} (hs : 4 * ts.length + 2 ≤ steps + 1) :
    ¬ Exhausted (rightCalls (steps + 1) ts) := by
  rw [rightCalls]
  split
  · rename_i hp
    have := length_skipNewlines_le ts
    have := length_tail_lt hp (by decide)
    have := length_skipNewlines_le (skipNewlines ts).tail
    refine not_exhausted_bind (ih.call (by omega)) ?_
    rintro ⟨first, ts₁⟩ h₁
    have := length_call_lt h₁
    exact not_exhausted_bind (ih.rightCalls (by omega)) fun _ _ => not_exhausted_ok _
  · exact not_exhausted_ok _

private theorem enough_leftCalls {ts : Tokens} (hs : 4 * ts.length + 2 ≤ steps + 1) :
    ¬ Exhausted (leftCalls (steps + 1) ts) := by
  rw [leftCalls]
  refine not_exhausted_bind (ih.call (by omega)) ?_
  rintro ⟨first, ts₁⟩ h₁
  have := length_call_lt h₁
  dsimp only
  split
  · exact not_exhausted_refuse _ _
  have := length_skipNewlines_le ts₁
  have := (skipNewlines ts₁).length_tail
  have := length_skipNewlines_le (skipNewlines ts₁).tail
  split
  · exact not_exhausted_bind (ih.leftCalls (by omega)) fun _ _ => not_exhausted_ok _
  · exact not_exhausted_ok _

private theorem enough_call {ts : Tokens} (hs : 4 * ts.length + 1 ≤ steps + 1) :
    ¬ Exhausted (call (steps + 1) ts) := by
  rw [call_eq_enclosed]
  split
  · rename_i hat
    have := length_tail_lt hat (by decide)
    split
    · exact not_exhausted_refuse _ _
    split
    · have := ts.tail.length_tail
      have := ts.tail.tail.length_tail
      have := length_skipNewlines_le ts.tail.tail.tail
      exact not_exhausted_bind (not_exhausted_enclosed (ih.items (by omega)))
        fun _ _ => not_exhausted_ok _
    · exact not_exhausted_ok _
  · exact not_exhausted_refuse _ _

private theorem enough_value {plain : Bool} {ts : Tokens} (hs : 4 * ts.length + 1 ≤ steps + 1) :
    ¬ Exhausted (value (steps + 1) plain ts) := by
  rw [value_eq_enclosed]
  have := length_skipNewlines_le ts.tail
  split
  · rename_i hl
    have := length_tail_lt hl (by decide)
    exact not_exhausted_bind (not_exhausted_enclosed (ih.items (by omega)))
      fun _ _ => not_exhausted_ok _
  split
  · rename_i hl
    have := length_tail_lt hl (by decide)
    exact not_exhausted_bind (not_exhausted_enclosed (ih.members (by omega)))
      fun _ _ => not_exhausted_ok _
  split
  · exact not_exhausted_ok _
  · exact not_exhausted_refuse _ _

private theorem enough_items {plain : Bool} {closing : Token} {ending : Expectation} {ts : Tokens}
    (hs : 4 * ts.length + 4 ≤ steps + 1) :
    ¬ Exhausted (items (steps + 1) plain closing ending ts) := by
  rw [items_eq_continued]
  refine not_exhausted_bind (ih.expression (by omega)) ?_
  rintro ⟨first, ts₁⟩ h₁
  have := length_expression_lt h₁
  exact not_exhausted_continued fun rest hr => ih.items (by omega)

private theorem enough_member {plain : Bool} {ts : Tokens} (hs : 4 * ts.length + 3 ≤ steps) :
    ¬ Exhausted (member steps plain ts) := by
  unfold member
  split
  · exact not_exhausted_refuse _ _
  have := ts.length_tail
  have := length_skipNewlines_le ts.tail
  have := (skipNewlines ts.tail).length_tail
  have := length_skipNewlines_le (skipNewlines ts.tail).tail
  dsimp only
  split
  · exact not_exhausted_refuse _ _
  · exact not_exhausted_bind (ih.expression (by omega)) fun _ _ => not_exhausted_ok _

private theorem enough_members {plain : Bool} {ts : Tokens} (hs : 4 * ts.length + 4 ≤ steps + 1) :
    ¬ Exhausted (members (steps + 1) plain ts) := by
  rw [members_eq_continued]
  refine not_exhausted_bind (enough_member ih (by omega)) ?_
  rintro ⟨first, ts₁⟩ h₁
  have := length_member_lt h₁
  exact not_exhausted_continued fun rest hr => ih.members (by omega)

end

theorem enough (steps : Nat) : Enough steps := by
  induction steps with
  | zero => constructor <;> intros <;> omega
  | succ steps ih =>
    exact {
      statements := enough_statements ih
      statement := enough_statement ih
      expression := enough_expression ih
      rightCalls := enough_rightCalls ih
      leftCalls := enough_leftCalls ih
      call := enough_call ih
      value := enough_value ih
      items := enough_items ih
      members := enough_members ih }

theorem not_exhausted_member {steps : Nat} {plain : Bool} {ts : Tokens}
    (hs : 4 * ts.length + 3 ≤ steps) : ¬ Exhausted (member steps plain ts) :=
  enough_member (enough steps) hs

/-- The steps that a list of tokens is given are enough for it. -/
theorem not_exhausted_ofTokens (ts : Tokens) : ¬ Exhausted (ofTokens ts) :=
  not_exhausted_bind ((enough _).statements (Nat.le_refl _)) fun _ _ => not_exhausted_ok _

end ConfigDoc.Tree
