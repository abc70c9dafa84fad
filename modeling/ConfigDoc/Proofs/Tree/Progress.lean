import ConfigDoc.Proofs.Tree.Following

/-! Reading with a cursor comes to an end, in a tree or a syntax error, for every text. -/

namespace ConfigDoc.Tree.Reader

def plain (r : Reader) : Bool := decide (0 < r.depth)

theorem Moved.plain {r r' : Reader} (h : r.Moved r') : r'.plain = r.plain := by
  rw [Reader.plain, Reader.plain, h.depth]

/-- Each reading follows its function with so many steps when it has so many rounds. Blocks stand in
no argument list. -/
structure Simulates (steps rounds : Nat) : Prop where
  statements {closing : Token} {r : Reader} (h : r.Ready) (hd : r.depth = 0) :
    Follows (statements rounds closing) (Tree.statements steps closing r.ahead) r
  statement {r : Reader} (h : r.Ready) (hd : r.depth = 0) :
    Follows (statement rounds) (Tree.statement steps r.ahead) r
  expression {r : Reader} (h : r.Ready) :
    Follows (expression rounds) (Tree.expression steps r.plain r.ahead) r
  rightCalls {r : Reader} (h : r.Ready) :
    Follows (rightCalls rounds) (Tree.rightCalls steps r.ahead) r
  leftCalls {r : Reader} (h : r.Ready) :
    Follows (leftCalls rounds) (Tree.leftCalls steps r.ahead) r
  call {r : Reader} (h : r.Ready) : Follows (call rounds) (Tree.call steps r.ahead) r
  value {r : Reader} (h : r.Ready) : Follows (value rounds) (Tree.value steps r.plain r.ahead) r
  items {closing : Token} {ending : Expectation} {r : Reader} (h : r.Ready)
    (hc : closing ≠ .eof) :
    Follows (items rounds closing ending) (Tree.items steps r.plain closing ending r.ahead) r
  members {r : Reader} (h : r.Ready) :
    Follows (members rounds) (Tree.members steps r.plain r.ahead) r

theorem simulates_zero (rounds : Nat) : Simulates 0 rounds := by
  constructor <;> intros <;> exact .inl ((exhausted_report _).2 rfl)

section
variable {steps rounds : Nat} (ih : Simulates steps rounds) {r : Reader} (h : r.Ready)
include ih h

theorem follows_statements (hd : r.depth = 0) (closing : Token) :
    Follows (statements (rounds + 1) closing) (Tree.statements (steps + 1) closing r.ahead) r := by
  rw [statements, Tree.statements]
  refine .skip h fun r₁ hm₁ ha₁ => ?_
  rw [← ha₁]
  refine .peek hm₁.ready ?_
  dsimp only
  split
  · exact .pure hm₁.ready _
  split
  · exact .fail hm₁.ready _
  refine (ih.statement hm₁.ready (hm₁.depth.trans hd)).bind fun entry r₂ _ hm₂ => ?_
  refine .terminator hm₂.ready fun r₃ _ hm₃ => ?_
  have hd₃ := ((hm₁.trans hm₂).trans hm₃).depth.trans hd
  refine (ih.statements hm₃.ready hd₃).bind fun entries r₄ _ hm₄ => ?_
  exact .pure hm₄.ready _

theorem follows_statement (hd : r.depth = 0) :
    Follows (statement (rounds + 1)) (Tree.statement (steps + 1) r.ahead) r := by
  rw [statement, Tree.statement]
  refine .peek h ?_
  split
  · exact (ih.call h).bind fun call r₁ _ hm₁ => .pure hm₁.ready _
  cases hk : statementKey? (Tree.peek r.ahead) with
  | none => exact .refuse h _
  | some key =>
    refine .takeAs h hk rfl fun r₁ hm₁ ha₁ => ?_
    rw [← ha₁]
    refine .peek hm₁.ready ?_
    dsimp only
    split
    · rename_i he
      refine .bump hm₁.ready he (by decide) fun _ r₂ hm₂ ha₂ => ?_
      refine .skip hm₂.ready fun r₃ hm₃ ha₃ => ?_
      rw [← ha₂, ← ha₃]
      have hplain : r₃.plain = false := by
        rw [Reader.plain, ((hm₁.trans hm₂).trans hm₃).depth, hd]
        rfl
      rw [← hplain]
      exact (ih.expression hm₃.ready).bind fun value r₄ _ hm₄ => .pure hm₄.ready _
    split
    · rename_i hl
      refine .bump hm₁.ready hl (by decide) fun _ r₂ hm₂ ha₂ => ?_
      rw [← ha₂]
      refine (ih.statements hm₂.ready ((hm₁.trans hm₂).depth.trans hd)).bind
        fun entries r₃ hx hm₃ => ?_
      obtain ⟨us, -, -, hend⟩ := (sound steps).statements (by decide) hx
      refine .expect hm₃.ready hend (by decide) fun _ r₄ hm₄ ha₄ => ?_
      rw [← ha₄]
      exact .pure hm₄.ready _
    · exact .refuse hm₁.ready _

theorem follows_argument (hp : r.plain = true) :
    Follows (argument (value rounds)) (Tree.expression (steps + 1) true r.ahead) r := by
  rw [argument, Tree.expression, if_pos rfl]
  refine .peek h ?_
  split
  · exact .refuse h _
  rw [← hp]
  refine (ih.value h).bind fun value r₁ _ hm₁ => ?_
  refine .peekPast hm₁.ready ?_
  dsimp only
  split
  · exact .refuse hm₁.ready _
  · exact .pure hm₁.ready _

theorem follows_expression :
    Follows (expression (rounds + 1)) (Tree.expression (steps + 1) r.plain r.ahead) r := by
  rw [expression]
  refine .after (on_get r) h.moved ?_
  split
  · rename_i hd
    have hp : r.plain = true := decide_eq_true hd
    rw [hp]
    exact follows_argument ih h hp
  rename_i hd
  rw [Tree.expression, if_neg (by simpa [plain] using hd)]
  refine .peek h ?_
  split
  · refine (ih.leftCalls h).bind fun calls r₁ _ hm₁ => ?_
    rw [← hm₁.plain]
    refine (ih.value hm₁.ready).bind fun raw r₂ _ hm₂ => ?_
    refine .peekPast hm₂.ready ?_
    dsimp only
    split
    · exact .refuse hm₂.ready _
    · exact .pure hm₂.ready _
  · refine (ih.value h).bind fun raw r₁ _ hm₁ => ?_
    refine (ih.rightCalls hm₁.ready).bind fun calls r₂ _ hm₂ => ?_
    refine .peekPast hm₂.ready ?_
    dsimp only
    split
    · exact .refuse hm₂.ready _
    · exact .pure hm₂.ready _

theorem follows_rightCalls :
    Follows (rightCalls (rounds + 1)) (Tree.rightCalls (steps + 1) r.ahead) r := by
  rw [rightCalls, Tree.rightCalls]
  refine .peekPast h ?_
  split
  · rename_i hp
    refine .skip h fun r₁ hm₁ ha₁ => ?_
    rw [Tree.peekPast, ← ha₁] at hp
    refine .bump hm₁.ready hp (by decide) fun _ r₂ hm₂ ha₂ => ?_
    refine .skip hm₂.ready fun r₃ hm₃ ha₃ => ?_
    rw [← ha₁, ← ha₂, ← ha₃]
    refine (ih.call hm₃.ready).bind fun first r₄ _ hm₄ => ?_
    exact (ih.rightCalls hm₄.ready).bind fun others r₅ _ hm₅ => .pure hm₅.ready _
  · exact .pure h _

theorem follows_leftCalls :
    Follows (leftCalls (rounds + 1)) (Tree.leftCalls (steps + 1) r.ahead) r := by
  rw [leftCalls, Tree.leftCalls]
  refine (ih.call h).bind fun first r₁ _ hm₁ => ?_
  refine .peekPast hm₁.ready ?_
  dsimp only
  rw [ite_not]
  split
  · rename_i hp
    refine .skip hm₁.ready fun r₂ hm₂ ha₂ => ?_
    rw [Tree.peekPast, ← ha₂] at hp
    refine .bump hm₂.ready hp (by decide) fun _ r₃ hm₃ ha₃ => ?_
    refine .skip hm₃.ready fun r₄ hm₄ ha₄ => ?_
    rw [← ha₂, ← ha₃, ← ha₄]
    refine .peek hm₄.ready ?_
    split
    · exact (ih.leftCalls hm₄.ready).bind fun others r₅ _ hm₅ => .pure hm₅.ready _
    · exact .pure hm₄.ready _
  · exact .refuse hm₁.ready _

theorem follows_items {closing : Token} (ending : Expectation) (hc : closing ≠ .eof) :
    Follows (items (rounds + 1) closing ending)
      (Tree.items (steps + 1) r.plain closing ending r.ahead) r := by
  rw [items, items_eq_continued]
  refine (ih.expression h).bind fun first r₁ _ hm₁ => ?_
  refine follows_continued ending first hm₁.ready hc fun r₂ hm₂ => ?_
  rw [← hm₁.plain, ← hm₂.plain]
  exact ih.items hm₂.ready hc

theorem follows_member :
    Follows (member (expression rounds)) (Tree.member steps r.plain r.ahead) r := by
  rw [member, Tree.member]
  refine .peek h ?_
  cases hk : memberKey? (Tree.peek r.ahead) with
  | none => exact .refuse h _
  | some key =>
    refine .takeAs h hk rfl fun r₁ hm₁ ha₁ => ?_
    refine .skip hm₁.ready fun r₂ hm₂ ha₂ => ?_
    dsimp only
    rw [← ha₁, ← ha₂, ite_not]
    split
    · rename_i hcolon
      refine .expect hm₂.ready hcolon (by decide) fun _ r₃ hm₃ ha₃ => ?_
      refine .skip hm₃.ready fun r₄ hm₄ ha₄ => ?_
      rw [← ha₃, ← ha₄, ← hm₁.plain, ← hm₂.plain, ← hm₃.plain, ← hm₄.plain]
      exact (ih.expression hm₄.ready).bind fun value r₅ _ hm₅ => .pure hm₅.ready _
    · rename_i hcolon
      exact .unexpected hm₂.ready rfl hcolon

theorem follows_members :
    Follows (members (rounds + 1)) (Tree.members (steps + 1) r.plain r.ahead) r := by
  rw [members, members_eq_continued]
  refine (follows_member ih h).bind fun first r₁ _ hm₁ => ?_
  refine follows_continued .memberEnd first hm₁.ready (by decide) fun r₂ hm₂ => ?_
  rw [← hm₁.plain, ← hm₂.plain]
  exact ih.members hm₂.ready

theorem follows_value :
    Follows (value (rounds + 1)) (Tree.value (steps + 1) r.plain r.ahead) r := by
  rw [value, value_eq_enclosed]
  refine .peek h ?_
  split
  · rename_i hl
    refine .bump h hl (by decide) fun _ r₁ hm₁ ha₁ => ?_
    refine .skip hm₁.ready fun r₂ hm₂ ha₂ => ?_
    rw [← ha₁, ← ha₂, ← hm₁.plain, ← hm₂.plain]
    exact (follows_enclosed hm₂.ready (by decide) (ih.items hm₂.ready (by decide))).bind
      fun trees r₃ _ hm₃ => .pure hm₃.ready _
  split
  · rename_i hl
    refine .bump h hl (by decide) fun _ r₁ hm₁ ha₁ => ?_
    refine .skip hm₁.ready fun r₂ hm₂ ha₂ => ?_
    rw [← ha₁, ← ha₂, ← hm₁.plain, ← hm₂.plain]
    exact (follows_enclosed hm₂.ready (by decide) (ih.members hm₂.ready)).bind
      fun entries r₃ _ hm₃ => .pure hm₃.ready _
  cases hs : scalar? (Tree.peek r.ahead) with
  | none => exact .refuse h _
  | some tree =>
    obtain ⟨r₁, ht, hm₁, ha₁⟩ := on_takeAs h hs rfl
    exact .ok ht hm₁ ha₁

theorem follows_call : Follows (call (rounds + 1)) (Tree.call (steps + 1) r.ahead) r := by
  rw [call, call_eq_enclosed]
  split
  · rename_i hat
    refine .expect h hat (by decide) fun _ r₁ hm₁ ha₁ => ?_
    refine .peek hm₁.ready ?_
    rw [← ha₁]
    cases hn : callName? (Tree.peek r₁.ahead) with
    | none => exact .refuse hm₁.ready _
    | some name =>
      refine .takeAs hm₁.ready hn rfl fun r₂ hm₂ ha₂ => ?_
      refine .peek hm₂.ready ?_
      dsimp only
      rw [← ha₂]
      split
      · rename_i hl
        refine .bump hm₂.ready hl (by decide) fun _ r₃ hm₃ ha₃ => ?_
        refine .skip hm₃.ready fun r₄ hm₄ ha₄ => ?_
        rw [← ha₃, ← ha₄]
        -- In the list of arguments, which is open from here on, values are plain.
        have hready : r₄.deepen.Ready := ⟨hm₄.ready.inside, hm₄.ready.closed⟩
        have hplain : r₄.deepen.plain = true := decide_eq_true (Nat.succ_pos _)
        have hargs : Follows (items rounds .rparen (.argumentEnd name))
            (Tree.items steps r₄.deepen.plain .rparen (.argumentEnd name) r₄.ahead) r₄.deepen :=
          ih.items hready (by decide)
        rw [hplain] at hargs
        exact (follows_enclosed hready (by decide) hargs).deeper.bind
          fun args r₅ _ hm₅ => .pure hm₅.ready _
      · exact .pure hm₂.ready _
  · rename_i hat
    exact .unexpected h rfl hat

end

theorem simulates {steps rounds : Nat} (hr : steps ≤ rounds) : Simulates steps rounds := by
  induction steps generalizing rounds with
  | zero => exact simulates_zero rounds
  | succ steps ih =>
    obtain ⟨rounds, rfl⟩ := Nat.exists_eq_add_of_lt hr
    replace ih : Simulates steps (steps + rounds) := ih (Nat.le_add_right _ _)
    exact {
      statements := fun h hd => follows_statements ih h hd _
      statement := follows_statement ih
      expression := follows_expression ih
      rightCalls := follows_rightCalls ih
      leftCalls := follows_leftCalls ih
      call := follows_call ih
      value := follows_value ih
      items := fun h hc => follows_items ih h _ hc
      members := follows_members ih }

/-- A reading comes to an end, further on if it succeeds and in a refusal if not. In both cases the
reader is at a token, and as many argument lists are open as before. -/
def Advances {α : Type} (reading : Reading α) (r : Reader) : Prop :=
  ∃ out r', reading.on r = some (out, r') ∧ r.Moved r' ∧
    ((∃ a, out = .ok a) ∧ r.position < r'.position ∨
      ∃ e, out = .error (.refused e) ∧ IsRefusal e)

theorem Follows.advances {α : Type} {reading : Reading α} {x : Except Error (α × Tokens)}
    {r : Reader} (h : Follows reading x r) (hx : ¬ Exhausted x)
    (hl : ∀ a rest, x = .ok (a, rest) → rest.length < r.ahead.length) : Advances reading r := by
  have hends := h.resolve_left hx
  generalize hout : reading.on r = out at hends
  cases hends with
  | @ok a r' hm => exact ⟨_, r', hout, hm, .inl ⟨⟨a, rfl⟩, hm.position_lt (hl a _ rfl)⟩⟩
  | @error e r' hm => exact ⟨_, r', hout, hm, .inr ⟨e, rfl, not_exhausted_iff.1 hx e rfl⟩⟩

section
variable {rounds : Nat} {r : Reader} (h : r.Ready) (hr : 4 * r.ahead.length + 4 ≤ rounds)
include h hr

theorem advances_statement (hd : r.depth = 0) : Advances (statement rounds) r :=
  ((simulates hr).statement h hd).advances ((enough _).statement (Nat.le_succ _))
    fun _ _ => length_statement_lt

theorem advances_expression : Advances (expression rounds) r :=
  ((simulates hr).expression h).advances ((enough _).expression (Nat.le_succ _))
    fun _ _ => length_expression_lt

theorem advances_member : Advances (member (expression rounds)) r :=
  (follows_member (simulates hr) h).advances (not_exhausted_member (Nat.le_succ _))
    fun _ _ => length_member_lt

theorem advances_call : Advances (call rounds) r :=
  ((simulates hr).call h).advances ((enough _).call (by omega)) fun _ _ => length_call_lt

end

/-- A document is read with the outcome that its tokens are given. -/
theorem on_document {ts : Tokens} {rounds : Nat} (h : (start ts).Ready)
    (hr : 4 * ts.length + 4 ≤ rounds) :
    ∃ r', (document rounds).on (start ts) = some ((ofTokens ts).mapError .refused, r') ∧
      (start ts).Moved r' := by
  have hf : Follows (statements rounds .eof) (Tree.statements (4 * ts.length + 4) .eof ts)
      (start ts) := (simulates hr).statements h rfl
  have hends := hf.resolve_left ((enough _).statements (Nat.le_refl _))
  rw [document, ofTokens]
  generalize Tree.statements (4 * ts.length + 4) .eof ts = x at hends ⊢
  generalize hout : (statements rounds .eof).on (start ts) = out at hends
  cases hends with
  | @ok entries r' hm => exact ⟨r', on_bind_of_ok hout, hm⟩
  | @error e r' hm => exact ⟨r', on_bind_of_error hout, hm⟩

/-- The last token of a text is the end of the input, and every other one takes at least a
character. -/
theorem closed_of_tokens {cursor : Token.Cursor} {ts : Tokens} (h : cursor.tokens = .ok ts) :
    ts.getLast?.map Token.Placed.token = some .eof ∧ ts.length ≤ cursor.rest.length + 1 := by
  induction cursor using Token.Cursor.tokens.induct generalizing ts with
  | case1 cursor hend =>
    rw [Token.Cursor.tokens, dif_pos hend, Token.Cursor.next_of_skip_eq_nil hend] at h
    cases h
    exact ⟨rfl, Nat.le_add_left _ _⟩
  | case2 cursor hend ih =>
    rw [Token.Cursor.tokens, dif_neg hend] at h
    obtain ⟨first, -, h⟩ := bind_eq_ok_iff.1 h
    obtain ⟨others, ho, h⟩ := bind_eq_ok_iff.1 h
    cases h
    obtain ⟨hlast, hle⟩ := ih ho
    have hlt := Token.Cursor.length_next_lt hend
    constructor
    · cases others with
      | nil => cases hlast
      | cons second rest => rwa [List.getLast?_cons_cons]
    · rw [List.length_cons]
      omega

theorem isRefusal_of_next {cursor : Token.Cursor} {e : Error} (h : cursor.next.1 = .error e) :
    IsRefusal e := by
  unfold Token.Cursor.next at h
  dsimp only at h
  split at h
  · cases h
  · split at h <;> cases h
    rename_i fault _
    exact ⟨_, _, _, _, _, rfl, by cases fault <;> simp [Token.Fault.code, Fault.code]⟩

theorem isRefusal_of_tokens {cursor : Token.Cursor} {e : Error} (h : cursor.tokens = .error e) :
    IsRefusal e := by
  induction cursor using Token.Cursor.tokens.induct with
  | case1 cursor hend =>
    rw [Token.Cursor.tokens, dif_pos hend, Token.Cursor.next_of_skip_eq_nil hend] at h
    cases h
  | case2 cursor hend ih =>
    rw [Token.Cursor.tokens, dif_neg hend] at h
    rcases bind_eq_error_iff.1 h with h | ⟨first, -, h⟩
    · exact isRefusal_of_next h
    · rcases bind_eq_error_iff.1 h with h | ⟨others, -, h⟩
      · exact ih h
      · cases h

theorem ready_start {text : String} {ts : Tokens} (h : Token.tokenize text = .ok ts) :
    (start ts).Ready := by
  have hclosed := (closed_of_tokens h).1
  refine ⟨List.length_pos_iff.2 ?_, hclosed⟩
  rintro rfl
  cases hclosed

theorem isRefusal_of_ofText {text : String} {e : Error} (h : Tree.ofText text = .error e) :
    IsRefusal e := by
  rcases bind_eq_error_iff.1 h with h | ⟨ts, -, h⟩
  · exact isRefusal_of_tokens h
  · exact not_exhausted_iff.1 (not_exhausted_ofTokens ts) e h

section
variable {text : String} {rounds : Nat} (hr : 4 * text.length + 8 ≤ rounds)
include hr

theorem rounds_suffice {ts : Tokens} (h : Token.tokenize text = .ok ts) :
    4 * ts.length + 4 ≤ rounds := by
  have hle : ts.length ≤ text.toList.length + 1 := (closed_of_tokens h).2
  rw [String.length_toList] at hle
  omega

theorem ofText_eq : ofText rounds text = some ((Tree.ofText text).mapError .refused) := by
  rw [ofText, Tree.ofText]
  cases h : Token.tokenize text with
  | error e => rfl
  | ok ts =>
    obtain ⟨r', hd, -⟩ := on_document (ready_start h) (rounds_suffice hr h)
    dsimp only
    rw [hd]
    rfl

end

/-- Every text is read to an end in a number of rounds that its length gives, and more rounds change
nothing: with the tree or the refusal that it is given by steps, and with a reader that is not past
the end of the input and has no argument list open. From wherever there is a token in front, taking
one succeeds, line breaks are skipped and looked past in finitely many rounds, and a statement, a
value, a member of a map or a call takes tokens or refuses one; then as many argument lists are open
as before. No token is of another sort when it is taken, and the tokens never run out. -/
theorem reading_ends :
    (∀ text rounds, 4 * text.length + 8 ≤ rounds →
      ofText rounds text = some ((Tree.ofText text).mapError .refused) ∧
      (∀ e, Tree.ofText text = .error e → IsRefusal e) ∧
      ∀ ts, Token.tokenize text = .ok ts → (start ts).Ready ∧
        ∃ out r', (document rounds).on (start ts) = some (out, r') ∧ (start ts).Moved r') ∧
    ∀ (r : Reader) (rounds : Nat), r.Ready → 4 * r.ahead.length + 4 ≤ rounds →
      (∃ placed r', bump.on r = some (.ok placed, r') ∧ r.Moved r') ∧
      (∃ r', skip.on r = some (.ok (), r') ∧ r.Moved r') ∧
      (∃ token, peekPast.on r = some (.ok token, r)) ∧
      (r.depth = 0 → Advances (statement rounds) r) ∧ Advances (expression rounds) r ∧
      Advances (member (expression rounds)) r ∧ Advances (call rounds) r := by
  constructor
  · intro text rounds hr
    refine ⟨ofText_eq hr, fun e he => isRefusal_of_ofText he, fun ts hts => ?_⟩
    have hready := ready_start hts
    obtain ⟨r', hd, hm⟩ := on_document hready (rounds_suffice hr hts)
    exact ⟨hready, _, r', hd, hm⟩
  · intro r rounds h hr
    obtain ⟨placed, hp, hb⟩ := on_bump h
    have hbump : r.Moved
        (if placed.token = .eof then r else { r with position := r.position + 1 }) := by
      split
      · exact h.moved
      · rename_i hne
        exact h.moved_succ (hp ▸ hne)
    obtain ⟨r', hs, hm, -⟩ := on_skip h
    exact ⟨⟨placed, _, hb, hbump⟩, ⟨r', hs, hm⟩, ⟨_, on_peekPast h⟩, advances_statement h hr,
      advances_expression h hr, advances_member h hr, advances_call h hr⟩

/-- A call whose argument list is left open. -/
theorem reading_ends_openCall :
    let r := start [⟨.atSign, 1, 1⟩, ⟨.ident "a", 1, 2⟩, ⟨.lparen, 1, 3⟩, ⟨.eof, 1, 4⟩]
    4 * "@a(".length + 8 ≤ 20 ∧
      ofText 20 "@a(" = some ((Tree.ofText "@a(").mapError .refused) ∧
      r.Ready ∧ 4 * r.ahead.length + 4 ≤ 20 ∧ Advances (call 20) r := by
  intro r
  have ht : 4 * "@a(".length + 8 ≤ 20 := by decide
  have h : r.Ready := ⟨by decide, rfl⟩
  have hr : 4 * r.ahead.length + 4 ≤ 20 := by decide
  obtain ⟨hread, -⟩ := reading_ends.1 "@a(" 20 ht
  obtain ⟨-, -, -, -, -, -, hcall⟩ := reading_ends.2 r 20 h hr
  exact ⟨ht, hread, h, hr, hcall⟩

end ConfigDoc.Tree.Reader
