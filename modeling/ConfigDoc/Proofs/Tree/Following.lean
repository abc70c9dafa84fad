import ConfigDoc.Proofs.Tree.Steps

/-! Readings that go along with a function on lists of tokens. -/

namespace ConfigDoc.Tree.Reader

variable {α β : Type}

theorem on_bind (x : Reading α) (f : α → Reading β) (r : Reader) :
    (x >>= f).on r = (x.on r).bind fun end' => match end' with
      | (.ok a, r') => (f a).on r'
      | (.error stop, r') => some (.error stop, r') := by
  change Option.bind (x r) _ = Option.bind (x r) _
  congr 1
  funext ⟨out, r'⟩
  cases out <;> rfl

theorem on_bind_of_ok {x : Reading α} {f : α → Reading β} {r r' : Reader} {a : α}
    (h : x.on r = some (.ok a, r')) : (x >>= f).on r = (f a).on r' := by
  rw [on_bind, h]
  rfl

theorem on_bind_of_error {x : Reading α} {f : α → Reading β} {r r' : Reader} {stop : Stop}
    (h : x.on r = some (.error stop, r')) : (x >>= f).on r = some (.error stop, r') := by
  rw [on_bind, h]
  rfl

theorem on_get (r : Reader) : (get : Reading Reader).on r = some (.ok r, r) := rfl

theorem on_pure (a : α) (r : Reader) : (pure a : Reading α).on r = some (.ok a, r) := rfl

def ahead (r : Reader) : Tokens := r.tokens.drop r.position

/-- A reader stands at a token, and the last of its tokens is the end of the input. -/
structure Ready (r : Reader) : Prop where
  inside : r.position < r.tokens.length
  closed : r.tokens.getLast?.map Token.Placed.token = some .eof

/-- A reader went on over the same tokens, and as many argument lists are open. -/
structure Moved (r r' : Reader) : Prop where
  ready : r'.Ready
  tokens : r'.tokens = r.tokens
  depth : r'.depth = r.depth
  position : r.position ≤ r'.position

theorem Ready.moved {r : Reader} (h : r.Ready) : r.Moved r := ⟨h, rfl, rfl, Nat.le_refl _⟩

theorem Moved.trans {r r' r'' : Reader} (h : r.Moved r') (h' : r'.Moved r'') : r.Moved r'' :=
  ⟨h'.ready, h'.tokens.trans h.tokens, h'.depth.trans h.depth, h.position.trans h'.position⟩

theorem length_ahead (r : Reader) : r.ahead.length = r.tokens.length - r.position :=
  List.length_drop

/-- Where fewer tokens are left, the position is greater. -/
theorem Moved.position_lt {r r' : Reader} (h : r.Moved r')
    (hl : r'.ahead.length < r.ahead.length) : r.position < r'.position := by
  rw [length_ahead, length_ahead, h.tokens] at hl
  omega

theorem Ready.exists_front {r : Reader} (h : r.Ready) :
    ∃ placed, r.tokens[r.position]? = some placed ∧
      r.ahead = placed :: r.tokens.drop (r.position + 1) :=
  ⟨_, List.getElem?_eq_getElem h.inside, List.drop_eq_getElem_cons h.inside⟩

/-- Behind a token that is not the end of the input there is another one. -/
theorem Ready.succ_lt {r : Reader} (h : r.Ready) (hne : Tree.peek r.ahead ≠ .eof) :
    r.position + 1 < r.tokens.length := by
  refine Nat.lt_of_le_of_ne h.inside fun hlast => hne ?_
  obtain ⟨placed, hp, ha⟩ := h.exists_front
  have hclosed := h.closed
  rw [List.getLast?_eq_getElem?, ← hlast, Nat.add_sub_cancel, hp] at hclosed
  rw [ha]
  exact Option.some.inj hclosed

theorem Ready.token?_zero {r : Reader} (h : r.Ready) : r.token? 0 = r.ahead.head? := by
  obtain ⟨placed, hp, ha⟩ := h.exists_front
  rw [token?, Nat.add_zero, hp, ha]
  rfl

theorem peek_drop {ts : Tokens} {i : Nat} (h : i < ts.length) :
    Tree.peek (ts.drop i) = ts[i].token := by
  rw [List.drop_eq_getElem_cons h]
  rfl

theorem on_peekAt {r : Reader} {offset : Nat} (h : r.position + offset < r.tokens.length) :
    (peekAt offset).on r = some (.ok (Tree.peek (r.tokens.drop (r.position + offset))), r) := by
  change some (Except.ok ((r.token? offset).elim Token.eof Token.Placed.token), r) = _
  rw [token?, List.getElem?_eq_getElem h, peek_drop h]
  rfl

theorem on_peek {r : Reader} (h : r.Ready) : peek.on r = some (.ok (Tree.peek r.ahead), r) :=
  on_peekAt h.inside

/-- A line break is not the last token, so the search for another one ends before the tokens do. -/
theorem on_peekFrom {r : Reader} {rounds offset : Nat} (h : r.Ready)
    (hi : r.position + offset < r.tokens.length)
    (hr : r.tokens.length ≤ r.position + offset + rounds) :
    (peekFrom rounds offset).on r =
      some (.ok (Tree.peekPast (r.tokens.drop (r.position + offset))), r) := by
  induction rounds generalizing offset with
  | zero => omega
  | succ rounds ih =>
    rw [peekFrom, on_bind_of_ok (on_peekAt hi)]
    split
    · rename_i hn
      have hnext : r.position + offset + 1 < r.tokens.length :=
        Ready.succ_lt (r := { r with position := r.position + offset }) ⟨hi, h.closed⟩
          (by rw [ahead, hn]; decide)
      rw [ih hnext (by omega), List.drop_eq_getElem_cons hi, Tree.peekPast, Tree.peekPast,
        skipNewlines, skipNewlines,
        List.dropWhile_cons_of_pos (by rw [← peek_drop hi, hn]; rfl), Nat.add_assoc]
    · rename_i hn
      rw [on_pure, Tree.peekPast, skipNewlines_of_peek_ne hn]

theorem on_peekPast {r : Reader} (h : r.Ready) :
    peekPast.on r = some (.ok (Tree.peekPast r.ahead), r) := by
  rw [peekPast, on_bind_of_ok (on_get r)]
  exact on_peekFrom h h.inside (by omega)

/-- Only the end of the input stays in front when it is taken. -/
theorem on_bump {r : Reader} (h : r.Ready) :
    ∃ placed, placed.token = Tree.peek r.ahead ∧ bump.on r = some (.ok placed,
      if placed.token = .eof then r else { r with position := r.position + 1 }) := by
  obtain ⟨placed, hp, ha⟩ := h.exists_front
  refine ⟨placed, by rw [ha]; rfl, ?_⟩
  rw [bump, on_bind_of_ok (on_get r), hp]
  dsimp only
  split <;> rfl

theorem Ready.moved_succ {r : Reader} (h : r.Ready) (hne : Tree.peek r.ahead ≠ .eof) :
    r.Moved { r with position := r.position + 1 } :=
  ⟨⟨h.succ_lt hne, h.closed⟩, rfl, rfl, Nat.le_succ _⟩

theorem ahead_succ (r : Reader) : ahead { r with position := r.position + 1 } = r.ahead.tail := by
  simp [ahead]

theorem on_bump_of_ne {r : Reader} (h : r.Ready) (hne : Tree.peek r.ahead ≠ .eof) :
    ∃ placed r', bump.on r = some (.ok placed, r') ∧ placed.token = Tree.peek r.ahead ∧
      r.Moved r' ∧ r'.ahead = r.ahead.tail := by
  obtain ⟨placed, hp, hb⟩ := on_bump h
  rw [if_neg (hp ▸ hne)] at hb
  exact ⟨placed, _, hb, hp, h.moved_succ hne, r.ahead_succ⟩

/-- Every line break is taken before the next look ahead, so the skipping ends before the tokens
do. -/
theorem on_skipWithin {r : Reader} {rounds : Nat} (h : r.Ready) (hr : r.ahead.length ≤ rounds) :
    ∃ r', (skipWithin rounds).on r = some (.ok (), r') ∧ r.Moved r' ∧
      r'.ahead = skipNewlines r.ahead := by
  obtain ⟨first, -, hcons⟩ := h.exists_front
  induction rounds generalizing r first with
  | zero =>
    rw [hcons] at hr
    cases hr
  | succ rounds ih =>
    rw [skipWithin, on_bind_of_ok (on_peek h)]
    split
    · rename_i hn
      obtain ⟨placed, r₁, hb, -, hm, ha⟩ := on_bump_of_ne h (by rw [hn]; decide)
      have hlt := length_tail_lt hn (by decide)
      obtain ⟨second, -, hcons'⟩ := hm.ready.exists_front
      obtain ⟨r₂, hs, hm', ha'⟩ := ih hm.ready (by rw [ha]; omega) second hcons'
      refine ⟨r₂, by rw [on_bind_of_ok hb, hs], hm.trans hm', ?_⟩
      have hfirst : first.token = .newline := by rwa [hcons] at hn
      rw [ha', ha, hcons, List.tail_cons, skipNewlines, skipNewlines,
        List.dropWhile_cons_of_pos (by rw [hfirst]; rfl)]
    · rename_i hn
      exact ⟨r, rfl, h.moved, (skipNewlines_of_peek_ne hn).symm⟩

theorem on_skip {r : Reader} (h : r.Ready) :
    ∃ r', skip.on r = some (.ok (), r') ∧ r.Moved r' ∧ r'.ahead = skipNewlines r.ahead := by
  rw [skip, on_bind_of_ok (on_get r)]
  exact on_skipWithin h (by rw [length_ahead]; omega)

/-- A token of a sort that is in front is of that sort when it is taken. -/
theorem on_takeAs {sort : Token → Option α} {r : Reader} {a : α} (h : r.Ready)
    (hs : sort (Tree.peek r.ahead) = some a) (he : sort .eof = none) :
    ∃ r', (takeAs sort).on r = some (.ok a, r') ∧ r.Moved r' ∧ r'.ahead = r.ahead.tail := by
  obtain ⟨placed, r', hb, hp, hm, ha⟩ :=
    on_bump_of_ne h fun heof => by rw [heof, he] at hs; cases hs
  refine ⟨r', ?_, hm, ha⟩
  rw [takeAs, on_bind_of_ok hb, hp, hs]
  rfl

theorem on_stop {r : Reader} (h : r.Ready) (message : String) (hint : Option String) (code : Nat) :
    ∃ placed, r.ahead.head? = some placed ∧
      (stop message hint code : Reading α).on r = some (.error (.refused
        (.badSyntax message placed.line placed.column hint (some code))), r) := by
  obtain ⟨placed, -, ha⟩ := h.exists_front
  refine ⟨placed, by rw [ha]; rfl, ?_⟩
  change some (Except.error (Stop.refused (.badSyntax message
    ((r.token? 0).elim (0, 0) fun placed => (placed.line, placed.column)).1
    ((r.token? 0).elim (0, 0) fun placed => (placed.line, placed.column)).2 hint
      (some code))), r) = _
  rw [h.token?_zero, ha]
  rfl

theorem on_fail {r : Reader} (h : r.Ready) (fault : Fault) :
    (fail fault : Reading α).on r = some (.error (.refused (report fault r.ahead)), r) := by
  obtain ⟨placed, hp, hs⟩ := @on_stop α r h fault.message fault.hint? fault.code
  rw [fail, hs]
  cases hts : r.ahead with
  | nil => rw [hts] at hp; cases hp
  | cons first rest =>
    rw [hts] at hp
    cases hp
    rfl

theorem on_refuse {r : Reader} (h : r.Ready) (expected : Expectation) :
    (refuse expected : Reading α).on r =
      some (.error (.refused (report (.unexpected expected (Tree.peek r.ahead)) r.ahead)), r) := by
  rw [refuse, on_bind_of_ok (on_peek h), on_fail h]

theorem on_expect_of_eq {r : Reader} (h : r.Ready) {expected : Token} {hint : String} {code : Nat}
    (he : Tree.peek r.ahead = expected) : (expect expected hint code).on r = bump.on r := by
  rw [expect, on_bind_of_ok (on_peek h), if_pos he]

theorem on_expect_of_ne {r : Reader} (h : r.Ready) {expected : Token} {wanted : Expectation}
    (hw : wanted.context = "Expected " ++ expected.describe) (he : Tree.peek r.ahead ≠ expected) :
    (expect expected wanted.hint wanted.code).on r =
      some (.error (.refused (report (.unexpected wanted (Tree.peek r.ahead)) r.ahead)), r) := by
  rw [expect, on_bind_of_ok (on_peek h), if_neg he, ← on_fail h, ← hw]
  rfl

inductive Ends (r : Reader) :
    Except Error (α × Tokens) → Option (Except Stop α × Reader) → Prop where
  | ok {a : α} {r' : Reader} (hm : r.Moved r') : Ends r (.ok (a, r'.ahead)) (some (.ok a, r'))
  | error {e : Error} {r' : Reader} (hm : r.Moved r') :
      Ends r (.error e) (some (.error (.refused e), r'))

/-- A reading ends as a function on the tokens ahead does, unless the steps of that run out. -/
def Follows (reading : Reading α) (x : Except Error (α × Tokens)) (r : Reader) : Prop :=
  Exhausted x ∨ Ends r x (reading.on r)

theorem Ends.of_moved {r r' : Reader} {x : Except Error (α × Tokens)}
    {out : Option (Except Stop α × Reader)} (h : r.Moved r') (hx : Ends r' x out) :
    Ends r x out := by
  cases hx with
  | ok hm => exact .ok (h.trans hm)
  | error hm => exact .error (h.trans hm)

theorem Follows.ok {reading : Reading α} {a : α} {ts : Tokens} {r r' : Reader}
    (h : reading.on r = some (.ok a, r')) (hm : r.Moved r') (ha : r'.ahead = ts) :
    Follows reading (.ok (a, ts)) r := by
  subst ha
  exact .inr (h ▸ .ok hm)

theorem Follows.pure {r : Reader} (h : r.Ready) (a : α) :
    Follows (pure a) (.ok (a, r.ahead)) r := .ok rfl h.moved rfl

theorem Follows.fail {r : Reader} (h : r.Ready) (fault : Fault) :
    Follows (fail fault : Reading α) (.error (report fault r.ahead)) r :=
  .inr (on_fail h fault ▸ .error h.moved)

theorem Follows.refuse {r : Reader} (h : r.Ready) (expected : Expectation) :
    Follows (refuse expected : Reading α) (Tree.refuse expected r.ahead) r :=
  .inr (on_refuse h expected ▸ .error h.moved)

theorem Follows.bind {reading : Reading α} {f : α → Reading β} {x : Except Error (α × Tokens)}
    {g : α × Tokens → Except Error (β × Tokens)} {r : Reader} (h : Follows reading x r)
    (hf : ∀ a r', x = .ok (a, r'.ahead) → r.Moved r' → Follows (f a) (g (a, r'.ahead)) r') :
    Follows (reading >>= f) (x >>= g) r := by
  rcases h with h | h
  · exact .inl h.bind
  generalize hout : reading.on r = out at h
  cases h with
  | @ok a r' hm =>
    rw [Follows, on_bind_of_ok hout]
    exact (hf a r' rfl hm).imp id (.of_moved hm)
  | error hm =>
    rw [Follows, on_bind_of_error hout]
    exact .inr (.error hm)

section
variable {f : β → Reading α} {x : Except Error (α × Tokens)} {r : Reader}

/-- A move that the function makes without a step of its own. -/
theorem Follows.after {move : Reading β} {b : β} {r' : Reader} (h : move.on r = some (.ok b, r'))
    (hm : r.Moved r') (hf : Follows (f b) x r') : Follows (move >>= f) x r := by
  rw [Follows, on_bind_of_ok h]
  exact hf.imp id (.of_moved hm)

theorem Follows.peek {f : Token → Reading α} (h : r.Ready)
    (hf : Follows (f (Tree.peek r.ahead)) x r) : Follows (peek >>= f) x r :=
  .after (on_peek h) h.moved hf

theorem Follows.peekPast {f : Token → Reading α} (h : r.Ready)
    (hf : Follows (f (Tree.peekPast r.ahead)) x r) : Follows (peekPast >>= f) x r :=
  .after (on_peekPast h) h.moved hf

theorem Follows.bump {f : Token.Placed → Reading α} {token : Token} (h : r.Ready)
    (ht : Tree.peek r.ahead = token) (hne : token ≠ .eof)
    (hf : ∀ placed r', r.Moved r' → r'.ahead = r.ahead.tail → Follows (f placed) x r') :
    Follows (bump >>= f) x r := by
  obtain ⟨placed, r', hb, -, hm, ha⟩ := on_bump_of_ne h (ht ▸ hne)
  exact .after hb hm (hf placed r' hm ha)

theorem Follows.skip {f : Unit → Reading α} (h : r.Ready)
    (hf : ∀ r', r.Moved r' → r'.ahead = skipNewlines r.ahead → Follows (f ()) x r') :
    Follows (skip >>= f) x r := by
  obtain ⟨r', hs, hm, ha⟩ := on_skip h
  exact .after hs hm (hf r' hm ha)

theorem Follows.takeAs {sort : Token → Option β} {b : β} (h : r.Ready)
    (hs : sort (Tree.peek r.ahead) = some b) (he : sort .eof = none)
    (hf : ∀ r', r.Moved r' → r'.ahead = r.ahead.tail → Follows (f b) x r') :
    Follows (takeAs sort >>= f) x r := by
  obtain ⟨r', ht, hm, ha⟩ := on_takeAs h hs he
  exact .after ht hm (hf r' hm ha)

theorem Follows.expect {f : Token.Placed → Reading α} {token : Token} {hint : String} {code : Nat}
    (h : r.Ready) (ht : Tree.peek r.ahead = token) (hne : token ≠ .eof)
    (hf : ∀ placed r', r.Moved r' → r'.ahead = r.ahead.tail → Follows (f placed) x r') :
    Follows (expect token hint code >>= f) x r := by
  obtain ⟨placed, r', hb, -, hm, ha⟩ := on_bump_of_ne h (ht ▸ hne)
  exact .after ((on_expect_of_eq h ht).trans hb) hm (hf placed r' hm ha)

theorem Follows.unexpected {f : Token.Placed → Reading α} {token : Token} {wanted : Expectation}
    (h : r.Ready) (hw : wanted.context = "Expected " ++ token.describe)
    (ht : Tree.peek r.ahead ≠ token) :
    Follows (Reader.expect token wanted.hint wanted.code >>= f) (Tree.refuse wanted r.ahead) r := by
  rw [Follows, on_bind_of_error (on_expect_of_ne h hw ht)]
  exact .inr (.error h.moved)

theorem on_deeper (reading : Reading α) (r : Reader) :
    (deeper reading).on r = (reading.on r.deepen).map fun end' => (end'.1, end'.2.rise) := by
  change Option.bind (reading r.deepen) _ = Option.map _ (reading r.deepen)
  cases reading r.deepen <;> rfl

/-- What is read one argument list deeper leaves as many open as before, also if it fails. -/
theorem Follows.deeper {reading : Reading α} (h : Follows reading x r.deepen) :
    Follows (deeper reading) x r := by
  have hrise {r' : Reader} (hm : r.deepen.Moved r') : r.Moved r'.rise :=
    ⟨⟨hm.ready.inside, hm.ready.closed⟩, hm.tokens, by rw [rise, hm.depth]; rfl, hm.position⟩
  refine h.imp id fun hends => ?_
  rw [on_deeper]
  generalize reading.on r.deepen = out at hends
  cases hends with
  | ok hm => exact .ok (hrise hm)
  | error hm => exact .error (hrise hm)

/-- Behind the comma that may end a statement. -/
private theorem follows_lineBreak (h : r.Ready) (closing : Token) :
    Follows (do
        let token ← Reader.peek
        if token = .newline ∨ token = .eof ∨ token = closing then Pure.pure ()
        else Reader.refuse .lineBreak)
      (if Tree.peek r.ahead = .newline ∨ Tree.peek r.ahead = .eof ∨ Tree.peek r.ahead = closing then
        .ok ((), r.ahead)
      else Tree.refuse .lineBreak r.ahead) r := by
  refine .peek h ?_
  split
  · exact .pure h ()
  · exact .refuse h _

theorem follows_terminator (h : r.Ready) (closing : Token) :
    Follows (terminator closing) ((Tree.terminator closing r.ahead).map fun ts => ((), ts)) r := by
  have hmap (ts : Tokens) : (if Tree.peek ts = .newline ∨ Tree.peek ts = .eof ∨
      Tree.peek ts = closing then .ok ts else Tree.refuse .lineBreak ts).map (fun ts => ((), ts)) =
      if Tree.peek ts = .newline ∨ Tree.peek ts = .eof ∨ Tree.peek ts = closing then .ok ((), ts)
      else Tree.refuse .lineBreak ts := by
    split <;> rfl
  unfold Reader.terminator Tree.terminator
  rw [hmap]
  refine .peek h ?_
  split
  · rename_i hcomma
    refine .bump h hcomma (by decide) fun placed r' hm ha => ?_
    rw [← ha]
    exact follows_lineBreak hm.ready closing
  · exact follows_lineBreak h closing

/-- The end of a statement. -/
theorem Follows.terminator {f : Unit → Reading α} {g : Tokens → Except Error (α × Tokens)}
    {closing : Token} (h : r.Ready)
    (hf : ∀ r', Tree.terminator closing r.ahead = .ok r'.ahead → r.Moved r' →
      Follows (f ()) (g r'.ahead) r') :
    Follows (terminator closing >>= f) (Tree.terminator closing r.ahead >>= g) r := by
  have hbind : (Tree.terminator closing r.ahead >>= g) =
      (Tree.terminator closing r.ahead).map (fun ts => ((), ts)) >>= fun end' => g end'.2 := by
    cases Tree.terminator closing r.ahead <;> rfl
  rw [hbind]
  refine (follows_terminator h closing).bind fun _ r' hx hm => hf r' ?_ hm
  obtain ⟨ts, ht, he⟩ := map_eq_ok_iff.1 hx
  cases he
  exact ht

theorem follows_enclosed {elements : Reading (List α)}
    {x : Tokens → Except Error (List α × Tokens)} {closing : Token} (h : r.Ready)
    (hc : closing ≠ .eof) (he : Follows elements (x r.ahead) r) :
    Follows (enclosed closing elements) (Tree.enclosed closing x r.ahead) r := by
  unfold Reader.enclosed Tree.enclosed
  refine .peek h ?_
  split
  · rename_i hend
    refine .bump h hend hc fun _ r₁ hm₁ ha₁ => ?_
    rw [← ha₁]
    exact .pure hm₁.ready _
  · exact he

theorem follows_continued {others : Reading (List α)}
    {x : Tokens → Except Error (List α × Tokens)} {closing : Token} (ending : Expectation)
    (first : α) (h : r.Ready) (hc : closing ≠ .eof)
    (ho : ∀ r', r.Moved r' → Follows others (x r'.ahead) r') :
    Follows (continued closing ending others first)
      (Tree.continued closing ending x first r.ahead) r := by
  unfold Reader.continued Tree.continued
  refine .skip h fun r₁ hm₁ ha₁ => ?_
  refine .peek hm₁.ready ?_
  dsimp only
  rw [← ha₁]
  split
  · rename_i hcomma
    refine .bump hm₁.ready hcomma (by decide) fun _ r₂ hm₂ ha₂ => ?_
    refine .skip hm₂.ready fun r₃ hm₃ ha₃ => ?_
    refine .peek hm₃.ready ?_
    rw [← ha₂, ← ha₃]
    split
    · rename_i hend
      refine .bump hm₃.ready hend hc fun _ r₄ hm₄ ha₄ => ?_
      rw [← ha₄]
      exact .pure hm₄.ready _
    · exact (ho r₃ ((hm₁.trans hm₂).trans hm₃)).bind fun others r₄ _ hm₄ => .pure hm₄.ready _
  split
  · rename_i hend
    refine .bump hm₁.ready hend hc fun _ r₂ hm₂ ha₂ => ?_
    rw [← ha₂]
    exact .pure hm₂.ready _
  · exact .refuse hm₁.ready _

end

end ConfigDoc.Tree.Reader
