import ConfigDoc.Proofs.Tree.Soundness

/-! What the grammar derives is read from tokens, so reading accepts exactly the grammar. -/

namespace ConfigDoc.Tree
open Grammar

private def opens : Token → Bool
  | .ident _ | .rawString _ | .complexString _ | .number _ | .bool _ => true
  | .lbracket | .lbrace | .atSign => true
  | _ => false

private theorem exists_head {phrase : Phrase} {us : List Token} (h : Derives phrase us) :
    match phrase with
    | .body _ => True
    | .rightPipes _ => True
    | .call _ => ∃ tail, us = .atSign :: tail
    | .value _ => ∃ token tail, us = token :: tail ∧ opens token = true ∧ token ≠ .atSign
    | _ => ∃ token tail, us = token :: tail ∧ opens token = true := by
  induction h with
  | emptyBody | bodyCons | noRightPipe | rightPipe => trivial
  | callStatement h ih =>
    obtain ⟨tail, rfl⟩ := ih
    exact ⟨_, _, rfl, rfl⟩
  | assignment hk | block hk => rcases hk with _ | ⟨_ | _⟩ <;> exact ⟨_, _, rfl, rfl⟩
  | unpiped h ih =>
    obtain ⟨token, tail, rfl, ho, -⟩ := ih
    exact ⟨token, tail, rfl, ho⟩
  | rightPiped h hc hn ih =>
    obtain ⟨token, tail, rfl, ho, -⟩ := ih
    exact ⟨token, _, rfl, ho⟩
  | leftPiped hc h ihc =>
    obtain ⟨token, tail, rfl, ho⟩ := ihc
    exact ⟨token, _, rfl, ho⟩
  | lastLeftPipe h hb ha ih | leftPipe h hb ha hc ih =>
    obtain ⟨tail, rfl⟩ := ih
    exact ⟨_, _, rfl, rfl⟩
  | scalar h => cases h <;> exact ⟨_, _, rfl, rfl, nofun⟩
  | emptyArray | array | emptyMap | map => exact ⟨_, _, rfl, rfl, nofun⟩
  | lastItem h hb hc ih | item h hb ha ht ih =>
    obtain ⟨token, tail, rfl, ho⟩ := ih
    exact ⟨token, _, rfl, ho⟩
  | lastMember hk | member hk => cases hk <;> exact ⟨_, _, rfl, rfl⟩
  | bareCall | emptyCall | fullCall => exact ⟨_, rfl⟩

private theorem opens_ne {token : Token} (h : opens token = true) : token ≠ .newline ∧
    token ≠ .eof ∧ token ≠ .rbrace ∧ token ≠ .rbracket ∧ token ≠ .rparen ∧ token ≠ .lparen ∧
    token ≠ .pipeRight ∧ token ≠ .pipeLeft := by
  refine ⟨?_, ?_, ?_, ?_, ?_, ?_, ?_, ?_⟩ <;> rintro rfl <;> cases h

def Closed (ts : Tokens) : Prop :=
  peek ts ≠ .lparen ∧ peekPast ts ≠ .pipeRight ∧ peekPast ts ≠ .pipeLeft

private theorem closed_of_breaks {ts mid : Tokens} {breaks : List Token} (hb : LineBreaks breaks)
    (h : Consumes ts mid breaks) (hn : peek mid ≠ .newline) (hl : peek mid ≠ .lparen)
    (hr : peek mid ≠ .pipeRight) (hp : peek mid ≠ .pipeLeft) : Closed ts := by
  have hs : peekPast ts = peek mid := by rw [peekPast, skipNewlines_eq hb h hn]
  refine ⟨?_, by rwa [hs], by rwa [hs]⟩
  cases breaks with
  | nil => rwa [consumes_nil.1 h]
  | cons token rest =>
    rw [h.peek, hb token List.mem_cons_self]
    decide

/-- What the function that reads a phrase does with the tokens that derive it. The steps it needs
are bounded by the number of these tokens. -/
def Complete : Phrase → List Token → Prop
  | .body entries, us => ∀ {closing : Token} {steps : Nat} {ts rest : Tokens},
      closing = .rbrace ∨ closing = .eof → 4 * us.length + 2 ≤ steps → Consumes ts rest us →
      peek rest = closing → statements steps closing ts = .ok (entries, rest)
  | .statement entry, us => ∀ {steps : Nat} {ts rest : Tokens}, 4 * us.length + 1 ≤ steps →
      Consumes ts rest us → Closed rest → statement steps ts = .ok (entry, rest)
  | .expression tree, us => ∀ {plain : Bool} {steps : Nat} {ts rest : Tokens},
      (plain = true → tree.Plain) → 4 * us.length + 2 ≤ steps → Consumes ts rest us →
      Closed rest → expression steps plain ts = .ok (tree, rest)
  | .rightPipes calls, us => ∀ {steps : Nat} {ts rest : Tokens}, 4 * us.length + 1 ≤ steps →
      Consumes ts rest us → Closed rest → rightCalls steps ts = .ok (calls, rest)
  | .leftPipes calls, us => ∀ {steps : Nat} {ts rest : Tokens}, 4 * us.length + 1 ≤ steps →
      Consumes ts rest us → opens (peek rest) = true → peek rest ≠ .atSign →
      leftCalls steps ts = .ok (calls, rest)
  | .value tree, us => ∀ {plain : Bool} {steps : Nat} {ts rest : Tokens},
      (plain = true → tree.Plain) → 4 * us.length ≤ steps → Consumes ts rest us →
      value steps plain ts = .ok (tree, rest)
  | .items trees, us => ∀ {plain : Bool} {closing : Token} {ending : Expectation} {steps : Nat}
      {ts rest : Tokens}, (plain = true → ∀ tree ∈ trees, tree.Plain) →
      closing = .rbracket ∨ closing = .rparen → 4 * us.length + 3 ≤ steps →
      Consumes ts rest (us ++ [closing]) → items steps plain closing ending ts = .ok (trees, rest)
  | .members entries, us => ∀ {plain : Bool} {steps : Nat} {ts rest : Tokens},
      (plain = true → ∀ entry ∈ entries, entry.value.Plain) → 4 * us.length + 3 ≤ steps →
      Consumes ts rest (us ++ [.rbrace]) → members steps plain ts = .ok (entries, rest)
  | .call made, us => ∀ {steps : Nat} {ts rest : Tokens}, 4 * us.length ≤ steps →
      Consumes ts rest us → peek rest ≠ .lparen → call steps ts = .ok (made, rest)

private theorem peek_rightPipes_ne {ts rest : Tokens} {calls : List (Call Tree)}
    {us : List Token} (h : Derives (.rightPipes calls) us) (hts : Consumes ts rest us)
    (hrest : peek rest ≠ .lparen) : peek ts ≠ .lparen := by
  cases h with
  | noRightPipe => rwa [consumes_nil.1 hts]
  | @rightPipe before _ _ _ _ _ hb ha h hc =>
    cases before with
    | nil =>
      rw [hts.peek]
      decide
    | cons token before =>
      rw [hts.peek, hb token List.mem_cons_self]
      decide

private theorem complete_rightPipe {before after us vs : List Token} {made : Call Tree}
    {calls : List (Call Tree)} (hb : LineBreaks before) (ha : LineBreaks after)
    (h : Derives (.call made) us) (hc : Derives (.rightPipes calls) vs)
    (ih : Complete (.call made) us) (ihc : Complete (.rightPipes calls) vs) :
    Complete (.rightPipes (made :: calls)) (before ++ .pipeRight :: (after ++ (us ++ vs))) := by
  intro steps ts rest hs hts hrest
  simp only [List.length_append, List.length_cons] at hs
  obtain ⟨ts₁, h₁, hts⟩ := consumes_append.1 hts
  obtain ⟨placed, ts₂, rfl, hp, hts⟩ := consumes_cons.1 hts
  obtain ⟨ts₃, h₂, hts⟩ := consumes_append.1 hts
  obtain ⟨ts₄, hu, hv⟩ := consumes_append.1 hts
  obtain ⟨tail, rfl⟩ := exists_head h
  have hskip : skipNewlines ts = placed :: ts₂ :=
    skipNewlines_eq hb h₁ (by rw [show peek (placed :: ts₂) = .pipeRight from hp]; decide)
  have hskip' : skipNewlines ts₂ = ts₃ :=
    skipNewlines_eq ha h₂ (by rw [hu.peek]; decide)
  obtain _ | steps := steps
  · omega
  have hcall : call steps ts₃ = .ok (made, ts₄) :=
    ih (by simp only [List.length_cons] at hs ⊢; omega) hu (peek_rightPipes_ne hc hv hrest.1)
  rw [rightCalls, if_pos (by rw [peekPast, hskip]; exact hp), hskip, List.tail_cons, hskip']
  exact bind_eq_ok_iff.2 ⟨_, hcall, bind_eq_ok_iff.2 ⟨_, ihc (by omega) hv hrest, rfl⟩⟩

/-- A call and its pipe in front of a value or of more calls. -/
private theorem leftCalls_succ {before after us : List Token} {made : Call Tree} {steps : Nat}
    {ts rest : Tokens} (hb : LineBreaks before) (ha : LineBreaks after)
    (ih : Complete (.call made) us) (hs : 4 * us.length ≤ steps)
    (hts : Consumes ts rest (us ++ (before ++ .pipeLeft :: after)))
    (hrest : opens (peek rest) = true) :
    leftCalls (steps + 1) ts = if peek rest = .atSign then do
      let (others, ts) ← leftCalls steps rest
      pure (made :: others, ts)
    else pure ([made], rest) := by
  obtain ⟨ts₁, hu, hts⟩ := consumes_append.1 hts
  obtain ⟨ts₂, h₁, hts⟩ := consumes_append.1 hts
  obtain ⟨placed, ts₃, rfl, hp, h₂⟩ := consumes_cons.1 hts
  have hskip : skipNewlines ts₁ = placed :: ts₃ :=
    skipNewlines_eq hb h₁ (by rw [show peek (placed :: ts₃) = .pipeLeft from hp]; decide)
  have hskip' : skipNewlines ts₃ = rest := skipNewlines_eq ha h₂ (opens_ne hrest).1
  have hl : peek ts₁ ≠ .lparen := by
    cases before with
    | nil =>
      rw [consumes_nil.1 h₁]
      simp [peek, hp]
    | cons token before =>
      rw [h₁.peek, hb token List.mem_cons_self]
      decide
  rw [leftCalls, ih hs hu hl]
  dsimp only [bind, Except.bind]
  rw [if_neg (by rw [peekPast, hskip]; exact not_not.2 hp), hskip, List.tail_cons, hskip']

private theorem complete_lastLeftPipe {before after us : List Token} {made : Call Tree}
    (hb : LineBreaks before) (ha : LineBreaks after) (ih : Complete (.call made) us) :
    Complete (.leftPipes [made]) (us ++ (before ++ .pipeLeft :: after)) := by
  intro steps ts rest hs hts hopens hat
  simp only [List.length_append, List.length_cons] at hs
  obtain _ | steps := steps
  · omega
  rw [leftCalls_succ hb ha ih (by omega) hts hopens, if_neg hat]
  rfl

private theorem complete_leftPipe {before after us vs : List Token} {made : Call Tree}
    {calls : List (Call Tree)} (hb : LineBreaks before) (ha : LineBreaks after)
    (hc : Derives (.leftPipes calls) vs) (ih : Complete (.call made) us)
    (ihc : Complete (.leftPipes calls) vs) :
    Complete (.leftPipes (made :: calls)) (us ++ (before ++ .pipeLeft :: (after ++ vs))) := by
  intro steps ts rest hs hts hopens hat
  simp only [List.length_append, List.length_cons] at hs
  have hsplit : us ++ (before ++ .pipeLeft :: (after ++ vs)) =
      us ++ (before ++ .pipeLeft :: after) ++ vs := by simp
  obtain ⟨mid, hts, hv⟩ := consumes_append.1 (hsplit ▸ hts)
  have hmid : peek mid = .atSign := by
    cases hc with
    | lastLeftPipe h | leftPipe h =>
      obtain ⟨tail, rfl⟩ := exists_head h
      exact hv.peek
  obtain _ | steps := steps
  · omega
  rw [leftCalls_succ hb ha ih (by omega) hts (by rw [hmid]; rfl), if_pos hmid]
  exact bind_eq_ok_iff.2 ⟨_, ihc (by omega) hv hopens hat, rfl⟩

private theorem complete_call_bare (name : String) :
    Complete (.call ⟨name, []⟩) [.atSign, .ident name] := by
  intro steps ts rest hs hts hrest
  obtain _ | steps := steps
  · simp at hs
  have hend : ts.tail.tail = rest := consumes_nil.1 hts.tail.tail
  rw [call, if_neg (not_not.2 hts.peek)]
  dsimp only
  rw [hts.tail.peek]
  dsimp only
  rw [hend, if_neg hrest]
  rfl

/-- A call whose arguments start after some line breaks. -/
private theorem call_succ {name : String} {breaks us : List Token} {steps : Nat}
    {ts rest : Tokens} (hb : LineBreaks breaks)
    (hts : Consumes ts rest (.atSign :: .ident name :: .lparen :: (breaks ++ us)))
    (hu : ∃ token tail, us = token :: tail ∧ token ≠ .newline) :
    ∃ mid, Consumes mid rest us ∧ call (steps + 1) ts =
      if peek mid = .rparen then pure (⟨name, []⟩, mid.tail)
      else (do
        let (args, ts) ← items steps true .rparen (.argumentEnd name) mid
        pure (⟨name, args⟩, ts)) := by
  obtain ⟨mid, h, hmid⟩ := consumes_append.1 hts.tail.tail.tail
  obtain ⟨token, tail, rfl, hn⟩ := hu
  have hskip : skipNewlines ts.tail.tail.tail = mid :=
    skipNewlines_eq hb h (by rwa [hmid.peek])
  refine ⟨mid, hmid, ?_⟩
  rw [call, if_neg (not_not.2 hts.peek)]
  dsimp only
  rw [hts.tail.peek]
  dsimp only
  rw [if_pos hts.tail.tail.peek, hskip]

private theorem complete_call_empty {name : String} {breaks : List Token}
    (hb : LineBreaks breaks) : Complete (.call ⟨name, []⟩)
      (.atSign :: .ident name :: .lparen :: (breaks ++ [.rparen])) := by
  intro steps ts rest hs hts hrest
  obtain _ | steps := steps
  · simp at hs
  obtain ⟨mid, hmid, hcall⟩ := call_succ hb hts ⟨_, _, rfl, by decide⟩
  rw [hcall, if_pos hmid.peek, consumes_nil.1 hmid.tail]
  rfl

private theorem complete_call_full {name : String} {breaks us : List Token} {args : List Tree}
    (hb : LineBreaks breaks) (h : Derives (.items args) us) (hp : ∀ arg ∈ args, arg.Plain)
    (ih : Complete (.items args) us) : Complete (.call ⟨name, args⟩)
      (.atSign :: .ident name :: .lparen :: (breaks ++ (us ++ [.rparen]))) := by
  intro steps ts rest hs hts hrest
  simp only [List.length_append, List.length_cons] at hs
  obtain _ | steps := steps
  · omega
  obtain ⟨token, tail, rfl, ho⟩ := exists_head h
  obtain ⟨hn, -, -, -, hr, -⟩ := opens_ne ho
  obtain ⟨mid, hmid, hcall⟩ := call_succ hb hts ⟨token, _, rfl, hn⟩
  have hpeek : peek mid = token := hmid.peek
  rw [hcall, if_neg (by rwa [hpeek])]
  simp only [List.length_cons] at hs
  exact bind_eq_ok_iff.2 ⟨_, ih (fun _ => hp) (.inr rfl) (by
    simp only [List.length_cons]
    omega) hmid, rfl⟩

private theorem complete_scalar {token : Token} {tree : Tree} (h : Scalar token tree) :
    Complete (.value tree) [token] := by
  intro plain steps ts rest hplain hs hts
  obtain _ | steps := steps
  · simp at hs
  have hl : peek ts ≠ .lbracket ∧ peek ts ≠ .lbrace := by
    rw [hts.peek]
    cases h <;> simp
  rw [value, if_neg hl.1, if_neg hl.2, hts.peek, scalar?_eq_some_iff.2 h]
  rw [← consumes_nil.1 hts.tail]
  rfl

/-- An opening bracket with the line breaks behind it. -/
private theorem skipNewlines_tail {opening token : Token} {breaks us : List Token}
    {ts rest : Tokens} (hb : LineBreaks breaks) (hn : token ≠ .newline)
    (hts : Consumes ts rest (opening :: (breaks ++ token :: us))) :
    Consumes (skipNewlines ts.tail) rest (token :: us) := by
  obtain ⟨mid, h, hmid⟩ := consumes_append.1 hts.tail
  rwa [skipNewlines_eq hb h (by rwa [hmid.peek])]

private theorem complete_emptyArray {breaks : List Token} (hb : LineBreaks breaks) :
    Complete (.value (.array [])) (.lbracket :: (breaks ++ [.rbracket])) := by
  intro plain steps ts rest hplain hs hts
  obtain _ | steps := steps
  · simp at hs
  have hmid := skipNewlines_tail hb (by decide) hts
  rw [value, if_pos hts.peek]
  dsimp only
  rw [if_pos hmid.peek, consumes_nil.1 hmid.tail]
  rfl

private theorem complete_array {breaks us : List Token} {trees : List Tree}
    (hb : LineBreaks breaks) (h : Derives (.items trees) us) (ih : Complete (.items trees) us) :
    Complete (.value (.array trees)) (.lbracket :: (breaks ++ (us ++ [.rbracket]))) := by
  intro plain steps ts rest hplain hs hts
  simp only [List.length_append, List.length_cons] at hs
  obtain _ | steps := steps
  · omega
  obtain ⟨token, tail, rfl, ho⟩ := exists_head h
  obtain ⟨hn, -, -, hr, -⟩ := opens_ne ho
  have hmid := skipNewlines_tail hb hn hts
  have hitems : items steps plain .rbracket .itemEnd (skipNewlines ts.tail) = .ok (trees, rest) :=
    ih (fun hp => plain_array.1 (hplain hp)) (.inl rfl)
      (by simp only [List.length_cons] at hs ⊢; omega) hmid
  rw [value, if_pos hts.peek]
  dsimp only
  rw [if_neg (by rwa [hmid.peek])]
  exact bind_eq_ok_iff.2 ⟨_, hitems, rfl⟩

private theorem complete_emptyMap {breaks : List Token} (hb : LineBreaks breaks) :
    Complete (.value (.map [])) (.lbrace :: (breaks ++ [.rbrace])) := by
  intro plain steps ts rest hplain hs hts
  obtain _ | steps := steps
  · simp at hs
  have hmid := skipNewlines_tail hb (by decide) hts
  rw [value, if_neg (by rw [hts.peek]; decide), if_pos hts.peek]
  dsimp only
  rw [if_pos hmid.peek, consumes_nil.1 hmid.tail]
  rfl

private theorem complete_map {breaks us : List Token} {entries : List (Entry Tree)}
    (hb : LineBreaks breaks) (h : Derives (.members entries) us)
    (ih : Complete (.members entries) us) :
    Complete (.value (.map entries)) (.lbrace :: (breaks ++ (us ++ [.rbrace]))) := by
  intro plain steps ts rest hplain hs hts
  simp only [List.length_append, List.length_cons] at hs
  obtain _ | steps := steps
  · omega
  obtain ⟨token, tail, rfl, ho⟩ := exists_head h
  obtain ⟨hn, -, hr, -⟩ := opens_ne ho
  have hmid := skipNewlines_tail hb hn hts
  have hmembers : members steps plain (skipNewlines ts.tail) = .ok (entries, rest) :=
    ih (fun hp => plain_map.1 (hplain hp)) (by simp only [List.length_cons] at hs ⊢; omega) hmid
  rw [value, if_neg (by rw [hts.peek]; decide), if_pos hts.peek]
  dsimp only
  rw [if_neg (by rwa [hmid.peek])]
  exact bind_eq_ok_iff.2 ⟨_, hmembers, rfl⟩

private theorem rightCalls_of_closed {steps : Nat} {ts : Tokens} (hs : 0 < steps)
    (h : Closed ts) : rightCalls steps ts = .ok ([], ts) := by
  obtain _ | steps := steps
  · omega
  rw [rightCalls, if_neg h.2.1]
  rfl

private theorem complete_unpiped {us : List Token} {tree : Tree} (h : Derives (.value tree) us)
    (ih : Complete (.value tree) us) : Complete (.expression tree) us := by
  intro plain steps ts rest hplain hs hts hrest
  obtain _ | steps := steps
  · omega
  obtain ⟨token, tail, rfl, -, hat⟩ := exists_head h
  have hat : peek ts ≠ .atSign := by rwa [hts.peek]
  simp only [List.length_cons] at hs
  have hvalue : value steps plain ts = .ok (tree, rest) :=
    ih hplain (by simp only [List.length_cons]; omega) hts
  rw [expression]
  cases plain with
  | true =>
    rw [if_pos rfl, if_neg hat]
    refine bind_eq_ok_iff.2 ⟨_, hvalue, ?_⟩
    exact if_neg (not_or.2 hrest.2)
  | false =>
    rw [if_neg (by decide), if_neg hat]
    refine bind_eq_ok_iff.2 ⟨_, hvalue, bind_eq_ok_iff.2
      ⟨_, rightCalls_of_closed (by omega) hrest, ?_⟩⟩
    exact if_neg hrest.2.2

private theorem complete_rightPiped {us vs : List Token} {tree : Tree} {calls : List (Call Tree)}
    (h : Derives (.value tree) us) (hn : calls ≠ []) (ih : Complete (.value tree) us)
    (ihc : Complete (.rightPipes calls) vs) :
    Complete (.expression (.piped tree calls)) (us ++ vs) := by
  intro plain steps ts rest hplain hs hts hrest
  obtain _ | steps := steps
  · omega
  cases plain with
  | true => exact absurd (hplain rfl) (not_plain_piped tree calls)
  | false =>
    obtain ⟨mid, hu, hv⟩ := consumes_append.1 hts
    obtain ⟨token, tail, rfl, -, hat⟩ := exists_head h
    simp only [List.length_append, List.length_cons] at hs
    have hvalue : value steps false ts = .ok (tree, mid) :=
      ih nofun (by simp only [List.length_cons]; omega) hu
    rw [expression, if_neg (by decide), if_neg (by rwa [hu.peek])]
    refine bind_eq_ok_iff.2 ⟨_, hvalue, bind_eq_ok_iff.2 ⟨_, ihc (by omega) hv hrest, ?_⟩⟩
    dsimp only
    rw [if_neg hrest.2.2, pipedThrough, if_neg (by simpa using hn)]
    rfl

private theorem complete_leftPiped {us vs : List Token} {tree : Tree} {calls : List (Call Tree)}
    (hc : Derives (.leftPipes calls) us) (h : Derives (.value tree) vs)
    (ihc : Complete (.leftPipes calls) us) (ih : Complete (.value tree) vs) :
    Complete (.expression (.piped tree calls.reverse)) (us ++ vs) := by
  intro plain steps ts rest hplain hs hts hrest
  obtain _ | steps := steps
  · omega
  cases plain with
  | true => exact absurd (hplain rfl) (not_plain_piped tree calls.reverse)
  | false =>
    obtain ⟨mid, hu, hv⟩ := consumes_append.1 hts
    obtain ⟨token, tail, rfl, ho, hat⟩ := exists_head h
    simp only [List.length_append, List.length_cons] at hs
    have hcalls : leftCalls steps ts = .ok (calls, mid) :=
      ihc (by omega) hu (by rwa [hv.peek]) (by rwa [hv.peek])
    have hvalue : value steps false mid = .ok (tree, rest) :=
      ih nofun (by simp only [List.length_cons]; omega) hv
    have hfront : peek ts = .atSign := by
      cases hc with
      | lastLeftPipe h | leftPipe h =>
        obtain ⟨tail, rfl⟩ := exists_head h
        exact hu.peek
    have hn : calls.reverse ≠ [] := by cases hc <;> simp
    rw [expression, if_neg (by decide), if_pos hfront]
    refine bind_eq_ok_iff.2 ⟨_, hcalls, bind_eq_ok_iff.2 ⟨_, hvalue, ?_⟩⟩
    dsimp only
    rw [if_neg hrest.2.1, pipedThrough, if_neg (by simpa using hn)]
    rfl

/-- What an expression in a list may be followed by: line breaks, and then a comma or a closing
bracket. -/
private theorem consumes_separator {ts rest : Tokens} {breaks vs : List Token} {token : Token}
    (hb : LineBreaks breaks) (hts : Consumes ts rest (breaks ++ token :: vs))
    (ht : token = .comma ∨ token = .rbracket ∨ token = .rparen ∨ token = .rbrace) :
    Closed ts ∧ Consumes (skipNewlines ts) rest (token :: vs) := by
  obtain ⟨mid, h, hmid⟩ := consumes_append.1 hts
  have hp : peek mid = token := hmid.peek
  have hn : peek mid ≠ .newline := by rw [hp]; rcases ht with rfl | rfl | rfl | rfl <;> decide
  refine ⟨closed_of_breaks hb h hn ?_ ?_ ?_, by rwa [skipNewlines_eq hb h hn]⟩ <;>
    (rw [hp]; rcases ht with rfl | rfl | rfl | rfl <;> decide)

private theorem complete_lastItem {us breaks comma : List Token} {tree : Tree}
    (hb : LineBreaks breaks) (hc : comma = [] ∨ ∃ after, LineBreaks after ∧ comma = .comma :: after)
    (ih : Complete (.expression tree) us) : Complete (.items [tree]) (us ++ (breaks ++ comma)) := by
  intro plain closing ending steps ts rest hplain hclosing hs hts
  simp only [List.length_append] at hs
  simp only [List.append_assoc] at hts
  obtain _ | steps := steps
  · omega
  obtain ⟨mid, hu, hmid⟩ := consumes_append.1 hts
  rw [items]
  rcases hc with rfl | ⟨after, ha, rfl⟩
  · obtain ⟨hclosed, hend⟩ := consumes_separator hb hmid (.inr (hclosing.imp_right .inl))
    have hexpr : expression steps plain ts = .ok (tree, mid) :=
      ih (fun hp => hplain hp _ List.mem_cons_self) (by omega) hu hclosed
    refine bind_eq_ok_iff.2 ⟨_, hexpr, ?_⟩
    dsimp only
    rw [if_neg (by rw [hend.peek]; rcases hclosing with rfl | rfl <;> decide), if_pos hend.peek,
      consumes_nil.1 hend.tail]
    rfl
  · obtain ⟨hclosed, hcomma⟩ := consumes_separator hb hmid (.inl rfl)
    have hexpr : expression steps plain ts = .ok (tree, mid) :=
      ih (fun hp => hplain hp _ List.mem_cons_self) (by omega) hu hclosed
    have hend := (consumes_separator ha hcomma.tail (.inr (hclosing.imp_right .inl))).2
    refine bind_eq_ok_iff.2 ⟨_, hexpr, ?_⟩
    dsimp only
    rw [if_pos hcomma.peek, if_pos hend.peek, consumes_nil.1 hend.tail]
    rfl

private theorem complete_item {us before after vs : List Token} {tree : Tree} {trees : List Tree}
    (hb : LineBreaks before) (ha : LineBreaks after) (ht : Derives (.items trees) vs)
    (ih : Complete (.expression tree) us) (iht : Complete (.items trees) vs) :
    Complete (.items (tree :: trees)) (us ++ (before ++ .comma :: (after ++ vs))) := by
  intro plain closing ending steps ts rest hplain hclosing hs hts
  simp only [List.length_append, List.length_cons] at hs
  simp only [List.append_assoc, List.cons_append] at hts
  obtain _ | steps := steps
  · omega
  obtain ⟨mid, hu, hmid⟩ := consumes_append.1 hts
  obtain ⟨hclosed, hcomma⟩ := consumes_separator hb hmid (.inl rfl)
  have hexpr : expression steps plain ts = .ok (tree, mid) :=
    ih (fun hp => hplain hp _ List.mem_cons_self) (by omega) hu hclosed
  obtain ⟨token, tail, rfl, ho⟩ := exists_head ht
  obtain ⟨hn, -, -, hr, hr', -⟩ := opens_ne ho
  have hothers := skipNewlines_tail ha hn hcomma
  have hpeek : peek (skipNewlines (skipNewlines mid).tail) = token := hothers.peek
  have htail : items steps plain closing ending (skipNewlines (skipNewlines mid).tail) =
      .ok (trees, rest) :=
    iht (fun hp tree ht => hplain hp tree (List.mem_cons_of_mem _ ht)) hclosing
      (by simp only [List.length_cons] at hs ⊢; omega) hothers
  rw [items]
  refine bind_eq_ok_iff.2 ⟨_, hexpr, ?_⟩
  dsimp only
  rw [if_pos hcomma.peek, if_neg (by rw [hpeek]; rcases hclosing with rfl | rfl <;> assumption)]
  exact bind_eq_ok_iff.2 ⟨_, htail, rfl⟩

/-- The key, the colon and the value of a member. -/
private theorem members_succ {token : Token} {before after us vs : List Token} {key : String}
    {tree : Tree} {steps : Nat} {plain : Bool} {ts rest : Tokens} (hk : QuotedKey token key)
    (hb : LineBreaks before) (ha : LineBreaks after) (h : Derives (.expression tree) us)
    (ih : Complete (.expression tree) us) (hplain : plain = true → tree.Plain)
    (hs : 4 * us.length + 2 ≤ steps)
    (hts : Consumes ts rest (token :: (before ++ .colon :: (after ++ (us ++ vs)))))
    (hclosed : ∀ {mid : Tokens}, Consumes mid rest vs → Closed mid) :
    ∃ mid, Consumes mid rest vs ∧ members (steps + 1) plain ts =
      if peek (skipNewlines mid) = .comma then
        if peek (skipNewlines (skipNewlines mid).tail) = .rbrace then
          pure ([⟨key, tree⟩], (skipNewlines (skipNewlines mid).tail).tail)
        else do
          let (others, ts) ← members steps plain (skipNewlines (skipNewlines mid).tail)
          pure (⟨key, tree⟩ :: others, ts)
      else if peek (skipNewlines mid) = .rbrace then pure ([⟨key, tree⟩], (skipNewlines mid).tail)
      else refuse .memberEnd (skipNewlines mid) := by
  have hkey : memberKey? (peek ts) = some key := by
    rw [hts.peek]
    exact memberKey?_eq_some_iff.2 hk
  have hcolon := skipNewlines_tail hb (by decide) hts
  obtain ⟨head, tail, rfl, ho⟩ := exists_head h
  have hvalue : Consumes _ rest ((head :: tail) ++ vs) :=
    skipNewlines_tail ha (opens_ne ho).1 hcolon
  obtain ⟨mid, hu, hmid⟩ := (consumes_append ).1 hvalue
  have hexpr : expression steps plain (skipNewlines (skipNewlines ts.tail).tail) =
      .ok (tree, mid) := ih hplain hs hu (hclosed hmid)
  refine ⟨mid, hmid, ?_⟩
  rw [members, hkey]
  dsimp only
  rw [if_neg (not_not.2 hcolon.peek), hexpr]
  rfl

private theorem complete_lastMember {token : Token} {before after us breaks comma : List Token}
    {key : String} {tree : Tree} (hk : QuotedKey token key) (hb : LineBreaks before)
    (ha : LineBreaks after) (h : Derives (.expression tree) us) (hr : LineBreaks breaks)
    (hc : comma = [] ∨ ∃ after, LineBreaks after ∧ comma = .comma :: after)
    (ih : Complete (.expression tree) us) : Complete (.members [⟨key, tree⟩])
      (token :: (before ++ .colon :: (after ++ (us ++ (breaks ++ comma))))) := by
  intro plain steps ts rest hplain hs hts
  simp only [List.length_append, List.length_cons] at hs
  simp only [List.append_assoc, List.cons_append] at hts
  obtain _ | steps := steps
  · omega
  have hplain := fun hp => hplain hp _ List.mem_cons_self
  rcases hc with rfl | ⟨after', ha', rfl⟩
  · obtain ⟨mid, hmid, hmembers⟩ := members_succ hk hb ha h ih hplain
      (show _ ≤ steps by omega) hts fun hv => (consumes_separator hr hv (by simp)).1
    have hend := (consumes_separator hr hmid (by simp)).2
    rw [hmembers, if_neg (by rw [hend.peek]; decide), if_pos hend.peek, consumes_nil.1 hend.tail]
    rfl
  · obtain ⟨mid, hmid, hmembers⟩ := members_succ hk hb ha h ih hplain
      (show _ ≤ steps by omega) hts fun hv => (consumes_separator hr hv (by simp)).1
    have hcomma := (consumes_separator hr hmid (by simp)).2
    have hend := (consumes_separator ha' hcomma.tail (by simp)).2
    rw [hmembers, if_pos hcomma.peek, if_pos hend.peek, consumes_nil.1 hend.tail]
    rfl

private theorem complete_member {token : Token} {before after us breaks breaks' vs : List Token}
    {key : String} {tree : Tree} {entries : List (Entry Tree)} (hk : QuotedKey token key)
    (hb : LineBreaks before) (ha : LineBreaks after) (h : Derives (.expression tree) us)
    (hr : LineBreaks breaks) (hr' : LineBreaks breaks') (he : Derives (.members entries) vs)
    (ih : Complete (.expression tree) us) (ihe : Complete (.members entries) vs) :
    Complete (.members (⟨key, tree⟩ :: entries))
      (token :: (before ++ .colon :: (after ++ (us ++ (breaks ++ .comma :: (breaks' ++ vs)))))) := by
  intro plain steps ts rest hplain hs hts
  simp only [List.length_append, List.length_cons] at hs
  simp only [List.append_assoc, List.cons_append] at hts
  obtain _ | steps := steps
  · omega
  obtain ⟨mid, hmid, hmembers⟩ := members_succ hk hb ha h ih
    (fun hp => hplain hp _ List.mem_cons_self) (show _ ≤ steps by omega) hts
    fun hv => (consumes_separator hr hv (by simp)).1
  have hcomma := (consumes_separator hr hmid (by simp)).2
  obtain ⟨head, tail, rfl, ho⟩ := exists_head he
  obtain ⟨hn, -, hbrace, -⟩ := opens_ne ho
  have hothers := skipNewlines_tail hr' hn hcomma
  have hpeek : peek (skipNewlines (skipNewlines mid).tail) = head := hothers.peek
  have htail : members steps plain (skipNewlines (skipNewlines mid).tail) = .ok (entries, rest) :=
    ihe (fun hp entry ht => hplain hp entry (List.mem_cons_of_mem _ ht))
      (by simp only [List.length_cons] at hs ⊢; omega) hothers
  rw [hmembers, if_pos hcomma.peek, if_neg (by rwa [hpeek])]
  exact bind_eq_ok_iff.2 ⟨_, htail, rfl⟩

private theorem complete_callStatement {us : List Token} {made : Call Tree}
    (h : Derives (.call made) us) (ih : Complete (.call made) us) :
    Complete (.statement (.ofCall made)) us := by
  intro steps ts rest hs hts hrest
  obtain _ | steps := steps
  · omega
  have hcall : call steps ts = .ok (made, rest) := ih (by omega) hts hrest.1
  obtain ⟨tail, rfl⟩ := exists_head h
  rw [statement, if_pos hts.peek]
  exact bind_eq_ok_iff.2 ⟨_, hcall, rfl⟩

private theorem statement_of_key {token : Token} {key : String} {steps : Nat} {ts rest : Tokens}
    {us : List Token} (hk : StatementKey token key) (hts : Consumes ts rest (token :: us)) :
    statement (steps + 1) ts =
      if peek ts.tail = .equals then do
        let (value, ts) ← expression steps false (skipNewlines ts.tail.tail)
        pure (⟨key, value⟩, ts)
      else if peek ts.tail = .lbrace then do
        let (entries, ts) ← statements steps .rbrace ts.tail.tail
        pure (⟨key, .block entries⟩, ts.tail)
      else refuse (.assignment key) ts.tail := by
  rw [statement, if_neg (by rw [hts.peek]; rcases hk with _ | ⟨_ | _⟩ <;> simp), hts.peek,
    statementKey?_eq_some_iff.2 hk]

private theorem complete_assignment {token : Token} {breaks us : List Token} {key : String}
    {tree : Tree} (hk : StatementKey token key) (hb : LineBreaks breaks)
    (h : Derives (.expression tree) us) (ih : Complete (.expression tree) us) :
    Complete (.statement ⟨key, tree⟩) (token :: .equals :: (breaks ++ us)) := by
  intro steps ts rest hs hts hrest
  simp only [List.length_append, List.length_cons] at hs
  obtain _ | steps := steps
  · omega
  obtain ⟨head, tail, rfl, ho⟩ := exists_head h
  have hvalue := skipNewlines_tail hb (opens_ne ho).1 hts.tail
  have hexpr : expression steps false (skipNewlines ts.tail.tail) = .ok (tree, rest) :=
    ih nofun (by simp only [List.length_cons] at hs ⊢; omega) hvalue hrest
  rw [statement_of_key hk hts, if_pos hts.tail.peek]
  exact bind_eq_ok_iff.2 ⟨_, hexpr, rfl⟩

private theorem complete_block {token : Token} {us : List Token} {key : String}
    {entries : List (Entry Tree)} (hk : StatementKey token key) (ih : Complete (.body entries) us) :
    Complete (.statement ⟨key, .block entries⟩) (token :: .lbrace :: (us ++ [.rbrace])) := by
  intro steps ts rest hs hts hrest
  simp only [List.length_append, List.length_cons] at hs
  obtain _ | steps := steps
  · omega
  obtain ⟨mid, hu, hmid⟩ := consumes_append.1 hts.tail.tail
  have hbody : statements steps .rbrace ts.tail.tail = .ok (entries, mid) :=
    ih (.inl rfl) (by omega) hu hmid.peek
  rw [statement_of_key hk hts, if_neg (by rw [hts.tail.peek]; decide), if_pos hts.tail.peek]
  refine bind_eq_ok_iff.2 ⟨_, hbody, ?_⟩
  rw [← consumes_nil.1 hmid.tail]
  rfl

private theorem closing_ne {closing : Token} (h : closing = .rbrace ∨ closing = .eof) :
    closing ≠ .newline ∧ closing ≠ .comma ∧ opens closing = false ∧ closing ≠ .lparen ∧
      closing ≠ .pipeRight ∧ closing ≠ .pipeLeft := by
  rcases h with rfl | rfl <;> decide

/-- After its line breaks a body goes on with a statement or is over. -/
private theorem closed_of_body {closing : Token} {ts rest : Tokens} {us : List Token}
    {entries : List (Entry Tree)} (hclosing : closing = .rbrace ∨ closing = .eof)
    (h : Derives (.body entries) us) (hts : Consumes ts rest us) (hrest : peek rest = closing) :
    Closed ts := by
  obtain ⟨hn, -, -, hl, hr, hp⟩ := closing_ne hclosing
  cases h with
  | emptyBody hb =>
    rw [← hrest] at hn hl hr hp
    exact closed_of_breaks hb hts hn hl hr hp
  | bodyCons hb hf hc hr he =>
    obtain ⟨mid, hbreaks, hmid⟩ := consumes_append.1 hts
    obtain ⟨token, tail, rfl, ho⟩ := exists_head hf
    rw [← show peek mid = token from hmid.peek] at ho
    obtain ⟨hn, -, -, -, -, hl, hr, hp⟩ := opens_ne ho
    exact closed_of_breaks hb hbreaks hn hl hr hp

private theorem complete_emptyBody {breaks : List Token} (hb : LineBreaks breaks) :
    Complete (.body []) breaks := by
  intro closing steps ts rest hclosing hs hts hrest
  obtain _ | steps := steps
  · omega
  have hskip : skipNewlines ts = rest :=
    skipNewlines_eq hb hts (by rw [hrest]; exact (closing_ne hclosing).1)
  rw [statements, hskip, if_pos hrest]
  rfl

/-- What stands behind a statement: perhaps a comma, and then the rest of the body. -/
private theorem terminator_of_body {closing : Token} {ts rest : Tokens} {comma us : List Token}
    {entries : List (Entry Tree)} (hclosing : closing = .rbrace ∨ closing = .eof)
    (hc : comma = [] ∨ comma = [.comma]) (h : Derives (.body entries) us)
    (he : us = [] ∨ us.head? = some .newline) (hts : Consumes ts rest (comma ++ us))
    (hrest : peek rest = closing) :
    Closed ts ∧ ∃ mid, Consumes mid rest us ∧ terminator closing ts = .ok mid := by
  have hend {mid : Tokens} (hu : Consumes mid rest us) :
      peek mid = .newline ∨ peek mid = closing := by
    rcases he with rfl | he
    · rw [consumes_nil.1 hu]
      exact .inr hrest
    · obtain ⟨tail, rfl⟩ := List.head?_eq_some_iff.1 he
      exact .inl hu.peek
  rcases hc with rfl | rfl
  · refine ⟨closed_of_body hclosing h hts hrest, ts, hts, ?_⟩
    have hcomma : peek ts ≠ .comma := by
      rcases hend hts with hp | hp <;> rw [hp]
      · decide
      · exact (closing_ne hclosing).2.1
    unfold terminator
    dsimp only
    rw [if_neg hcomma, if_pos ((hend hts).imp_right .inr)]
  · have hpast : skipNewlines ts = ts := skipNewlines_of_peek_ne (by rw [hts.peek]; decide)
    refine ⟨by simp [Closed, peekPast, hpast, hts.peek], ts.tail, hts.tail, ?_⟩
    unfold terminator
    dsimp only
    rw [if_pos hts.peek, if_pos ((hend hts.tail).imp_right .inr)]

private theorem complete_bodyCons {breaks first comma rest : List Token} {entry : Entry Tree}
    {entries : List (Entry Tree)} (hb : LineBreaks breaks) (hf : Derives (.statement entry) first)
    (hc : comma = [] ∨ comma = [.comma]) (hr : Derives (.body entries) rest)
    (he : rest = [] ∨ rest.head? = some .newline) (ihf : Complete (.statement entry) first)
    (ihr : Complete (.body entries) rest) :
    Complete (.body (entry :: entries)) (breaks ++ (first ++ (comma ++ rest))) := by
  intro closing steps ts ts' hclosing hs hts hrest
  obtain ⟨ts₁, h₁, hts⟩ := consumes_append.1 hts
  obtain ⟨ts₂, h₂, hts⟩ := consumes_append.1 hts
  obtain ⟨hclosed, ts₃, h₃, hterminator⟩ := terminator_of_body hclosing hc hr he hts hrest
  obtain ⟨token, tail, rfl, ho⟩ := exists_head hf
  simp only [List.length_append, List.length_cons] at hs
  have hpeek : peek ts₁ = token := h₂.peek
  have hopens : opens (peek ts₁) = true := by rwa [hpeek]
  have hskip : skipNewlines ts = ts₁ := skipNewlines_eq hb h₁ (opens_ne hopens).1
  obtain _ | steps := steps
  · omega
  have hstatement : statement steps ts₁ = .ok (entry, ts₂) :=
    ihf (by simp only [List.length_cons]; omega) h₂ hclosed
  have hothers : statements steps closing ts₃ = .ok (entries, ts') :=
    ihr hclosing (by omega) h₃ hrest
  rw [statements, hskip, if_neg ?_, if_neg (opens_ne hopens).2.1]
  · exact bind_eq_ok_iff.2 ⟨_, hstatement, bind_eq_ok_iff.2
      ⟨_, hterminator, bind_eq_ok_iff.2 ⟨_, hothers, rfl⟩⟩⟩
  · intro h
    rw [h, (closing_ne hclosing).2.2.1] at hopens
    cases hopens

theorem complete {phrase : Phrase} {us : List Token} (h : Derives phrase us) :
    Complete phrase us := by
  induction h with
  | emptyBody hb => exact complete_emptyBody hb
  | bodyCons hb hf hc hr he ihf ihr => exact complete_bodyCons hb hf hc hr he ihf ihr
  | callStatement h ih => exact complete_callStatement h ih
  | assignment hk hb h ih => exact complete_assignment hk hb h ih
  | block hk h ih => exact complete_block hk ih
  | unpiped h ih => exact complete_unpiped h ih
  | rightPiped h hc hn ih ihc => exact complete_rightPiped h hn ih ihc
  | leftPiped hc h ihc ih => exact complete_leftPiped hc h ihc ih
  | noRightPipe => exact fun hs hts hrest =>
      consumes_nil.1 hts ▸ rightCalls_of_closed (by omega) (consumes_nil.1 hts ▸ hrest)
  | rightPipe hb ha h hc ih ihc => exact complete_rightPipe hb ha h hc ih ihc
  | lastLeftPipe h hb ha ih => exact complete_lastLeftPipe hb ha ih
  | leftPipe h hb ha hc ih ihc => exact complete_leftPipe hb ha hc ih ihc
  | scalar h => exact complete_scalar h
  | emptyArray hb => exact complete_emptyArray hb
  | array hb h ih => exact complete_array hb h ih
  | emptyMap hb => exact complete_emptyMap hb
  | map hb h ih => exact complete_map hb h ih
  | lastItem h hb hc ih => exact complete_lastItem hb hc ih
  | item h hb ha ht ih iht => exact complete_item hb ha ht ih iht
  | lastMember hk hb ha h hr hc ih => exact complete_lastMember hk hb ha h hr hc ih
  | member hk hb ha h hr hr' he ih ihe => exact complete_member hk hb ha h hr hr' he ih ihe
  | bareCall name => exact complete_call_bare name
  | emptyCall name hb => exact complete_call_empty hb
  | fullCall name hb h hp ih => exact complete_call_full hb h hp ih

private theorem eq_of_append_last {ts front rest : Tokens} {last : Token.Placed}
    (hl : last.token = .eof) (ht : ∀ placed ∈ ts, placed.token ≠ .eof)
    (hf : ∀ placed ∈ front, placed.token ≠ .eof) (hp : peek rest = .eof)
    (h : ts ++ [last] = front ++ rest) : ts = front := by
  rcases List.append_eq_append_iff.1 h with ⟨between, rfl, hr⟩ | ⟨between, rfl, rfl⟩
  · cases between with
    | nil => simp
    | cons placed between =>
      obtain ⟨rfl, -⟩ := List.cons.inj hr
      exact absurd hl (hf last (by simp))
  · cases between with
    | nil => simp
    | cons placed between => exact absurd hp (ht placed (by simp))

/-- Up to the end of the input, exactly the texts of the grammar are read, each as the tree it
stands for. -/
theorem ofTokens_eq_ok_iff {ts : Tokens} {last : Token.Placed} (hl : last.token = .eof)
    (ht : ∀ placed ∈ ts, placed.token ≠ .eof) (tree : Tree) :
    ofTokens (ts ++ [last]) = .ok tree ↔
      Document ((ts ++ [last]).map Token.Placed.token) tree := by
  constructor
  · intro h
    obtain ⟨⟨entries, rest⟩, hs, h⟩ := bind_eq_ok_iff.1 h
    cases h
    obtain ⟨us, ⟨front, hsplit, rfl⟩, hd, hp⟩ := (sound _).statements (by decide) hs
    have hfront : ∀ placed ∈ front, placed.token ≠ .eof := fun placed hp he =>
      eof_not_mem_of_derives hd (he ▸ List.mem_map_of_mem hp)
    refine ⟨entries, front.map Token.Placed.token, rfl, ?_, hd⟩
    rw [eq_of_append_last hl ht hfront hp hsplit, List.map_append, List.map_singleton, hl]
  · rintro ⟨entries, body, rfl, hus, hd⟩
    rw [List.map_append, List.map_singleton, hl] at hus
    have hbody : ts.map Token.Placed.token = body := List.append_cancel_right hus
    have hc : Consumes (ts ++ [last]) [last] body := ⟨ts, rfl, hbody⟩
    have hs : statements (4 * (ts ++ [last]).length + 4) .eof (ts ++ [last]) =
        .ok (entries, [last]) :=
      complete hd (.inr rfl) (by simp [← hbody]; omega) hc hl
    exact bind_eq_ok_iff.2 ⟨_, hs, rfl⟩

/-- Two calls on the left of an array, over several lines, and a block behind it: the call next to
the array comes first. -/
theorem document_of_leftPipes :
    Document [.ident "a", .equals, .atSign, .ident "f", .pipeLeft, .newline, .atSign, .ident "g",
        .lparen, .rawString "s", .comma, .newline, .rparen, .pipeLeft, .lbracket, .newline,
        .bool true, .comma, .rbracket, .comma, .newline, .ident "b", .lbrace, .rbrace, .eof]
      (.block [⟨"a", .piped (.array [.boolean true]) [⟨"g", [.rawString "s"]⟩, ⟨"f", []⟩]⟩,
        ⟨"b", .block []⟩]) :=
  (@ofTokens_eq_ok_iff [⟨.ident "a", 1, 1⟩, ⟨.equals, 1, 3⟩, ⟨.atSign, 1, 5⟩,
      ⟨.ident "f", 1, 6⟩, ⟨.pipeLeft, 1, 8⟩, ⟨.newline, 1, 10⟩, ⟨.atSign, 2, 1⟩, ⟨.ident "g", 2, 2⟩,
      ⟨.lparen, 2, 3⟩, ⟨.rawString "s", 2, 4⟩, ⟨.comma, 2, 7⟩, ⟨.newline, 2, 8⟩, ⟨.rparen, 3, 1⟩,
      ⟨.pipeLeft, 3, 3⟩, ⟨.lbracket, 3, 6⟩, ⟨.newline, 3, 7⟩, ⟨.bool true, 4, 1⟩, ⟨.comma, 4, 5⟩,
      ⟨.rbracket, 4, 6⟩, ⟨.comma, 4, 7⟩, ⟨.newline, 4, 8⟩, ⟨.ident "b", 5, 1⟩, ⟨.lbrace, 5, 3⟩,
      ⟨.rbrace, 5, 4⟩] ⟨.eof, 5, 5⟩ rfl (by decide) _).1 rfl

end ConfigDoc.Tree
