import ConfigDoc.Proofs.Text.Natural
import ConfigDoc.Proofs.Token.Blanks

namespace ConfigDoc.Token

def IsName (cs : List Char) : Prop :=
  ∃ c rest, cs = c :: rest ∧ startsName c = true ∧ ∀ d ∈ rest, isNameChar d = true

def boolWords : Bool → List String
  | true => ["true", "yes"]
  | false => ["false", "no"]

/-- Whether a text consists of digits, at least one, with at most one point among, before or behind
them. -/
def IsMagnitude (cs : List Char) : Prop :=
  ∃ whole point fraction, cs = whole ++ (point ++ fraction) ∧ (point = [] ∨ point = ['.']) ∧
    whole ++ fraction ≠ [] ∧ ∀ c ∈ whole ++ fraction, c.isDigit = true

def IsLiteral (cs : List Char) : Prop :=
  ∃ magnitude, IsMagnitude magnitude ∧ (cs = magnitude ∨ cs = '-' :: magnitude)

def escape (quote : Char) (cs : List Char) : List Char :=
  cs.flatMap fun c => if c = '\\' ∨ c = quote then ['\\', c] else [c]

def enclose (quote : Char) (s : String) : List Char := quote :: (escape quote s.toList ++ [quote])

def mark? : Token → Option (List Char)
  | .equals => some ['=']
  | .colon => some [':']
  | .comma => some [',']
  | .lbrace => some ['\x7b']
  | .rbrace => some ['\x7d']
  | .lbracket => some ['[']
  | .rbracket => some [']']
  | .lparen => some ['(']
  | .rparen => some [')']
  | .atSign => some ['@']
  | .pipeRight => some ['|', '>']
  | .pipeLeft => some ['<', '|']
  | .newline => some ['\n']
  | _ => none

/-- Which texts a token is written as. A number has no text of its own: any literal that is read as
the number will do. -/
inductive Spells : List Char → Token → Prop where
  | name {cs : List Char} (h : IsName cs) (hb : ∀ b, String.ofList cs ∉ boolWords b) :
      Spells cs (.ident (String.ofList cs))
  | bool {b : Bool} {word : String} (h : word ∈ boolWords b) : Spells word.toList (.bool b)
  | rawString (s : String) : Spells (enclose '\'' s) (.rawString s)
  | complexString (s : String) : Spells (enclose '"' s) (.complexString s)
  | number {cs : List Char} {x : Number} (h : IsLiteral cs)
      (hx : Number.ofText? (String.ofList cs) = some x) : Spells cs (.number x)
  | mark {cs : List Char} {token : Token} (h : mark? token = some cs) : Spells cs token

def Ends (rest : List Char) : Prop := ∀ c, rest.head? = some c → isSpacing c = true

variable {c : Char} {cs rest : List Char} {token : Token}

theorem cases_of_isSpacing (h : isSpacing c = true) : c = ' ' ∨ c = '\t' ∨ c = '\r' := by
  simpa [isSpacing, or_assoc] using h

theorem Ends.stops {p : Char → Bool} (hp : p ' ' = false ∧ p '\t' = false ∧ p '\r' = false)
    (h : Ends rest) : ∀ c, rest.head? = some c → p c = false := by
  intro c hc
  rcases cases_of_isSpacing (h c hc) with rfl | rfl | rfl
  · exact hp.1
  · exact hp.2.1
  · exact hp.2.2

theorem splitContents_escape {quote : Char} (hq : quote ≠ '\\') (cs rest : List Char) :
    splitContents quote (escape quote cs ++ quote :: rest) = (escape quote cs, quote :: rest) := by
  induction cs with
  | nil => cases rest <;> simp [escape, splitContents]
  | cons c cs ih =>
    by_cases hc : c = '\\' ∨ c = quote
    · have he : escape quote (c :: cs) = '\\' :: c :: escape quote cs := by simp [escape, hc]
      rw [he, List.cons_append, List.cons_append, splitContents, if_neg hq.symm, if_pos rfl, ih]
    · have he : escape quote (c :: cs) = c :: escape quote cs := by simp [escape, hc]
      obtain ⟨hb, hn⟩ := not_or.1 hc
      obtain ⟨next, tail, hs⟩ : ∃ next tail, escape quote cs ++ quote :: rest = next :: tail :=
        List.exists_cons_of_ne_nil (by simp)
      rw [he, List.cons_append, hs, splitContents, if_neg hn, if_neg hb, ← hs, ih]

theorem unescape_escape {quote : Char} (hq : quote ≠ 'n' ∧ quote ≠ 't' ∧ quote ≠ 'r')
    (cs : List Char) : unescape (escape quote cs) = cs := by
  induction cs with
  | nil => rfl
  | cons c cs ih =>
    by_cases hc : c = '\\' ∨ c = quote
    · have he : escape quote (c :: cs) = '\\' :: c :: escape quote cs := by simp [escape, hc]
      have hself : escaped c = c := by
        rcases hc with rfl | rfl
        · rfl
        · simp [escaped, hq]
      rw [he, unescape, ih, hself]
    · have he : escape quote (c :: cs) = c :: escape quote cs := by simp [escape, hc]
      rw [he, unescape, ih]
      intro _ _ hd _
      exact hc (.inl hd)

def IsQuote (c : Char) : Prop := c = '"' ∨ c = '\''

theorem scanString_enclose {quote : Char} (hq : IsQuote quote) (s : String) (rest : List Char) :
    scanString quote (escape quote s.toList ++ quote :: rest) =
      ⟨.ok (if quote = '"' then .complexString s else .rawString s), enclose quote s, rest⟩ := by
  have hbackslash : quote ≠ '\\' := by rcases hq with rfl | rfl <;> decide
  have hletters : quote ≠ 'n' ∧ quote ≠ 't' ∧ quote ≠ 'r' := by rcases hq with rfl | rfl <;> decide
  have hsplit := splitContents_escape hbackslash s.toList rest
  have hunescape := unescape_escape hletters s.toList
  simp only [scanString, hsplit, hunescape, String.ofList_toList]
  rfl

/-- The characters that make a token, or start one, whatever comes after them. -/
def reserved : List Char :=
  ['\n', '=', ':', ',', '\x7b', '\x7d', '[', ']', '(', ')', '@', '|', '<', '"', '\'']

theorem scan_of_not_reserved (hc : c ∉ reserved) (rest : List Char) :
    scan c rest = if startsNumber (c :: rest) then scanNumber (c :: rest)
      else if startsName c then scanName (c :: rest)
      else ⟨.error (.unexpectedCharacter c), [c], rest⟩ := by
  simp only [reserved, List.mem_cons, List.not_mem_nil, or_false, not_or] at hc
  have hs : symbol? c = none := by
    unfold symbol?
    split <;> simp_all
  have hp : pipe? c rest = none := by
    unfold pipe?
    split <;> simp_all
  have hq : ¬ (c = '"' || c = '\'') = true := by simp [hc]
  rw [scan, hs]
  dsimp only
  rw [hp]
  exact if_neg hq

theorem not_reserved_of {p : Char → Bool} (hp : reserved.any p = false) (h : p c = true) :
    c ∉ reserved := fun hc => List.any_eq_false.1 hp c hc h

theorem not_isDigit_of_startsName (h : startsName c = true) : c.isDigit = false := by
  have hdigits : ∀ n < 10, startsName n.digitChar = false := by decide
  rw [Bool.eq_false_iff]
  intro hd
  obtain ⟨hlt, hc⟩ := Text.digitChar_of_isDigit hd
  rw [← hc, hdigits _ hlt] at h
  cases h

theorem startsNumber_cons (hp : c ≠ '.') (hm : c ≠ '-') (rest : List Char) :
    startsNumber (c :: rest) = c.isDigit := by
  unfold startsNumber
  split
  · rename_i he
    exact absurd (List.cons.inj he).1 hp
  · rename_i he
    exact absurd (List.cons.inj he).1 hm
  · rename_i he
    cases he
    rfl
  · contradiction

theorem not_startsNumber_of_startsName (h : startsName c = true) (rest : List Char) :
    startsNumber (c :: rest) = false := by
  rw [startsNumber_cons (by rintro rfl; cases h) (by rintro rfl; cases h)]
  exact not_isDigit_of_startsName h

theorem isNameChar_of_startsName (h : startsName c = true) : isNameChar c = true := by
  simp only [startsName, Bool.or_eq_true, decide_eq_true_eq] at h
  rcases h with h | h <;> simp [isNameChar, Text.isAlphanumeric, h]

theorem scan_of_name (h : IsName cs) (hr : Ends rest) :
    ∃ c tail, cs = c :: tail ∧ scan c (tail ++ rest) =
      ⟨.ok (ofName (String.ofList cs)), cs, rest⟩ := by
  obtain ⟨c, tail, rfl, hc, ht⟩ := h
  have hspan : (c :: tail ++ rest).takeWhile isNameChar = c :: tail ∧
      (c :: tail ++ rest).dropWhile isNameChar = rest :=
    span_append (List.forall_mem_cons.2 ⟨isNameChar_of_startsName hc, ht⟩) (hr.stops (by decide))
  refine ⟨c, tail, rfl, ?_⟩
  rw [scan_of_not_reserved (not_reserved_of (by decide) hc),
    if_neg (Bool.eq_false_iff.1 (not_startsNumber_of_startsName hc _)), if_pos hc, scanName,
    ← List.cons_append, hspan.1, hspan.2]

theorem startsNumber_of_isDigit (h : c.isDigit = true) (rest : List Char) :
    startsNumber (c :: rest) = true := by
  rwa [startsNumber_cons (by rintro rfl; cases h) (by rintro rfl; cases h)]

theorem IsMagnitude.isNumberChar (h : IsMagnitude cs) : ∀ c ∈ cs, isNumberChar c = true := by
  obtain ⟨whole, point, fraction, rfl, hp, -, hd⟩ := h
  intro c hm
  rcases List.mem_append.1 hm with hm | hm
  · simp [Token.isNumberChar, hd c (List.mem_append_left _ hm)]
  · rcases List.mem_append.1 hm with hm | hm
    · rcases hp with rfl | rfl <;> simp_all [Token.isNumberChar]
    · simp [Token.isNumberChar, hd c (List.mem_append_right _ hm)]

theorem IsMagnitude.startsNumber (h : IsMagnitude cs) (rest : List Char) :
    startsNumber (cs ++ rest) = true := by
  obtain ⟨whole, point, fraction, rfl, hp, hn, hd⟩ := h
  cases whole with
  | cons c whole => exact startsNumber_of_isDigit (hd c (by simp)) _
  | nil =>
    obtain ⟨c, tail, rfl⟩ := List.exists_cons_of_ne_nil hn
    have hdigit : c.isDigit = true := hd c (by simp)
    rcases hp with rfl | rfl
    · exact startsNumber_of_isDigit hdigit _
    · exact hdigit

theorem IsMagnitude.exists_head (h : IsMagnitude cs) :
    ∃ c tail, cs = c :: tail ∧ Token.isNumberChar c = true := by
  obtain ⟨c, tail, rfl⟩ := List.exists_cons_of_ne_nil (l := cs) (by
    rintro rfl
    cases h.startsNumber [])
  exact ⟨c, tail, rfl, h.isNumberChar c List.mem_cons_self⟩

theorem ne_sign_of_isNumberChar (h : isNumberChar c = true) : c ≠ '-' ∧ c ≠ '+' := by
  constructor <;> rintro rfl <;> cases h

theorem splitNumber_of_literal (h : IsLiteral cs) (hr : Ends rest) :
    splitNumber (cs ++ rest) = (cs, rest) := by
  obtain ⟨magnitude, hm, hcs⟩ := h
  obtain ⟨htake, hdrop⟩ := span_append hm.isNumberChar (hr.stops (p := isNumberChar) (by decide))
  rcases hcs with rfl | rfl
  · obtain ⟨c, tail, rfl, hc⟩ := hm.exists_head
    unfold splitNumber
    split
    · rename_i he
      exact absurd (List.cons.inj he).1 (ne_sign_of_isNumberChar hc).1
    · rw [htake, hdrop]
  · rw [List.cons_append, splitNumber, htake, hdrop]

/-- The sign does not keep a literal from being told by its first characters. -/
theorem exists_head_of_literal (h : IsLiteral cs) : ∃ c tail, cs = c :: tail ∧
    (isNumberChar c || c = '-') = true ∧ ∀ rest, startsNumber (c :: (tail ++ rest)) = true := by
  obtain ⟨magnitude, hm, hcs⟩ := h
  obtain ⟨c, tail, rfl, hc⟩ := hm.exists_head
  rcases hcs with rfl | rfl
  · exact ⟨c, tail, rfl, by rw [hc, Bool.true_or], hm.startsNumber⟩
  · exact ⟨'-', c :: tail, rfl, rfl, fun _ => hc⟩

theorem scan_of_literal {x : Number} (h : IsLiteral cs)
    (hx : Number.ofText? (String.ofList cs) = some x) (hr : Ends rest) :
    ∃ c tail, cs = c :: tail ∧ scan c (tail ++ rest) = ⟨.ok (.number x), cs, rest⟩ := by
  have hsplit := splitNumber_of_literal h hr
  obtain ⟨c, tail, rfl, hc, hstarts⟩ := exists_head_of_literal h
  refine ⟨c, tail, rfl, ?_⟩
  have hfree : (reserved.any fun d => isNumberChar d || d = '-') = false := by decide
  rw [scan_of_not_reserved (not_reserved_of hfree hc), if_pos (hstarts rest), ← List.cons_append,
    scanNumber, hsplit]
  dsimp only
  rw [hx]

theorem magnitudeOfText?_of_magnitude (h : IsMagnitude cs) (negative : Bool) :
    ∃ x, Number.magnitudeOfText? negative cs = some x := by
  obtain ⟨whole, point, fraction, rfl, hp, hn, hd⟩ := h
  unfold Number.magnitudeOfText?
  rcases hp with rfl | rfl
  · rw [List.nil_append, List.takeWhile_eq_self_iff.2 hd, List.dropWhile_eq_nil_iff.2 hd]
    dsimp only
    rw [if_neg fun he => hn he.1]
    exact ⟨_, rfl⟩
  · have hwhole : ∀ c ∈ whole, c.isDigit = true := fun c hc => hd c (List.mem_append_left _ hc)
    have hfraction : ∀ c ∈ fraction, c.isDigit = true :=
      fun c hc => hd c (List.mem_append_right _ hc)
    have hpoint : ∀ c, ('.' :: fraction).head? = some c → c.isDigit = false := by
      rintro c ⟨⟩
      rfl
    obtain ⟨htake, hdrop⟩ := span_append hwhole hpoint
    rw [List.singleton_append, htake, hdrop]
    simp only [List.takeWhile_eq_self_iff.2 hfraction, List.dropWhile_eq_nil_iff.2 hfraction]
    rw [if_neg fun he => hn (by rw [he.1, he.2, List.nil_append])]
    exact ⟨_, rfl⟩

theorem toLower_ne_of_isNumberChar (h : isNumberChar c = true) :
    c.toLower ≠ 'n' ∧ c.toLower ≠ 'i' := by
  have hdigits : ∀ n < 10, n.digitChar.toLower ≠ 'n' ∧ n.digitChar.toLower ≠ 'i' := by decide
  simp only [isNumberChar, Bool.or_eq_true, decide_eq_true_eq] at h
  rcases h with h | rfl
  · obtain ⟨hlt, hc⟩ := Text.digitChar_of_isDigit h
    exact hc ▸ hdigits _ hlt
  · decide

theorem ofText?_of_literal (h : IsLiteral cs) :
    ∃ x, Number.ofText? (String.ofList cs) = some x := by
  obtain ⟨magnitude, hm, hcs⟩ := h
  obtain ⟨c, tail, rfl, hc⟩ := hm.exists_head
  obtain ⟨negative, hsign⟩ : ∃ negative, Number.splitSign cs = (negative, c :: tail) := by
    rcases hcs with rfl | rfl
    · refine ⟨false, ?_⟩
      unfold Number.splitSign
      split
      · rename_i he
        exact absurd (List.cons.inj he).1 (ne_sign_of_isNumberChar hc).1
      · rename_i he
        exact absurd (List.cons.inj he).1 (ne_sign_of_isNumberChar hc).2
      · rfl
    · exact ⟨true, rfl⟩
  obtain ⟨hn, hi⟩ := toLower_ne_of_isNumberChar hc
  have hword : ∀ d more, d ≠ c.toLower →
      String.ofList ((c :: tail).map Char.toLower) ≠ String.ofList (d :: more) := by
    intro d more hd he
    exact hd (List.cons.inj (String.ofList_inj.1 he)).1.symm
  have hwords : ¬ String.ofList ((c :: tail).map Char.toLower) = "nan" ∧
      ¬ (String.ofList ((c :: tail).map Char.toLower) = "inf" ∨
        String.ofList ((c :: tail).map Char.toLower) = "infinity") :=
    ⟨hword _ _ hn.symm, not_or.2 ⟨hword _ _ hi.symm, hword _ _ hi.symm⟩⟩
  rw [Number.ofText?, String.toList_ofList, hsign]
  dsimp only
  rw [if_neg hwords.1, if_neg hwords.2]
  exact magnitudeOfText?_of_magnitude hm negative

/-- Nothing that is skipped starts a token. -/
theorem not_skipped_of_scan (h : (scan c rest).result = .ok token) :
    isSpacing c = false ∧ c ≠ '#' := by
  constructor
  · rw [Bool.eq_false_iff]
    intro hc
    rcases cases_of_isSpacing hc with rfl | rfl | rfl <;> cases h
  · rintro rfl
    cases h

theorem scan_of_quote {quote : Char} (hq : IsQuote quote) (s : String) (rest : List Char) :
    scan quote (escape quote s.toList ++ [quote] ++ rest) =
      ⟨.ok (if quote = '"' then .complexString s else .rawString s), enclose quote s, rest⟩ := by
  have hscan : ∀ cs, scan quote cs = scanString quote cs := by
    intro cs
    rcases hq with rfl | rfl <;> rfl
  rw [hscan, List.append_assoc, List.singleton_append, scanString_enclose hq]

theorem scan_of_mark (h : mark? token = some cs) :
    ∃ c tail, cs = c :: tail ∧ scan c (tail ++ rest) = ⟨.ok token, cs, rest⟩ := by
  cases token <;> cases h <;> exact ⟨_, _, rfl, rfl⟩

theorem eq_of_spells_newline (h : Spells cs .newline) : cs = ['\n'] := by
  cases h with
  | mark h =>
    cases h
    rfl

theorem isName_of_boolWord {b : Bool} {word : String} (h : word ∈ boolWords b) :
    IsName word.toList ∧ ofName word = .bool b := by
  cases b with
  | false =>
    rcases List.mem_pair.1 h with rfl | rfl
    · exact ⟨⟨'f', ['a', 'l', 's', 'e'], rfl, rfl, List.all_eq_true.1 rfl⟩, rfl⟩
    · exact ⟨⟨'n', ['o'], rfl, rfl, List.all_eq_true.1 rfl⟩, rfl⟩
  | true =>
    rcases List.mem_pair.1 h with rfl | rfl
    · exact ⟨⟨'t', ['r', 'u', 'e'], rfl, rfl, List.all_eq_true.1 rfl⟩, rfl⟩
    · exact ⟨⟨'y', ['e', 's'], rfl, rfl, List.all_eq_true.1 rfl⟩, rfl⟩

/-- A token that is written before a blank, or at the end, is the first lexeme there. -/
theorem scan_of_spells (h : Spells cs token) (hr : Ends rest) :
    ∃ c tail, cs = c :: tail ∧ scan c (tail ++ rest) = ⟨.ok token, cs, rest⟩ := by
  cases h with
  | @name _ h hb =>
    have htoken : ofName (String.ofList cs) = .ident (String.ofList cs) := by
      have ht := hb true
      have hf := hb false
      simp only [boolWords, List.mem_pair] at ht hf
      rw [ofName, if_neg ht, if_neg hf]
    rw [← htoken]
    exact scan_of_name h hr
  | @bool b word h =>
    obtain ⟨hname, htoken⟩ := isName_of_boolWord h
    have hscan := scan_of_name hname hr
    rwa [String.ofList_toList, htoken] at hscan
  | rawString s => exact ⟨_, _, rfl, scan_of_quote (.inr rfl) s rest⟩
  | complexString s => exact ⟨_, _, rfl, scan_of_quote (.inl rfl) s rest⟩
  | number h hx => exact scan_of_literal h hx hr
  | mark h => exact scan_of_mark h

end ConfigDoc.Token
