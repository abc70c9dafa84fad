import ConfigDoc.Path.Text

/-! Path texts in which every bracket is closed: what follows them is read on its own. -/

namespace ConfigDoc.Path

inductive Quote where
  | double
  | single
  deriving DecidableEq

namespace Quote

def char : Quote → Char
  | double => '"'
  | single => '\''

def closing (quote : Quote) : List Char := [quote.char, ']']

end Quote

theorem splitBracket_append {inner : List Char} (h : ']' ∉ inner) (rest : List Char) :
    splitBracket (inner ++ ']' :: rest) = (inner, rest) := by
  induction inner with
  | nil => exact if_pos rfl
  | cons c inner ih =>
    have hc : c ≠ ']' := (List.ne_of_not_mem_cons h).symm
    rw [List.cons_append, splitBracket, if_neg hc, ih (List.not_mem_of_not_mem_cons h)]

theorem splitQuoted_append {quote : Quote} {inner : List Char} (h : ¬ quote.closing <:+: inner)
    (rest : List Char) :
    splitQuoted quote.char (inner ++ quote.closing ++ rest) = (inner, rest) := by
  induction inner with
  | nil => exact if_pos ⟨rfl, rfl⟩
  | cons c inner ih =>
    have hrest := ih fun hi => h (List.infix_cons_iff.2 (.inr hi))
    have hquote : quote.char ≠ ']' := by cases quote <;> decide
    cases inner with
    | nil =>
      have hends : ¬ (c = quote.char ∧ quote.char = ']') := fun hc => hquote hc.2
      exact (if_neg hends).trans (congrArg (fun split => (c :: split.1, split.2)) hrest)
    | cons next inner =>
      have hends : ¬ (c = quote.char ∧ next = ']') := by
        rintro ⟨rfl, rfl⟩
        exact h (List.infix_cons_iff.2 (.inl (List.prefix_append quote.closing inner)))
      exact (if_neg hends).trans (congrArg (fun split => (c :: split.1, split.2)) hrest)

theorem splitSegment_quoted {quote : Quote} {inner : List Char} (h : ¬ quote.closing <:+: inner)
    (rest : List Char) :
    splitSegment (quote.char :: (inner ++ quote.closing ++ rest)) =
      (.key (String.ofList inner), rest) := by
  have hsplit := splitQuoted_append h rest
  cases quote with
  | double => exact congrArg (fun split => (Segment.key (String.ofList split.1), split.2)) hsplit
  | single => exact congrArg (fun split => (Segment.key (String.ofList split.1), split.2)) hsplit

theorem splitSegment_bracket {inner : List Char}
    (hq : ∀ quote : Quote, inner.head? ≠ some quote.char) (h : ']' ∉ inner) (rest : List Char) :
    splitSegment (inner ++ ']' :: rest) = (segmentOfBracket inner, rest) := by
  have hsplit := splitBracket_append h rest
  have hhead : ∀ quote : Quote, ∀ tail, inner ++ ']' :: rest ≠ quote.char :: tail := by
    intro quote tail he
    cases inner with
    | nil => cases quote <;> cases he
    | cons c inner => exact hq quote (congrArg List.head? he)
  unfold splitSegment
  split
  · rename_i he
    exact absurd he (hhead .double _)
  · rename_i he
    exact absurd he (hhead .single _)
  · rw [hsplit]

/-- Whether every bracket that is opened in a text is closed in it. -/
inductive Closed : List Char → Prop
  | nil : Closed []
  | char {c : Char} {cs : List Char} (hc : c ≠ '[') (h : Closed cs) : Closed (c :: cs)
  | bracket {inner cs : List Char} (hq : ∀ quote : Quote, inner.head? ≠ some quote.char)
      (hi : ']' ∉ inner) (h : Closed cs) : Closed ('[' :: (inner ++ ']' :: cs))
  | quoted (quote : Quote) {inner cs : List Char} (hi : ¬ quote.closing <:+: inner)
      (h : Closed cs) : Closed ('[' :: quote.char :: (inner ++ quote.closing ++ cs))

theorem closed_of_not_mem {cs : List Char} (h : '[' ∉ cs) : Closed cs := by
  induction cs with
  | nil => exact .nil
  | cons c rest ih =>
    exact .char (List.ne_of_not_mem_cons h).symm (ih (List.not_mem_of_not_mem_cons h))

def Breaks (cs : List Char) : Prop := ∀ c, cs.head? = some c → c = '.' ∨ c = '['

theorem ofChars_nil (name : List Char) : ofChars name [] = ofName name := by rw [ofChars]

theorem ofChars_dot (name rest : List Char) :
    ofChars name ('.' :: rest) = ofName name ++ ofChars [] rest := by rw [ofChars]

theorem ofChars_bracket (name rest : List Char) :
    ofChars name ('[' :: rest) =
      ofName name ++ (splitSegment rest).1 :: ofChars [] (splitSegment rest).2 := by rw [ofChars]

theorem ofChars_char {c : Char} (hd : c ≠ '.') (hb : c ≠ '[') (name rest : List Char) :
    ofChars name (c :: rest) = ofChars (name ++ [c]) rest := by
  rw [ofChars]
  · exact hd
  · exact hb

theorem ofChars_of_breaks {rest : List Char} (h : Breaks rest) (name : List Char) :
    ofChars name rest = ofName name ++ ofChars [] rest := by
  cases rest with
  | nil => rw [ofChars_nil, ofChars_nil, show ofName [] = [] from rfl, List.append_nil]
  | cons c rest =>
    rcases h c rfl with rfl | rfl
    · rw [ofChars_dot, ofChars_dot]
      rfl
    · rw [ofChars_bracket, ofChars_bracket]
      rfl

/-- What stands behind a closed text is read as if it stood alone. -/
theorem ofChars_append {cs rest : List Char} (h : Closed cs) (hr : Breaks rest)
    (name : List Char) : ofChars name (cs ++ rest) = ofChars name cs ++ ofChars [] rest := by
  induction h generalizing name with
  | nil => rw [List.nil_append, ofChars_of_breaks hr, ofChars_nil]
  | @char c cs hc h ih =>
    rw [List.cons_append]
    by_cases hd : c = '.'
    · subst hd
      rw [ofChars_dot, ofChars_dot, ih, List.append_assoc]
    · rw [ofChars_char hd hc, ofChars_char hd hc, ih]
  | @bracket inner cs hq hi h ih =>
    rw [List.cons_append, List.append_assoc, List.cons_append, ofChars_bracket, ofChars_bracket,
      splitSegment_bracket hq hi, splitSegment_bracket hq hi, ih, List.append_assoc,
      List.cons_append]
  | @quoted quote inner cs hi h ih =>
    rw [List.cons_append, List.cons_append, List.append_assoc _ cs, ofChars_bracket,
      ofChars_bracket, splitSegment_quoted hi, splitSegment_quoted hi, ih, List.append_assoc,
      List.cons_append]

/-- A dotted name. -/
theorem ofChars_name {cs : List Char} (hd : '.' ∉ cs) (hb : '[' ∉ cs) (name : List Char) :
    ofChars name cs = ofName (name ++ cs) := by
  induction cs generalizing name with
  | nil => rw [ofChars_nil, List.append_nil]
  | cons c rest ih =>
    have hcd : c ≠ '.' := (List.ne_of_not_mem_cons hd).symm
    have hcb : c ≠ '[' := (List.ne_of_not_mem_cons hb).symm
    rw [ofChars_char hcd hcb, ih (List.not_mem_of_not_mem_cons hd)
      (List.not_mem_of_not_mem_cons hb), List.append_assoc, List.singleton_append]

end ConfigDoc.Path
