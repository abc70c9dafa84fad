import ConfigDoc.Proofs.Path.Closed
import ConfigDoc.Proofs.Text.Natural

namespace ConfigDoc.Path

/-- A segment as it is written: a position in brackets, a name behind a dot, or a name in quotes. -/
inductive Spelling where
  | index (position : Nat)
  | dotted (name : String)
  | quoted (quote : Quote) (name : String)

namespace Spelling

def segment : Spelling → Segment
  | .index position => .index position
  | .dotted name => .key name
  | .quoted _ name => .key name

def Allowed : Spelling → Prop
  | .index _ => True
  | .dotted name => name ≠ "" ∧ '.' ∉ name.toList ∧ '[' ∉ name.toList
  | .quoted quote name => ¬ quote.closing <:+: name.toList

/-- The text of a segment. No dot stands before a name that comes first. -/
def chars (first : Bool) : Spelling → List Char
  | .index position => '[' :: ((toString position).toList ++ [']'])
  | .dotted name => if first then name.toList else '.' :: name.toList
  | .quoted quote name => '[' :: quote.char :: (name.toList ++ quote.closing)

end Spelling

def written : List Spelling → String
  | [] => ""
  | first :: rest => String.ofList (first.chars true ++ rest.flatMap (Spelling.chars false))

variable {spelling : Spelling}

theorem not_quoted_of_digits {digits : List Char} (hd : ∀ c ∈ digits, c.isDigit = true)
    (quote : Quote) : digits.head? ≠ some quote.char := by
  intro h
  have hc := hd _ (List.mem_of_mem_head? h)
  cases quote <;> exact absurd hc (by decide)

theorem not_mem_bracket_of_digits {digits : List Char} (hd : ∀ c ∈ digits, c.isDigit = true) :
    ']' ∉ digits := fun h => absurd (hd _ h) (by decide)

theorem closed_chars (h : spelling.Allowed) (first : Bool) : Closed (spelling.chars first) := by
  cases spelling with
  | index position =>
    have hd := Text.isDigit_toString position
    exact .bracket (not_quoted_of_digits hd) (not_mem_bracket_of_digits hd) .nil
  | dotted name =>
    have hname : Closed name.toList := closed_of_not_mem h.2.2
    cases first with
    | true => exact hname
    | false => exact .char (by decide) hname
  | quoted quote name =>
    have hquoted := Closed.quoted quote h .nil
    rwa [List.append_nil] at hquoted

theorem breaks_flatMap (spellings : List Spelling) :
    Breaks (spellings.flatMap (Spelling.chars false)) := by
  cases spellings with
  | nil => exact nofun
  | cons spelling rest =>
    intro c hc
    cases spelling with
    | index position => exact .inr (Option.some.inj hc).symm
    | dotted name => exact .inl (Option.some.inj hc).symm
    | quoted quote name => exact .inr (Option.some.inj hc).symm

/-- Digits in brackets are a position, unless it is beyond all positions. -/
theorem segmentOfBracket_of_digits {digits : List Char} (hn : digits ≠ [])
    (hd : ∀ c ∈ digits, c.isDigit = true) :
    segmentOfBracket digits = if Text.digitsValue digits < positionBound then
      .index (Text.digitsValue digits) else .key (String.ofList digits) := by
  rw [segmentOfBracket, Text.trim_of_digits hd, Text.natural?_of_digits hn hd]

theorem ofChars_chars (h : spelling.Allowed)
    (hp : ∀ position, spelling.segment = .index position → position < positionBound)
    (first : Bool) : ofChars [] (spelling.chars first) = [spelling.segment] := by
  cases spelling with
  | index position =>
    have hd := Text.isDigit_toString position
    rw [Spelling.chars, ofChars_bracket, splitSegment_bracket (not_quoted_of_digits hd)
      (not_mem_bracket_of_digits hd), ofChars_nil,
      segmentOfBracket_of_digits (Text.toString_ne_nil position) hd, Text.digitsValue_toString,
      if_pos (hp position rfl)]
    rfl
  | dotted name =>
    obtain ⟨hn, hd, hb⟩ := h
    have hname : ofChars [] name.toList = [.key name] := by
      rw [ofChars_name hd hb, List.nil_append, ofName, if_neg (mt String.toList_eq_nil_iff.1 hn),
        String.ofList_toList]
    cases first with
    | true => exact hname
    | false =>
      change ofChars [] ('.' :: name.toList) = _
      rw [ofChars_dot, hname]
      rfl
  | quoted quote name =>
    have hsplit := splitSegment_quoted h []
    rw [List.append_nil] at hsplit
    rw [Spelling.chars, ofChars_bracket, hsplit, ofChars_nil, String.ofList_toList]
    rfl

theorem ofChars_flatMap {spellings : List Spelling} (h : ∀ s ∈ spellings, s.Allowed)
    (hp : ∀ position, .index position ∈ spellings.map Spelling.segment → position < positionBound) :
    ofChars [] (spellings.flatMap (Spelling.chars false)) = spellings.map Spelling.segment := by
  induction spellings with
  | nil => exact ofChars_nil []
  | cons spelling rest ih =>
    obtain ⟨hs, hrest⟩ := List.forall_mem_cons.1 h
    rw [List.flatMap_cons, ofChars_append (closed_chars hs false) (breaks_flatMap rest),
      ofChars_chars hs fun position he => hp position (he ▸ List.mem_cons_self),
      ih hrest fun position hm => hp position (List.mem_cons_of_mem _ hm)]
    rfl

theorem ofText_of_allowed {spellings : List Spelling} (h : ∀ s ∈ spellings, s.Allowed)
    (hp : ∀ position, .index position ∈ spellings.map Spelling.segment → position < positionBound) :
    ofText (written spellings) = spellings.map Spelling.segment := by
  cases spellings with
  | nil => exact ofChars_nil []
  | cons first rest =>
    obtain ⟨hs, hrest⟩ := List.forall_mem_cons.1 h
    rw [ofText, written, String.toList_ofList,
      ofChars_append (closed_chars hs true) (breaks_flatMap rest),
      ofChars_chars hs fun position he => hp position (he ▸ List.mem_cons_self),
      ofChars_flatMap hrest fun position hm => hp position (List.mem_cons_of_mem _ hm)]
    rfl

/-- Names that avoid what ends them in one of the two quotes can be written in that quote. -/
theorem exists_spellings {path : Path}
    (hq : ∀ name, .key name ∈ path → ∃ quote : Quote, ¬ quote.closing <:+: name.toList) :
    ∃ spellings : List Spelling, (∀ s ∈ spellings, s.Allowed) ∧
      spellings.map Spelling.segment = path := by
  induction path with
  | nil => exact ⟨[], nofun, rfl⟩
  | cons step rest ih =>
    obtain ⟨spellings, hs, he⟩ := ih fun name hm => hq name (List.mem_cons_of_mem _ hm)
    cases step with
    | index position =>
      exact ⟨.index position :: spellings, List.forall_mem_cons.2 ⟨trivial, hs⟩,
        congrArg (_ :: ·) he⟩
    | key name =>
      obtain ⟨quote, hquote⟩ := hq name List.mem_cons_self
      exact ⟨.quoted quote name :: spellings, List.forall_mem_cons.2 ⟨hquote, hs⟩,
        congrArg (_ :: ·) he⟩

/-- However the segments of a path are written, each in a spelling that it may have, the text is
read as that path. Each name that avoids what ends it in one of the two quotes has such a spelling. -/
theorem ofText_written {path : Path}
    (hp : ∀ position, .index position ∈ path → position < positionBound) :
    (∀ spellings : List Spelling, (∀ s ∈ spellings, s.Allowed) →
      spellings.map Spelling.segment = path → ofText (written spellings) = path) ∧
    ((∀ name, .key name ∈ path → ∃ quote : Quote, ¬ quote.closing <:+: name.toList) →
      ∃ spellings : List Spelling, (∀ s ∈ spellings, s.Allowed) ∧
        spellings.map Spelling.segment = path) := by
  refine ⟨?_, exists_spellings⟩
  rintro spellings h rfl
  exact ofText_of_allowed h hp

/-- A path in all three spellings, with a name that has a dot in it and one that is empty. -/
theorem ofText_spelled :
    let path : Path := [.key "server", .index 0, .key "a.b", .key ""]
    (∀ position, .index position ∈ path → position < positionBound) ∧
      ofText "server[0][\"a.b\"]['']" = path := by
  intro path
  have hp : ∀ position, .index position ∈ path → position < positionBound := by
    intro position h
    have hposition : position = 0 := by simpa [path] using h
    rw [hposition]
    decide
  have hs : ∀ s ∈ [Spelling.dotted "server", .index 0, .quoted .double "a.b", .quoted .single ""],
      s.Allowed := by
    simp only [List.forall_mem_cons, Spelling.Allowed]
    exact ⟨by decide +kernel, trivial, by decide +kernel, by decide +kernel, nofun⟩
  exact ⟨hp, (ofText_written hp).1 _ hs rfl⟩

end ConfigDoc.Path
