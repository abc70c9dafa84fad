import ConfigDoc.Path.Segment
import ConfigDoc.Text.Blank
import ConfigDoc.Text.Natural

namespace ConfigDoc.Path

/-- Positions are machine words. -/
def positionBound : Nat := UInt64.size

def splitBracket : List Char → List Char × List Char
  | [] => ([], [])
  | c :: rest =>
    if c = ']' then ([], rest)
    else (c :: (splitBracket rest).1, (splitBracket rest).2)

/-- What stands before the first `quote` that `]` follows, and what follows the two. -/
def splitQuoted (quote : Char) : List Char → List Char × List Char
  | [] => ([], [])
  | [c] => ([c], [])
  | c :: next :: rest =>
    if c = quote ∧ next = ']' then ([], rest)
    else (c :: (splitQuoted quote (next :: rest)).1, (splitQuoted quote (next :: rest)).2)

/-- The segment of unquoted bracket contents: a position if it reads as one, else a name. -/
def segmentOfBracket (inner : List Char) : Segment :=
  match Text.natural? (Text.trim inner) with
  | some position =>
    if position < positionBound then .index position else .key (String.ofList inner)
  | none => .key (String.ofList inner)

/-- The segment that starts after an opening bracket, and the rest of the text. An unclosed bracket
takes everything. -/
def splitSegment : List Char → Segment × List Char
  | '"' :: rest => let (inner, after) := splitQuoted '"' rest; (.key (String.ofList inner), after)
  | '\'' :: rest => let (inner, after) := splitQuoted '\'' rest; (.key (String.ofList inner), after)
  | cs => let (inner, after) := splitBracket cs; (segmentOfBracket inner, after)

theorem length_splitBracket (cs : List Char) : (splitBracket cs).2.length ≤ cs.length := by
  fun_induction splitBracket cs with
  | case1 => simp
  | case2 => simp
  | case3 c rest h ih =>
    simp only [List.length_cons]
    omega

theorem length_splitQuoted (quote : Char) (cs : List Char) :
    (splitQuoted quote cs).2.length ≤ cs.length := by
  fun_induction splitQuoted quote cs <;> simp_all <;> omega

theorem length_splitSegment (cs : List Char) : (splitSegment cs).2.length ≤ cs.length := by
  unfold splitSegment
  split
  · simpa using Nat.le_succ_of_le (length_splitQuoted '"' _)
  · simpa using Nat.le_succ_of_le (length_splitQuoted '\'' _)
  · simpa using length_splitBracket _

def ofName (name : List Char) : Path := if name = [] then [] else [.key (String.ofList name)]

/-- Reads the rest of a path, `name` being the dotted name read so far. -/
def ofChars (name : List Char) : List Char → Path
  | [] => ofName name
  | '.' :: rest => ofName name ++ ofChars [] rest
  | '[' :: rest =>
    ofName name ++ (splitSegment rest).1 :: ofChars [] (splitSegment rest).2
  | c :: rest => ofChars (name ++ [c]) rest
termination_by cs => cs.length
decreasing_by
  · simp
  · have := length_splitSegment rest
    simp only [List.length_cons]
    omega
  · simp

/-- Reads a path: names after dots, and names or positions in brackets. Every text is a path. -/
def ofText (text : String) : Path := ofChars [] text.toList

example : ofText "server.hosts[0][\"display name\"]" =
    [.key "server", .key "hosts", .index 0, .key "display name"] := by decide +kernel

end ConfigDoc.Path
