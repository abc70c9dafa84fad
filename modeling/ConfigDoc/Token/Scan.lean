import ConfigDoc.Error
import ConfigDoc.Number.Numeral
import ConfigDoc.Text.Numeric
import ConfigDoc.Token.Basic

namespace ConfigDoc.Token

inductive Fault where
  | unexpectedCharacter (c : Char)
  | badNumber (lexeme : String)
  | unclosedString (quote : Char)
  deriving DecidableEq

namespace Fault

def message : Fault → String
  | unexpectedCharacter c => "Unexpected character '" ++ c.toString ++ "'"
  | badNumber lexeme => "Invalid number '" ++ lexeme ++ "'"
  | unclosedString quote => "Unclosed string starting with " ++ quote.toString

def hint : Fault → String
  | unexpectedCharacter _ => "Unexpected character in input"
  | badNumber _ => "Numbers use a single '.' as decimal separator"
  | unclosedString _ => "String literal not closed"

def code : Fault → Nat
  | badNumber _ => 102
  | unclosedString _ => 103
  | unexpectedCharacter _ => 104

def toError (fault : Fault) (line column : Nat) : Error :=
  .badSyntax fault.message line column (some fault.hint) (some fault.code)

end Fault

/-- Blanks within a line. Line breaks are tokens. -/
def isSpacing (c : Char) : Bool := c = ' ' || c = '\t' || c = '\r'

/-- Splits off the blanks and comments in front. A comment starts at a number sign and ends before
the line break; `inComment` tells whether one is open. -/
def splitBlanks (inComment : Bool) : List Char → List Char × List Char
  | [] => ([], [])
  | c :: rest =>
    if inComment && c ≠ '\n' then
      (c :: (splitBlanks true rest).1, (splitBlanks true rest).2)
    else if isSpacing c || c = '#' then
      (c :: (splitBlanks (c = '#') rest).1, (splitBlanks (c = '#') rest).2)
    else ([], c :: rest)

def symbol? : Char → Option Token
  | '\n' => some .newline
  | '=' => some .equals
  | ':' => some .colon
  | ',' => some .comma
  | '\x7b' => some .lbrace
  | '\x7d' => some .rbrace
  | '[' => some .lbracket
  | ']' => some .rbracket
  | '(' => some .lparen
  | ')' => some .rparen
  | '@' => some .atSign
  | _ => none

/-- The token of two characters, the first of which makes none of its own. -/
def pipe? : Char → List Char → Option Token
  | '|', '>' :: _ => some .pipeRight
  | '<', '|' :: _ => some .pipeLeft
  | _, _ => none

def splitContents (quote : Char) : List Char → List Char × List Char
  | [] => ([], [])
  | [c] => if c = quote then ([], [c]) else ([c], [])
  | c :: next :: rest =>
    if c = quote then ([], c :: next :: rest)
    else if c = '\\' then
      (c :: next :: (splitContents quote rest).1, (splitContents quote rest).2)
    else (c :: (splitContents quote (next :: rest)).1, (splitContents quote (next :: rest)).2)

def escaped : Char → Char
  | 'n' => '\n'
  | 't' => '\t'
  | 'r' => '\r'
  | c => c

def unescape : List Char → List Char
  | '\\' :: c :: rest => escaped c :: unescape rest
  | c :: rest => c :: unescape rest
  | [] => []

/-- Whether a number starts here. A minus sign counts only before a digit or a point, a point only
before a digit. -/
def startsNumber : List Char → Bool
  | '.' :: next :: _ => next.isDigit
  | '-' :: next :: _ => next.isDigit || next = '.'
  | c :: _ => c.isDigit
  | [] => false

def isNumberChar (c : Char) : Bool := c.isDigit || c = '.'

def splitNumber : List Char → List Char × List Char
  | '-' :: rest => ('-' :: rest.takeWhile isNumberChar, rest.dropWhile isNumberChar)
  | cs => (cs.takeWhile isNumberChar, cs.dropWhile isNumberChar)

def startsName (c : Char) : Bool := Text.isAlphabetic c || c = '_'

def isNameChar (c : Char) : Bool := Text.isAlphanumeric c || c = '_' || c = '-'

def ofName (name : String) : Token :=
  if name = "true" ∨ name = "yes" then .bool true
  else if name = "false" ∨ name = "no" then .bool false
  else .ident name

/-- A first lexeme: what it stands for, its characters, and the rest of the text. -/
structure Lexeme where
  result : Except Fault Token
  chars : List Char
  rest : List Char

def scanString (quote : Char) (cs : List Char) : Lexeme :=
  let contents := (splitContents quote cs).1
  match (splitContents quote cs).2 with
  | [] => ⟨.error (.unclosedString quote), quote :: contents, []⟩
  | closing :: rest =>
    let text := String.ofList (unescape contents)
    ⟨.ok (if quote = '"' then .complexString text else .rawString text),
      quote :: contents ++ [closing], rest⟩

def scanNumber (cs : List Char) : Lexeme :=
  let (chars, rest) := splitNumber cs
  let lexeme := String.ofList chars
  match Number.ofText? lexeme with
  | some x => ⟨.ok (.number x), chars, rest⟩
  | none => ⟨.error (.badNumber lexeme), chars, rest⟩

def scanName (cs : List Char) : Lexeme :=
  let chars := cs.takeWhile isNameChar
  ⟨.ok (ofName (String.ofList chars)), chars, cs.dropWhile isNameChar⟩

def scan (c : Char) (rest : List Char) : Lexeme :=
  match symbol? c with
  | some token => ⟨.ok token, [c], rest⟩
  | none =>
    match pipe? c rest with
    | some token => ⟨.ok token, c :: rest.take 1, rest.drop 1⟩
    | none =>
      if c = '"' || c = '\'' then scanString c rest
      else if startsNumber (c :: rest) then scanNumber (c :: rest)
      else if startsName c then scanName (c :: rest)
      else ⟨.error (.unexpectedCharacter c), [c], rest⟩

theorem splitBlanks_append (inComment : Bool) (cs : List Char) :
    (splitBlanks inComment cs).1 ++ (splitBlanks inComment cs).2 = cs := by
  fun_induction splitBlanks inComment cs <;> simp_all

theorem splitContents_append (quote : Char) (cs : List Char) :
    (splitContents quote cs).1 ++ (splitContents quote cs).2 = cs := by
  fun_induction splitContents quote cs <;> simp_all

theorem splitNumber_append (cs : List Char) :
    (splitNumber cs).1 ++ (splitNumber cs).2 = cs := by
  unfold splitNumber
  split <;> simp [List.takeWhile_append_dropWhile]

theorem scanString_append (quote : Char) (cs : List Char) :
    (scanString quote cs).chars ++ (scanString quote cs).rest = quote :: cs := by
  have h := splitContents_append quote cs
  unfold scanString
  dsimp only
  split
  · rename_i hr
    rw [hr] at h
    simpa using h
  · rename_i hr
    rw [hr] at h
    simpa using h

theorem scanNumber_append (cs : List Char) :
    (scanNumber cs).chars ++ (scanNumber cs).rest = cs := by
  have h := splitNumber_append cs
  unfold scanNumber
  dsimp only
  split <;> exact h

theorem scan_append (c : Char) (rest : List Char) :
    (scan c rest).chars ++ (scan c rest).rest = c :: rest := by
  unfold scan
  split
  · rfl
  split
  · cases rest <;> simp
  split
  · exact scanString_append c rest
  split
  · exact scanNumber_append _
  split
  · simp [scanName, List.takeWhile_append_dropWhile]
  · rfl

theorem scan_chars_ne_nil (c : Char) (rest : List Char) : (scan c rest).chars ≠ [] := by
  unfold scan
  split
  · simp
  split
  · simp
  split
  · unfold scanString
    dsimp only
    split <;> simp
  split
  · rename_i hn
    have hs : (splitNumber (c :: rest)).1 ≠ [] := by
      by_cases hc : c = '-'
      · subst hc
        simp [splitNumber]
      · have hd : isNumberChar c = true := by
          revert hn
          unfold startsNumber isNumberChar
          split <;> simp_all
        have : splitNumber (c :: rest) =
            ((c :: rest).takeWhile isNumberChar, (c :: rest).dropWhile isNumberChar) := by
          unfold splitNumber
          split
          · simp_all
          · rfl
        simp [this, hd]
    unfold scanNumber
    dsimp only
    split <;> exact hs
  split
  · rename_i hs
    have : isNameChar c = true := by
      simp only [startsName, Bool.or_eq_true, decide_eq_true_eq] at hs
      rcases hs with h | h <;> simp [isNameChar, Text.isAlphanumeric, h]
    simp [scanName, this]
  · simp

end ConfigDoc.Token
