import ConfigDoc.Number.Layout
import ConfigDoc.Text.Quoted

namespace ConfigDoc

inductive Token where
  | ident (name : String)
  /-- A text in single quotes. -/
  | rawString (s : String)
  /-- A text in double quotes. -/
  | complexString (s : String)
  | number (x : Number)
  | bool (b : Bool)
  | equals
  | colon
  | comma
  | lbrace
  | rbrace
  | lbracket
  | rbracket
  | lparen
  | rparen
  | atSign
  | pipeRight
  | pipeLeft
  | newline
  | eof
  deriving DecidableEq

def Token.describe : Token → String
  | ident name => "Ident(" ++ Text.quoted name ++ ")"
  | rawString s => "RawString(" ++ Text.quoted s ++ ")"
  | complexString s => "ComplexString(" ++ Text.quoted s ++ ")"
  | number x => "Number(" ++ Number.Layout.typed.write x ++ ")"
  | bool b => if b then "Bool(true)" else "Bool(false)"
  | equals => "Equals"
  | colon => "Colon"
  | comma => "Comma"
  | lbrace => "LBrace"
  | rbrace => "RBrace"
  | lbracket => "LBracket"
  | rbracket => "RBracket"
  | lparen => "LParen"
  | rparen => "RParen"
  | atSign => "At"
  | pipeRight => "PipeRight"
  | pipeLeft => "PipeLeft"
  | newline => "Newline"
  | eof => "Eof"

/-- A place in a text: its line, counted from one, and how many characters of the line lie before
it. -/
structure Position where
  line : Nat
  column : Nat
  deriving DecidableEq

namespace Position

def start : Position := ⟨1, 0⟩

def past (p : Position) (c : Char) : Position :=
  if c = '\n' then ⟨p.line + 1, 0⟩ else ⟨p.line, p.column + 1⟩

def pastAll (p : Position) (cs : List Char) : Position := cs.foldl past p

@[simp] theorem pastAll_append (p : Position) (cs ds : List Char) :
    p.pastAll (cs ++ ds) = (p.pastAll cs).pastAll ds := by
  simp [pastAll]

end Position

/-- A token with the line and the column, both counted from one, of its first character. -/
structure Token.Placed where
  token : Token
  line : Nat
  column : Nat
  deriving DecidableEq

end ConfigDoc
