import ConfigDoc.Proofs.Tree.Nodes
import ConfigDoc.Token.Basic

namespace ConfigDoc.Grammar

def LineBreaks (us : List Token) : Prop := ∀ token ∈ us, token = .newline

inductive QuotedKey : Token → String → Prop where
  | single (key : String) : QuotedKey (.rawString key) key
  | double (key : String) : QuotedKey (.complexString key) key

inductive StatementKey : Token → String → Prop where
  | name (key : String) : StatementKey (.ident key) key
  | quoted {token : Token} {key : String} (h : QuotedKey token key) : StatementKey token key

inductive Scalar : Token → Tree → Prop where
  | raw (s : String) : Scalar (.rawString s) (.rawString s)
  | complex (s : String) : Scalar (.complexString s) (.complexString s)
  | number (x : Number) : Scalar (.number x) (.numeric x)
  | bool (b : Bool) : Scalar (.bool b) (.boolean b)

inductive Phrase where
  /-- The statements of a text or between the braces of a block. -/
  | body (entries : List (Entry Tree))
  | statement (entry : Entry Tree)
  | expression (tree : Tree)
  | rightPipes (calls : List (Call Tree))
  /-- The calls in front of a value as they are written, each with the pipe behind it. -/
  | leftPipes (calls : List (Call Tree))
  | value (tree : Tree)
  /-- One or more values and their commas, up to the closing bracket. -/
  | items (trees : List Tree)
  | members (entries : List (Entry Tree))
  | call (call : Call Tree)

inductive Derives : Phrase → List Token → Prop where
  | emptyBody {breaks : List Token} (hb : LineBreaks breaks) : Derives (.body []) breaks
  /-- A statement ends with at most one comma, and then with a line break or with the body. -/
  | bodyCons {breaks first comma rest : List Token} {entry : Entry Tree}
      {entries : List (Entry Tree)} (hb : LineBreaks breaks)
      (hf : Derives (.statement entry) first) (hc : comma = [] ∨ comma = [.comma])
      (hr : Derives (.body entries) rest) (he : rest = [] ∨ rest.head? = some .newline) :
      Derives (.body (entry :: entries)) (breaks ++ (first ++ (comma ++ rest)))
  | callStatement {us : List Token} {call : Call Tree} (h : Derives (.call call) us) :
      Derives (.statement (.ofCall call)) us
  | assignment {token : Token} {breaks us : List Token} {key : String} {tree : Tree}
      (hk : StatementKey token key) (hb : LineBreaks breaks)
      (h : Derives (.expression tree) us) :
      Derives (.statement ⟨key, tree⟩) (token :: .equals :: (breaks ++ us))
  | block {token : Token} {us : List Token} {key : String} {entries : List (Entry Tree)}
      (hk : StatementKey token key) (h : Derives (.body entries) us) :
      Derives (.statement ⟨key, .block entries⟩) (token :: .lbrace :: (us ++ [.rbrace]))
  | unpiped {us : List Token} {tree : Tree} (h : Derives (.value tree) us) :
      Derives (.expression tree) us
  | rightPiped {us vs : List Token} {tree : Tree} {calls : List (Call Tree)}
      (h : Derives (.value tree) us) (hc : Derives (.rightPipes calls) vs) (hn : calls ≠ []) :
      Derives (.expression (.piped tree calls)) (us ++ vs)
  /-- The call next to the value applies first. -/
  | leftPiped {us vs : List Token} {tree : Tree} {calls : List (Call Tree)}
      (hc : Derives (.leftPipes calls) us) (h : Derives (.value tree) vs) :
      Derives (.expression (.piped tree calls.reverse)) (us ++ vs)
  | noRightPipe : Derives (.rightPipes []) []
  | rightPipe {before after us vs : List Token} {call : Call Tree} {calls : List (Call Tree)}
      (hb : LineBreaks before) (ha : LineBreaks after) (h : Derives (.call call) us)
      (hc : Derives (.rightPipes calls) vs) :
      Derives (.rightPipes (call :: calls)) (before ++ .pipeRight :: (after ++ (us ++ vs)))
  | lastLeftPipe {before after us : List Token} {call : Call Tree} (h : Derives (.call call) us)
      (hb : LineBreaks before) (ha : LineBreaks after) :
      Derives (.leftPipes [call]) (us ++ (before ++ .pipeLeft :: after))
  | leftPipe {before after us vs : List Token} {call : Call Tree} {calls : List (Call Tree)}
      (h : Derives (.call call) us) (hb : LineBreaks before) (ha : LineBreaks after)
      (hc : Derives (.leftPipes calls) vs) :
      Derives (.leftPipes (call :: calls)) (us ++ (before ++ .pipeLeft :: (after ++ vs)))
  | scalar {token : Token} {tree : Tree} (h : Scalar token tree) : Derives (.value tree) [token]
  | emptyArray {breaks : List Token} (hb : LineBreaks breaks) :
      Derives (.value (.array [])) (.lbracket :: (breaks ++ [.rbracket]))
  | array {breaks us : List Token} {trees : List Tree} (hb : LineBreaks breaks)
      (h : Derives (.items trees) us) :
      Derives (.value (.array trees)) (.lbracket :: (breaks ++ (us ++ [.rbracket])))
  | emptyMap {breaks : List Token} (hb : LineBreaks breaks) :
      Derives (.value (.map [])) (.lbrace :: (breaks ++ [.rbrace]))
  | map {breaks us : List Token} {entries : List (Entry Tree)} (hb : LineBreaks breaks)
      (h : Derives (.members entries) us) :
      Derives (.value (.map entries)) (.lbrace :: (breaks ++ (us ++ [.rbrace])))
  | lastItem {us breaks comma : List Token} {tree : Tree} (h : Derives (.expression tree) us)
      (hb : LineBreaks breaks) (hc : comma = [] ∨ ∃ after, LineBreaks after ∧ comma = .comma :: after) :
      Derives (.items [tree]) (us ++ (breaks ++ comma))
  | item {us before after vs : List Token} {tree : Tree} {trees : List Tree}
      (h : Derives (.expression tree) us) (hb : LineBreaks before) (ha : LineBreaks after)
      (ht : Derives (.items trees) vs) :
      Derives (.items (tree :: trees)) (us ++ (before ++ .comma :: (after ++ vs)))
  | lastMember {token : Token} {before after us breaks comma : List Token} {key : String}
      {tree : Tree} (hk : QuotedKey token key) (hb : LineBreaks before) (ha : LineBreaks after)
      (h : Derives (.expression tree) us) (hr : LineBreaks breaks)
      (hc : comma = [] ∨ ∃ after, LineBreaks after ∧ comma = .comma :: after) :
      Derives (.members [⟨key, tree⟩])
        (token :: (before ++ .colon :: (after ++ (us ++ (breaks ++ comma)))))
  | member {token : Token} {before after us breaks breaks' vs : List Token} {key : String}
      {tree : Tree} {entries : List (Entry Tree)} (hk : QuotedKey token key)
      (hb : LineBreaks before) (ha : LineBreaks after) (h : Derives (.expression tree) us)
      (hr : LineBreaks breaks) (hr' : LineBreaks breaks') (he : Derives (.members entries) vs) :
      Derives (.members (⟨key, tree⟩ :: entries))
        (token :: (before ++ .colon :: (after ++ (us ++ (breaks ++ .comma :: (breaks' ++ vs))))))
  | bareCall (name : String) : Derives (.call ⟨name, []⟩) [.atSign, .ident name]
  | emptyCall (name : String) {breaks : List Token} (hb : LineBreaks breaks) :
      Derives (.call ⟨name, []⟩) (.atSign :: .ident name :: .lparen :: (breaks ++ [.rparen]))
  /-- No argument has a pipe or a call in it. -/
  | fullCall (name : String) {breaks us : List Token} {args : List Tree} (hb : LineBreaks breaks)
      (h : Derives (.items args) us) (hp : ∀ arg ∈ args, arg.Plain) :
      Derives (.call ⟨name, args⟩)
        (.atSign :: .ident name :: .lparen :: (breaks ++ (us ++ [.rparen])))

def Document (us : List Token) (tree : Tree) : Prop :=
  ∃ entries body, tree = .block entries ∧ us = body ++ [.eof] ∧ Derives (.body entries) body

end ConfigDoc.Grammar
