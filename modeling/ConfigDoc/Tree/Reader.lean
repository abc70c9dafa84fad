import ConfigDoc.Tree.Read

/-! Reading a tree with a cursor that moves over the tokens. The argument lists that are open are
counted. Loops and nested readings have a number of rounds to come to an end in. -/

namespace ConfigDoc.Tree

def callName? : Token → Option String
  | .ident name => some name
  | _ => none

structure Reader where
  tokens : Tokens
  position : Nat
  /-- How many argument lists are open. No pipe may stand in one. -/
  depth : Nat

namespace Reader

def start (ts : Tokens) : Reader := ⟨ts, 0, 0⟩

/-- The token a number of places ahead. Behind the last token it is the last one. -/
def token? (r : Reader) (offset : Nat) : Option Token.Placed :=
  r.tokens[r.position + offset]?.or r.tokens.getLast?

inductive Stop where
  | refused (e : Error)
  /-- A token is not of the sort that it was before it was taken. -/
  | impossible

/-- Readings move a reader, which is kept when they fail. -/
abbrev Reading := ExceptT Stop (StateT Reader Option)

variable {α : Type}

/-- How a reading ends, and the reader it leaves. There is no outcome if its rounds are over before
it ends. -/
def Reading.on (reading : Reading α) (r : Reader) : Option (Except Stop α × Reader) := reading r

def unended : Reading α := fun _ => none

def stop (message : String) (hint : Option String) (code : Nat) : Reading α := do
  let r ← get
  let (line, column) := (r.token? 0).elim (0, 0) fun placed => (placed.line, placed.column)
  throw (.refused (.badSyntax message line column hint (some code)))

def fail (fault : Fault) : Reading α := stop fault.message fault.hint? fault.code

/-- Takes the token in front. The end of the input stays in front. -/
def bump : Reading Token.Placed := do
  let r ← get
  match r.tokens[r.position]? with
  | none => fail .endOfInput
  | some placed =>
    if placed.token = .eof then pure placed
    else
      set { r with position := r.position + 1 }
      pure placed

def peekAt (offset : Nat) : Reading Token := do
  let r ← get
  pure ((r.token? offset).elim .eof Token.Placed.token)

def peek : Reading Token := peekAt 0

def peekFrom (rounds offset : Nat) : Reading Token :=
  match rounds with
  | 0 => unended
  | rounds + 1 => do
    let token ← peekAt offset
    if token = .newline then peekFrom rounds (offset + 1) else pure token

/-- Line breaks are looked past in no more rounds than there are tokens. -/
def peekPast : Reading Token := do
  let r ← get
  peekFrom r.tokens.length 0

def skipWithin (rounds : Nat) : Reading Unit :=
  match rounds with
  | 0 => unended
  | rounds + 1 => do
    let token ← peek
    if token = .newline then
      let _ ← bump
      skipWithin rounds
    else pure ()

def skip : Reading Unit := do
  let r ← get
  skipWithin r.tokens.length

def refuse (expected : Expectation) : Reading α := do
  let got ← peek
  fail (.unexpected expected got)

def expect (expected : Token) (hint : String) (code : Nat) : Reading Token.Placed := do
  let got ← peek
  if got = expected then bump
  else stop ("Expected " ++ expected.describe ++ ", got " ++ got.describe) (some hint) code

def takeAs (sort : Token → Option α) : Reading α := do
  let placed ← bump
  match sort placed.token with
  | some a => pure a
  | none => throw .impossible

def terminator (closing : Token) : Reading Unit := do
  let first ← peek
  if first = .comma then
    let _ ← bump
  let token ← peek
  if token = .newline ∨ token = .eof ∨ token = closing then pure ()
  else refuse .lineBreak

def deepen (r : Reader) : Reader := { r with depth := r.depth + 1 }

def rise (r : Reader) : Reader := { r with depth := r.depth - 1 }

/-- A reading one argument list deeper. The depth is restored whether it fails or not. -/
def deeper (reading : Reading α) : Reading α := ExceptT.mk do
  modify deepen
  let parsed ← reading.run
  modify rise
  pure parsed

def argument (value : Reading Tree) : Reading Tree := do
  let token ← peek
  if token = .atSign then refuse .plainArgument
  else
    let value ← value
    let past ← peekPast
    if past = .pipeRight ∨ past = .pipeLeft then refuse .plainArgument
    else pure value

def enclosed (closing : Token) (elements : Reading (List α)) : Reading (List α) := do
  let token ← peek
  if token = closing then
    let _ ← bump
    pure []
  else elements

def continued (closing : Token) (ending : Expectation) (others : Reading (List α)) (first : α) :
    Reading (List α) := do
  skip
  let token ← peek
  if token = .comma then
    let _ ← bump
    skip
    let token ← peek
    if token = closing then
      let _ ← bump
      pure [first]
    else
      let others ← others
      pure (first :: others)
  else if token = closing then
    let _ ← bump
    pure [first]
  else refuse ending

def member (expression : Reading Tree) : Reading (Entry Tree) := do
  let token ← peek
  match memberKey? token with
  | none => refuse .mapKey
  | some _ =>
    let key ← takeAs memberKey?
    skip
    let _ ← expect .colon Expectation.mapColon.hint Expectation.mapColon.code
    skip
    let value ← expression
    pure ⟨key, value⟩

mutual

def statements (rounds : Nat) (closing : Token) : Reading (List (Entry Tree)) :=
  match rounds with
  | 0 => unended
  | rounds + 1 => do
    skip
    let token ← peek
    if token = closing then pure []
    else if token = .eof then fail .unclosedBlock
    else
      let entry ← statement rounds
      terminator closing
      let entries ← statements rounds closing
      pure (entry :: entries)
termination_by structural rounds

def statement (rounds : Nat) : Reading (Entry Tree) :=
  match rounds with
  | 0 => unended
  | rounds + 1 => do
    let token ← peek
    if token = .atSign then
      let call ← call rounds
      pure (.ofCall call)
    else
      match statementKey? token with
      | none => refuse .statement
      | some _ =>
        let key ← takeAs statementKey?
        let token ← peek
        if token = .equals then
          let _ ← bump
          skip
          let value ← expression rounds
          pure ⟨key, value⟩
        else if token = .lbrace then
          let _ ← bump
          let entries ← statements rounds .rbrace
          let _ ← expect .rbrace "Close the block with '\x7d'" 206
          pure ⟨key, .block entries⟩
        else refuse (.assignment key)
termination_by structural rounds

def expression (rounds : Nat) : Reading Tree :=
  match rounds with
  | 0 => unended
  | rounds + 1 => do
    let r ← get
    if 0 < r.depth then argument (value rounds)
    else
      let token ← peek
      if token = .atSign then
        let calls ← leftCalls rounds
        let raw ← value rounds
        let past ← peekPast
        if past = .pipeRight then refuse .oneDirection
        else pure (pipedThrough raw calls.reverse)
      else
        let raw ← value rounds
        let calls ← rightCalls rounds
        let past ← peekPast
        if past = .pipeLeft then refuse .oneDirection
        else pure (pipedThrough raw calls)
termination_by structural rounds

def rightCalls (rounds : Nat) : Reading (List (Call Tree)) :=
  match rounds with
  | 0 => unended
  | rounds + 1 => do
    let past ← peekPast
    if past = .pipeRight then
      skip
      let _ ← bump
      skip
      let first ← call rounds
      let others ← rightCalls rounds
      pure (first :: others)
    else pure []
termination_by structural rounds

def leftCalls (rounds : Nat) : Reading (List (Call Tree)) :=
  match rounds with
  | 0 => unended
  | rounds + 1 => do
    let first ← call rounds
    let past ← peekPast
    if past = .pipeLeft then
      skip
      let _ ← bump
      skip
      let token ← peek
      if token = .atSign then
        let others ← leftCalls rounds
        pure (first :: others)
      else pure [first]
    else refuse .leftPipe
termination_by structural rounds

def call (rounds : Nat) : Reading (Call Tree) :=
  match rounds with
  | 0 => unended
  | rounds + 1 => do
    let _ ← expect .atSign Expectation.call.hint Expectation.call.code
    let token ← peek
    match callName? token with
    | none => refuse .callName
    | some _ =>
      let name ← takeAs callName?
      let token ← peek
      if token = .lparen then
        let _ ← bump
        skip
        let args ← deeper (enclosed .rparen (items rounds .rparen (.argumentEnd name)))
        pure ⟨name, args⟩
      else pure ⟨name, []⟩
termination_by structural rounds

def value (rounds : Nat) : Reading Tree :=
  match rounds with
  | 0 => unended
  | rounds + 1 => do
    let token ← peek
    if token = .lbracket then
      let _ ← bump
      skip
      let items ← enclosed .rbracket (items rounds .rbracket .itemEnd)
      pure (.array items)
    else if token = .lbrace then
      let _ ← bump
      skip
      let entries ← enclosed .rbrace (members rounds)
      pure (.map entries)
    else
      match scalar? token with
      | some _ => takeAs scalar?
      | none => refuse .value
termination_by structural rounds

def items (rounds : Nat) (closing : Token) (ending : Expectation) : Reading (List Tree) :=
  match rounds with
  | 0 => unended
  | rounds + 1 => do
    let first ← expression rounds
    continued closing ending (items rounds closing ending) first
termination_by structural rounds

def members (rounds : Nat) : Reading (List (Entry Tree)) :=
  match rounds with
  | 0 => unended
  | rounds + 1 => do
    let first ← member (expression rounds)
    continued .rbrace .memberEnd (members rounds) first
termination_by structural rounds

end

def document (rounds : Nat) : Reading Tree := do
  let entries ← statements rounds .eof
  pure (.block entries)

/-- Reads a text, if it comes to an end in time. -/
def ofText (rounds : Nat) (text : String) : Option (Except Stop Tree) :=
  match Token.tokenize text with
  | .error e => some (.error (.refused e))
  | .ok ts => ((document rounds).on (start ts)).map Prod.fst

end Reader

end ConfigDoc.Tree
