import ConfigDoc.Token.Cursor
import ConfigDoc.Tree.Expectation

namespace ConfigDoc.Tree

abbrev Tokens := List Token.Placed

/-- The token in front; behind the last one it stays the end of the input. -/
def peek : Tokens → Token
  | [] => .eof
  | placed :: _ => placed.token

def skipNewlines (ts : Tokens) : Tokens := ts.dropWhile fun placed => placed.token = .newline

def peekPast (ts : Tokens) : Token := peek (skipNewlines ts)

def report (fault : Fault) : Tokens → Error
  | [] => .badSyntax fault.message 0 0 fault.hint? (some fault.code)
  | placed :: _ => .badSyntax fault.message placed.line placed.column fault.hint? (some fault.code)

def refuse {α : Type} (expected : Expectation) (ts : Tokens) : Except Error α :=
  .error (report (.unexpected expected (peek ts)) ts)

def statementKey? : Token → Option String
  | .ident key => some key
  | .rawString key => some key
  | .complexString key => some key
  | _ => none

def memberKey? : Token → Option String
  | .rawString key => some key
  | .complexString key => some key
  | _ => none

def scalar? : Token → Option Tree
  | .rawString s => some (.rawString s)
  | .complexString s => some (.complexString s)
  | .number x => some (.numeric x)
  | .bool b => some (.boolean b)
  | _ => none

def pipedThrough (raw : Tree) (chain : List (Call Tree)) : Tree :=
  if chain.isEmpty then raw else .piped raw chain

/-- The end of a statement: an optional comma, then a line break or the end of its block. -/
def terminator (closing : Token) (ts : Tokens) : Except Error Tokens :=
  let after := if peek ts = .comma then ts.tail else ts
  let token := peek after
  if token = .newline ∨ token = .eof ∨ token = closing then .ok after
  else refuse .lineBreak after

mutual

def statements (steps : Nat) (closing : Token) (ts : Tokens) :
    Except Error (List (Entry Tree) × Tokens) :=
  match steps with
  | 0 => .error (report .endOfInput ts)
  | steps + 1 => do
    let ts := skipNewlines ts
    if peek ts = closing then pure ([], ts)
    else if peek ts = .eof then throw (report .unclosedBlock ts)
    else
      let (entry, ts) ← statement steps ts
      let ts ← terminator closing ts
      let (entries, ts) ← statements steps closing ts
      pure (entry :: entries, ts)
termination_by structural steps

/-- One of `@name`, `key = value` and `key { … }`. -/
def statement (steps : Nat) (ts : Tokens) : Except Error (Entry Tree × Tokens) :=
  match steps with
  | 0 => .error (report .endOfInput ts)
  | steps + 1 => do
    if peek ts = .atSign then
      let (call, ts) ← call steps ts
      pure (.ofCall call, ts)
    else
      match statementKey? (peek ts) with
      | none => refuse .statement ts
      | some key =>
        let ts := ts.tail
        if peek ts = .equals then
          let (value, ts) ← expression steps false (skipNewlines ts.tail)
          pure (⟨key, value⟩, ts)
        else if peek ts = .lbrace then
          let (entries, ts) ← statements steps .rbrace ts.tail
          pure (⟨key, .block entries⟩, ts.tail)
        else refuse (.assignment key) ts
termination_by structural steps

/-- A value that may be piped in one direction. Within the arguments of a call it is `plain`: no
pipe may touch it. Calls on the left apply from right to left. -/
def expression (steps : Nat) (plain : Bool) (ts : Tokens) : Except Error (Tree × Tokens) :=
  match steps with
  | 0 => .error (report .endOfInput ts)
  | steps + 1 => do
    if plain then
      if peek ts = .atSign then refuse .plainArgument ts
      else
        let (value, ts) ← value steps plain ts
        if peekPast ts = .pipeRight ∨ peekPast ts = .pipeLeft then refuse .plainArgument ts
        else pure (value, ts)
    else if peek ts = .atSign then
      let (calls, ts) ← leftCalls steps ts
      let (raw, ts) ← value steps plain ts
      if peekPast ts = .pipeRight then refuse .oneDirection ts
      else pure (pipedThrough raw calls.reverse, ts)
    else
      let (raw, ts) ← value steps plain ts
      let (calls, ts) ← rightCalls steps ts
      if peekPast ts = .pipeLeft then refuse .oneDirection ts
      else pure (pipedThrough raw calls, ts)
termination_by structural steps

def rightCalls (steps : Nat) (ts : Tokens) : Except Error (List (Call Tree) × Tokens) :=
  match steps with
  | 0 => .error (report .endOfInput ts)
  | steps + 1 => do
    if peekPast ts = .pipeRight then
      let (first, ts) ← call steps (skipNewlines (skipNewlines ts).tail)
      let (others, ts) ← rightCalls steps ts
      pure (first :: others, ts)
    else pure ([], ts)
termination_by structural steps

/-- The calls in front of a value, each with its pipe, as they are written. -/
def leftCalls (steps : Nat) (ts : Tokens) : Except Error (List (Call Tree) × Tokens) :=
  match steps with
  | 0 => .error (report .endOfInput ts)
  | steps + 1 => do
    let (first, ts) ← call steps ts
    if peekPast ts ≠ .pipeLeft then refuse .leftPipe ts
    else
      let ts := skipNewlines (skipNewlines ts).tail
      if peek ts = .atSign then
        let (others, ts) ← leftCalls steps ts
        pure (first :: others, ts)
      else pure ([first], ts)
termination_by structural steps

def call (steps : Nat) (ts : Tokens) : Except Error (Call Tree × Tokens) :=
  match steps with
  | 0 => .error (report .endOfInput ts)
  | steps + 1 => do
    if peek ts ≠ .atSign then refuse .call ts
    else
      let ts := ts.tail
      match peek ts with
      | .ident name =>
        let ts := ts.tail
        if peek ts = .lparen then
          let ts := skipNewlines ts.tail
          if peek ts = .rparen then pure (⟨name, []⟩, ts.tail)
          else
            let (args, ts) ← items steps true .rparen (.argumentEnd name) ts
            pure (⟨name, args⟩, ts)
        else pure (⟨name, []⟩, ts)
      | _ => refuse .callName ts
termination_by structural steps

def value (steps : Nat) (plain : Bool) (ts : Tokens) : Except Error (Tree × Tokens) :=
  match steps with
  | 0 => .error (report .endOfInput ts)
  | steps + 1 => do
    if peek ts = .lbracket then
      let ts := skipNewlines ts.tail
      if peek ts = .rbracket then pure (.array [], ts.tail)
      else
        let (items, ts) ← items steps plain .rbracket .itemEnd ts
        pure (.array items, ts)
    else if peek ts = .lbrace then
      let ts := skipNewlines ts.tail
      if peek ts = .rbrace then pure (.map [], ts.tail)
      else
        let (entries, ts) ← members steps plain ts
        pure (.map entries, ts)
    else
      match scalar? (peek ts) with
      | some tree => pure (tree, ts.tail)
      | none => refuse .value ts
termination_by structural steps

/-- One or more values with commas between them and perhaps one behind, and `closing`. -/
def items (steps : Nat) (plain : Bool) (closing : Token) (ending : Expectation) (ts : Tokens) :
    Except Error (List Tree × Tokens) :=
  match steps with
  | 0 => .error (report .endOfInput ts)
  | steps + 1 => do
    let (first, ts) ← expression steps plain ts
    let ts := skipNewlines ts
    if peek ts = .comma then
      let ts := skipNewlines ts.tail
      if peek ts = closing then pure ([first], ts.tail)
      else
        let (others, ts) ← items steps plain closing ending ts
        pure (first :: others, ts)
    else if peek ts = closing then pure ([first], ts.tail)
    else refuse ending ts
termination_by structural steps

def members (steps : Nat) (plain : Bool) (ts : Tokens) :
    Except Error (List (Entry Tree) × Tokens) :=
  match steps with
  | 0 => .error (report .endOfInput ts)
  | steps + 1 => do
    match memberKey? (peek ts) with
    | none => refuse .mapKey ts
    | some key =>
      let ts := skipNewlines ts.tail
      if peek ts ≠ .colon then refuse .mapColon ts
      else
        let (value, ts) ← expression steps plain (skipNewlines ts.tail)
        let ts := skipNewlines ts
        if peek ts = .comma then
          let ts := skipNewlines ts.tail
          if peek ts = .rbrace then pure ([⟨key, value⟩], ts.tail)
          else
            let (others, ts) ← members steps plain ts
            pure (⟨key, value⟩ :: others, ts)
        else if peek ts = .rbrace then pure ([⟨key, value⟩], ts.tail)
        else refuse .memberEnd ts
termination_by structural steps

end

/-- The tree of a list of tokens that ends in its only `eof`. Between two tokens that are taken at
most four steps are nested, which bounds the steps by the number of tokens. -/
def ofTokens (ts : Tokens) : Except Error Tree := do
  let (entries, _) ← statements (4 * ts.length + 4) .eof ts
  pure (.block entries)

def ofText (text : String) : Except Error Tree := do
  let ts ← Token.tokenize text
  ofTokens ts

end ConfigDoc.Tree
