import ConfigDoc.Token.Scan

namespace ConfigDoc.Token

structure Cursor where
  position : Position
  rest : List Char

namespace Cursor

def start (text : String) : Cursor := ⟨.start, text.toList⟩

def line (cursor : Cursor) : Nat := cursor.position.line

def column (cursor : Cursor) : Nat := cursor.position.column

def skip (cursor : Cursor) : Cursor :=
  let (blanks, rest) := splitBlanks false cursor.rest
  ⟨cursor.position.pastAll blanks, rest⟩

/-- The next token, or what is wrong there, and the cursor behind it. At the end the token is `eof`
again and again. -/
def next (cursor : Cursor) : Except Error Placed × Cursor :=
  let here := cursor.skip
  let line := here.line
  let column := here.column + 1
  match here.rest with
  | [] => (.ok ⟨.eof, line, column⟩, here)
  | c :: rest =>
    let lexeme := scan c rest
    let result :=
      match lexeme.result with
      | .ok token => .ok ⟨token, line, column⟩
      | .error fault => .error (fault.toError line column)
    (result, ⟨here.position.pastAll lexeme.chars, lexeme.rest⟩)

theorem length_skip_le (cursor : Cursor) : cursor.skip.rest.length ≤ cursor.rest.length := by
  have h := congrArg List.length (splitBlanks_append false cursor.rest)
  rw [List.length_append] at h
  simp only [skip]
  omega

/-- A call that finds something moves the cursor on. -/
theorem length_next_lt {cursor : Cursor} (h : cursor.skip.rest ≠ []) :
    cursor.next.2.rest.length < cursor.rest.length := by
  unfold next
  dsimp only
  split
  · contradiction
  · rename_i c rest hr
    have hs := length_skip_le cursor
    have ha := congrArg List.length (scan_append c rest)
    have hc := List.length_pos_iff.2 (scan_chars_ne_nil c rest)
    rw [hr] at hs
    simp only [List.length_append, List.length_cons] at ha hs ⊢
    omega

theorem next_of_skip_eq_nil {cursor : Cursor} (h : cursor.skip.rest = []) :
    cursor.next = (.ok ⟨.eof, cursor.skip.line, cursor.skip.column + 1⟩, cursor.skip) := by
  unfold next
  simp only [h]

/-- All tokens up to and with the final `eof`, or the first thing that is wrong. -/
def tokens (cursor : Cursor) : Except Error (List Placed) :=
  if _h : cursor.skip.rest = [] then do
    let final ← cursor.next.1
    pure [final]
  else do
    let first ← cursor.next.1
    let others ← tokens cursor.next.2
    pure (first :: others)
termination_by cursor.rest.length
decreasing_by exact length_next_lt _h

end Cursor

def tokenize (text : String) : Except Error (List Placed) := (Cursor.start text).tokens

end ConfigDoc.Token
