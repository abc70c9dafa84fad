/-! Templates: text with tokens such as `${server.host}` that name other parts of a document. -/

namespace ConfigDoc

structure Template where
  source : String
  deriving DecidableEq

namespace Template

/-- A template read from left to right: plain characters, and tokens by the path they name. -/
inductive Piece where
  | literal (c : Char)
  | token (key : String)
  deriving DecidableEq

/-- The key of the token that a text starts with, and what follows it. A token is a dollar sign and
a non-empty key in braces; the key runs up to the first closing brace. -/
def tokenAt? : List Char → Option (List Char × List Char)
  | '$' :: '\x7b' :: rest =>
    let key := rest.takeWhile (· ≠ '\x7d')
    match rest.dropWhile (· ≠ '\x7d') with
    | [] => none
    | _ :: after => if key = [] then none else some (key, after)
  | _ => none

theorem length_of_tokenAt? {cs key after : List Char} (h : tokenAt? cs = some (key, after)) :
    after.length < cs.length := by
  unfold tokenAt? at h
  split at h
  · rename_i rest
    have hle := (List.dropWhile_sublist (l := rest) (· ≠ '\x7d')).length_le
    dsimp only at h
    split at h
    · cases h
    · rename_i hd
      rw [hd] at hle
      split at h
      · cases h
      · simp only [Option.some.injEq, Prod.mk.injEq] at h
        obtain ⟨-, rfl⟩ := h
        simp only [List.length_cons] at hle ⊢
        omega
  · cases h

/-- Takes the leftmost token each time; every other character is literal. -/
def split (cs : List Char) : List Piece :=
  match cs with
  | [] => []
  | c :: rest =>
    match _found : tokenAt? (c :: rest) with
    | some (key, after) => .token (String.ofList key) :: split after
    | none => .literal c :: split rest
termination_by cs.length
decreasing_by
  · exact length_of_tokenAt? _found
  · simp

def pieces (t : Template) : List Piece := split t.source.toList

def tokenKeys (t : Template) : List String :=
  t.pieces.filterMap fun
    | .token key => some key
    | .literal _ => none

def keys (t : Template) : List String := t.tokenKeys.eraseDups

def hasTokens (t : Template) : Bool := !t.tokenKeys.isEmpty

def substitute (textOf : String → String) (t : Template) : String :=
  String.join <| t.pieces.map fun
    | .token key => textOf key
    | .literal c => c.toString

example : (Template.mk "$\x7ba\x7d-$\x7bb[0]\x7d-$\x7ba\x7d $\x7b\x7d").keys = ["a", "b[0]"] := by
  decide +kernel

end Template

end ConfigDoc
