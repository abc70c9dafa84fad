namespace ConfigDoc

inductive Segment where
  | key (name : String)
  | index (position : Nat)
  deriving DecidableEq

abbrev Path := List Segment

namespace Segment

def text : Segment → String
  | key name => name
  | index position => toString position

def below (base : String) : Segment → String
  | key name => if base = "" then name else base ++ "." ++ name
  | index position => base ++ "[" ++ toString position ++ "]"

end Segment

def Path.textBelow (base : String) (path : Path) : String := path.foldl Segment.below base

end ConfigDoc
