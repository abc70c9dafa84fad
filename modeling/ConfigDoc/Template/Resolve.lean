import ConfigDoc.Error
import ConfigDoc.Value.Lookup
import ConfigDoc.Value.Text

namespace ConfigDoc.Template

/-- The value that a token key names: the first source in which the path leads somewhere gives it. -/
def find? (sources : List Value) (key : String) : Option Value :=
  sources.findSome? fun source => source.get? key

def without (key : String) (keys : List String) : List String := keys.filter (· ≠ key)

theorem length_without_lt {key : String} {keys : List String} (h : key ∈ keys) :
    (without key keys).length < keys.length :=
  List.length_filter_lt_length_iff_exists.2 ⟨key, h, by simp⟩

/-- The text of a template while the keys of `visiting` are being resolved. The keys that may still
be entered are in `remaining`; meeting another one closes a circle. -/
def resolveWithin (sources : List Value) (remaining visiting : List String) (t : Template) :
    Except Error String := do
  let texts ← t.keys.mapM fun key => do
    if _fresh : key ∈ remaining then
      match find? sources key with
      | none => pure (key, "")
      | some v =>
        let resolved ← v.mapTemplates fun nested => do
          let text ← resolveWithin sources (without key remaining) (visiting ++ [key]) nested
          pure (.string text)
        pure (key, resolved.text)
    else throw (.circularTemplate (visiting ++ [key]))
  pure (t.substitute fun key => (Table.find? texts key).getD "")
termination_by remaining.length
decreasing_by exact length_without_lt _fresh

def reachableKeys (sources : List Value) (t : Template) : List String :=
  t.tokenKeys ++ sources.flatMap Value.tokenKeys

/-- The text of a template: each token gives way to the text of what it names, templates in there
resolved first, and to nothing if it names nothing. -/
def resolve (sources : List Value) (t : Template) : Except Error String :=
  resolveWithin sources (reachableKeys sources t) [] t

end ConfigDoc.Template
