import ConfigDoc.Json.Document

namespace ConfigDoc.Value

mutual

/-- Lists are joined by commas, objects are JSON, and everything else is shown plainly. -/
def text : Value → String
  | .null => "null"
  | .bool b => if b then "true" else "false"
  | .number x => x.text
  | .string s => s
  | .array items => String.intercalate "," (itemTexts items)
  | .object members => compactText (.object members)
  | .template t => t.source
termination_by structural v => v

/-- In a list, null shows as nothing. -/
def itemTexts : List Value → List String
  | [] => []
  | v :: rest => (if v.isNull then "" else text v) :: itemTexts rest
termination_by structural vs => vs

end

end ConfigDoc.Value
