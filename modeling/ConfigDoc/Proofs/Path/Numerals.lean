import ConfigDoc.Proofs.Path.Spelling
import ConfigDoc.Proofs.Value.Slots

/-! Digits at the end of a path, in brackets and behind a dot. In a list both mean a position; in an
object brackets drop leading zeros and a dot keeps them. -/

namespace ConfigDoc.Path
open Value

variable {p s : String}

theorem ofText_append {rest : String} (hp : Closed p.toList) (hr : Breaks rest.toList) :
    ofText (p ++ rest) = ofText p ++ ofText rest := by
  rw [ofText, String.toList_append, ofChars_append hp hr]
  rfl

theorem ofText_append_brackets (hp : Closed p.toList) (hd : ∀ c ∈ s.toList, c.isDigit = true) :
    ofText (p ++ "[" ++ s ++ "]") = ofText p ++ [segmentOfBracket s.toList] := by
  have hassoc : p ++ "[" ++ s ++ "]" = p ++ ("[" ++ s ++ "]") := by simp only [String.append_assoc]
  have hchars : ("[" ++ s ++ "]").toList = '[' :: (s.toList ++ [']']) := by
    simp only [String.toList_append]
    rfl
  have hb : Breaks ("[" ++ s ++ "]").toList := by
    intro c h
    rw [hchars] at h
    exact .inr (Option.some.inj h).symm
  have hread : ofText ("[" ++ s ++ "]") = [segmentOfBracket s.toList] := by
    rw [ofText, hchars, ofChars_bracket,
      splitSegment_bracket (not_quoted_of_digits hd) (not_mem_bracket_of_digits hd), ofChars_nil]
    rfl
  rw [hassoc, ofText_append hp hb, hread]

theorem ofText_append_dot (hp : Closed p.toList) (hn : s ≠ "")
    (hd : ∀ c ∈ s.toList, c.isDigit = true) : ofText (p ++ "." ++ s) = ofText p ++ [.key s] := by
  have hchars : ("." ++ s).toList = '.' :: s.toList := String.toList_append
  have hb : Breaks ("." ++ s).toList := by
    intro c h
    rw [hchars] at h
    exact .inl (Option.some.inj h).symm
  have hdot : '.' ∉ s.toList := fun h => absurd (hd _ h) (by decide)
  have hbracket : '[' ∉ s.toList := fun h => absurd (hd _ h) (by decide)
  have hread : ofText ("." ++ s) = [.key s] := by
    rw [ofText, hchars, ofChars_dot, ofChars_name hdot hbracket, List.nil_append, ofName, ofName,
      if_pos rfl, if_neg (mt String.toList_eq_nil_iff.1 hn), String.ofList_toList, List.nil_append]
  rw [String.append_assoc, ofText_append hp hb, hread]

/-- Both ways of writing digits lead to one member, unless brackets make them a position whose text
is another member of an object. -/
theorem member?_segmentOfBracket_iff (v : Value) (hn : s ≠ "")
    (hd : ∀ c ∈ s.toList, c.isDigit = true) :
    v.member? (segmentOfBracket s.toList) = v.member? (.key s) ↔
      ∀ members, v = .object members → Text.digitsValue s.toList < positionBound →
        Table.find? members (toString (Text.digitsValue s.toList)) = Table.find? members s := by
  have hne : s.toList ≠ [] := mt String.toList_eq_nil_iff.1 hn
  rw [segmentOfBracket_of_digits hne hd, String.ofList_toList]
  split
  · rename_i hb
    cases v with
    | object members =>
      constructor
      · intro h others he _
        cases he
        exact h
      · intro h
        exact h members rfl hb
    | array items =>
      have hposition : (Segment.key s).position? = some (Text.digitsValue s.toList) :=
        Text.natural?_of_digits hne hd
      constructor
      · intro _ members he
        cases he
      · intro _
        simp only [member?, hposition]
        rfl
    | _ =>
      constructor
      · intro _ members he
        cases he
      · intro _
        rfl
  · rename_i hb
    exact ⟨fun _ _ _ h => absurd h hb, fun _ => rfl⟩

theorem get?_brackets_iff (v : Value) (hp : Closed p.toList) (hn : s ≠ "")
    (hd : ∀ c ∈ s.toList, c.isDigit = true) :
    v.get? (p ++ "[" ++ s ++ "]") = v.get? (p ++ "." ++ s) ↔
      ∀ members, v.get? p = some (.object members) → Text.digitsValue s.toList < positionBound →
        Table.find? members (toString (Text.digitsValue s.toList)) = Table.find? members s := by
  rw [get?, get?, get?, ofText_append_brackets hp hd, ofText_append_dot hp hn hd, lookup?_append,
    lookup?_append]
  cases v.lookup? (ofText p) with
  | none => exact ⟨fun _ => nofun, fun _ => rfl⟩
  | some container =>
    simp only [Option.bind_some, lookup?_singleton, member?_segmentOfBracket_iff container hn hd,
      Option.some.injEq]

/-- Behind a path in which all brackets are closed, digits in brackets and digits behind a dot reach
the same, unless they stand for a position and an object there tells them from the text of that
position. Without superfluous zeros they always reach the same. -/
theorem brackets_eq_dot_iff (v : Value) (hp : Closed p.toList) (hn : s ≠ "")
    (hd : ∀ c ∈ s.toList, c.isDigit = true) :
    (v.get? (p ++ "[" ++ s ++ "]") = v.get? (p ++ "." ++ s) ↔
      ∀ members, v.get? p = some (.object members) → Text.digitsValue s.toList < positionBound →
        Table.find? members (toString (Text.digitsValue s.toList)) = Table.find? members s) ∧
    ((s.toList.head? = some '0' → s = "0") →
      v.get? (p ++ "[" ++ s ++ "]") = v.get? (p ++ "." ++ s)) := by
  refine ⟨get?_brackets_iff v hp hn hd, fun hz => (get?_brackets_iff v hp hn hd).2 ?_⟩
  intro members _ _
  rw [Text.toString_digitsValue hn hd hz]

/-- In a list the leading zero makes no difference. -/
theorem brackets_eq_dot_of_list :
    let v := Value.object [("hosts", .array [.null, .bool true])]
    (Closed "hosts".toList ∧ "01" ≠ "" ∧ ∀ c ∈ "01".toList, c.isDigit = true) ∧
      v.get? ("hosts" ++ "[" ++ "01" ++ "]") = v.get? ("hosts" ++ "." ++ "01") := by
  intro v
  have hp : Closed "hosts".toList := closed_of_not_mem (by decide)
  have hd : ∀ c ∈ "01".toList, c.isDigit = true := List.all_eq_true.1 (by decide)
  have hhosts : v.get? "hosts" = some (.array [.null, .bool true]) := by
    rw [get?, show ofText "hosts" = [.key "hosts"] by decide +kernel]
    rfl
  refine ⟨⟨hp, by decide, hd⟩,
    (brackets_eq_dot_iff v hp (by decide) hd).1.2 fun members hm => ?_⟩
  cases hhosts.symm.trans hm

/-- An object tells the digits with leading zeros, behind the dot, from the position in brackets. -/
theorem brackets_ne_dot :
    let v := Value.object [("ports", .object [("007", .bool true)])]
    (Closed "ports".toList ∧ "007" ≠ "" ∧ ∀ c ∈ "007".toList, c.isDigit = true) ∧
      v.get? ("ports" ++ "[" ++ "007" ++ "]") ≠ v.get? ("ports" ++ "." ++ "007") := by
  intro v
  refine ⟨⟨closed_of_not_mem (by decide), by decide, List.all_eq_true.1 (by decide)⟩, ?_⟩
  have hbracket : v.get? ("ports" ++ "[" ++ "007" ++ "]") = none := by
    rw [get?, show ofText ("ports" ++ "[" ++ "007" ++ "]") = [.key "ports", .index 7] by
      decide +kernel]
    rfl
  have hdot : v.get? ("ports" ++ "." ++ "007") = some (.bool true) := by
    rw [get?, show ofText ("ports" ++ "." ++ "007") = [.key "ports", .key "007"] by
      decide +kernel]
    rfl
  rw [hbracket, hdot]
  exact nofun

end ConfigDoc.Path
