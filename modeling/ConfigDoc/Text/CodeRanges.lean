namespace ConfigDoc.Text

/-- A set of code points: the union of inclusive ranges. -/
abbrev CodeRanges := List (Nat × Nat)

def CodeRanges.holds (ranges : CodeRanges) (c : Char) : Bool :=
  ranges.any fun range => range.1 ≤ c.toNat && c.toNat ≤ range.2

theorem CodeRanges.holds_iff {ranges : CodeRanges} {c : Char} :
    ranges.holds c = true ↔ ∃ range ∈ ranges, range.1 ≤ c.toNat ∧ c.toNat ≤ range.2 := by
  simp [CodeRanges.holds]

end ConfigDoc.Text
