import ConfigDoc.Proofs.Number.Exact
import ConfigDoc.Value.Typed

/-! Integers read off doubles, by guards whose bounds are doubles themselves. -/

namespace ConfigDoc

theorem Value.value?_leastInteger :
    Value.leastInteger.value? = some (Int64.minValue.toInt : ℚ) :=
  Number.value?_eq_int_iff.2 (by decide +kernel)

/-- The greatest integer with a sign is no double; it is rounded to one more, which is out of the
range. -/
theorem Value.value?_greatestInteger :
    Value.greatestInteger.value? = some ((Int64.maxValue.toInt + 1 : Int) : ℚ) :=
  Number.value?_eq_int_iff.2 (by decide +kernel)

/-- One more than the greatest number of a width is a double. For words the greatest number is none:
it is rounded to one more, and the sum is rounded back to that. -/
theorem Width.value?_largest_add_one (width : Width) :
    (width.largest.add .one).value? = some ((width.bound : Int) : ℚ) := by
  rw [Number.value?_eq_int_iff]
  cases width <;> decide +kernel

namespace Value

variable {x : Number} {i : Int}

theorem leastInteger_atMost (h : x.value? = some (i : ℚ)) :
    leastInteger.atMost x = decide (Int64.minValue.toInt ≤ i) := by
  rw [Number.atMost_of_value value?_leastInteger h, decide_eq_decide, Int.cast_le]

theorem below_greatestInteger (h : x.value? = some (i : ℚ)) :
    x.below greatestInteger = decide (i ≤ Int64.maxValue.toInt) := by
  rw [Number.below_of_value h value?_greatestInteger, decide_eq_decide, Int.cast_lt]
  exact Int.lt_add_one_iff

theorem toInteger_of_value (h : x.value? = some (i : ℚ)) :
    (Value.number x).toInteger =
      if Int64.minValue.toInt ≤ i ∧ i ≤ Int64.maxValue.toInt then .ok i
      else .error (.typeMismatch ("Number " ++ x.text ++ " out of range for i64")
        (some "Use a whole number that fits in 64 bits")) := by
  have hw : x.isWhole = true := Number.isWhole_iff.2 ⟨i, h⟩
  rw [toInteger, hw, leastInteger_atMost h, below_greatestInteger h, Number.clamp_of_value h,
    Bool.true_and, ← Bool.decide_and]
  by_cases hi : Int64.minValue.toInt ≤ i ∧ i ≤ Int64.maxValue.toInt
  · rw [if_pos hi, if_pos (decide_eq_true hi), min_eq_right hi.2, max_eq_right hi.1]
  · rw [if_neg hi, if_neg fun h => hi (of_decide_eq_true h)]
    rfl

theorem toInteger_of_not_whole (h : x.isWhole = false) :
    (Value.number x).toInteger =
      .error (.typeMismatch ("Number " ++ x.text ++ " is not a whole number")
        (some "Drop the fractional part")) := by
  rw [toInteger, h]
  rfl

theorem zero_atMost (h : x.value? = some (i : ℚ)) : Number.zero.atMost x = decide (0 ≤ i) := by
  rw [Number.atMost_of_value Number.value?_zero h, decide_eq_decide, Int.cast_le]

theorem below_largest_add_one (width : Width) (h : x.value? = some (i : ℚ)) :
    x.below (width.largest.add .one) = decide (i < width.bound) := by
  rw [Number.below_of_value h width.value?_largest_add_one, decide_eq_decide, Int.cast_lt]

def outOfWidth (width : Width) (x : Number) : Error :=
  .typeMismatch ("Number " ++ x.text ++ " out of range for " ++ width.name)
    (some ("Use a whole number between 0 and " ++ width.largest.text))

theorem toNatural_of_value (width : Width) (h : x.value? = some (i : ℚ)) :
    (Value.number x).toNatural width =
      if 0 ≤ i ∧ i < width.bound then .ok i.toNat else .error (outOfWidth width x) := by
  have hw : x.isWhole = true := Number.isWhole_iff.2 ⟨i, h⟩
  rw [toNatural, hw, zero_atMost h, below_largest_add_one width h, Number.clamp_of_value h,
    Bool.and_true, ← Bool.decide_and]
  by_cases hi : 0 ≤ i ∧ i < width.bound
  · have hm : i ≤ Int.ofNat (width.bound - 1) := by
      simp only [Int.ofNat_eq_natCast]
      omega
    rw [if_pos hi, if_pos (decide_eq_true hi), min_eq_right hm, max_eq_right hi.1]
  · rw [if_neg hi, if_neg fun h => hi (of_decide_eq_true h)]
    rfl

theorem toNatural_of_not_whole (width : Width) (h : x.isWhole = false) :
    (Value.number x).toNatural width = .error (outOfWidth width x) := by
  rw [toNatural, h, if_neg (by simp)]
  rfl

/-- A reader that answers for the integers of a range, and refuses all else as a value of the wrong
type. -/
theorem reads_range_iff {α : Type} {result : Except Error α} (inRange : Int → Prop) (read : Int → α)
    (hr : ∀ i : Int, x.value? = some (i : ℚ) → inRange i → result = .ok (read i))
    (ho : (¬ ∃ i : Int, x.value? = some (i : ℚ) ∧ inRange i) →
      ∃ message hint, result = .error (.typeMismatch message hint)) :
    (∀ a, result = .ok a ↔ ∃ i : Int, x.value? = some (i : ℚ) ∧ inRange i ∧ read i = a) ∧
      ((∃ message hint, result = .error (.typeMismatch message hint)) ↔
        ¬ ∃ i : Int, x.value? = some (i : ℚ) ∧ inRange i) := by
  by_cases hx : ∃ i : Int, x.value? = some (i : ℚ) ∧ inRange i
  · obtain ⟨i, hv, hi⟩ := hx
    have hu (j : Int) (hj : x.value? = some (j : ℚ)) : j = i := by simpa [hv] using hj.symm
    rw [hr i hv hi]
    constructor
    · intro a
      constructor
      · intro h
        cases h
        exact ⟨i, hv, hi, rfl⟩
      · rintro ⟨j, hj, -, rfl⟩
        rw [hu j hj]
    · constructor
      · rintro ⟨_, _, h⟩
        cases h
      · intro h
        exact absurd ⟨i, hv, hi⟩ h
  · obtain ⟨message, hint, he⟩ := ho hx
    rw [he]
    constructor
    · intro a
      constructor
      · intro h
        cases h
      · rintro ⟨i, hv, hi, -⟩
        exact absurd ⟨i, hv, hi⟩ hx
    · exact ⟨fun _ => hx, fun _ => ⟨message, hint, rfl⟩⟩

theorem toInteger_iff (x : Number) :
    (∀ i : Int, (Value.number x).toInteger = .ok i ↔
        x.value? = some (i : ℚ) ∧ Int64.minValue.toInt ≤ i ∧ i ≤ Int64.maxValue.toInt) ∧
      ((∃ message hint, (Value.number x).toInteger = .error (.typeMismatch message hint)) ↔
        ¬ ∃ i : Int, x.value? = some (i : ℚ) ∧
          Int64.minValue.toInt ≤ i ∧ i ≤ Int64.maxValue.toInt) := by
  have hr (i : Int) (hv : x.value? = some (i : ℚ))
      (hi : Int64.minValue.toInt ≤ i ∧ i ≤ Int64.maxValue.toInt) :
      (Value.number x).toInteger = .ok i := by
    rw [toInteger_of_value hv, if_pos hi]
  have h := reads_range_iff _ id hr ?_
  · simpa using h
  · intro hx
    rcases x.value?_cases with ⟨i, hv⟩ | hw
    · rw [toInteger_of_value hv, if_neg fun hi => hx ⟨i, hv, hi⟩]
      exact ⟨_, _, rfl⟩
    · exact ⟨_, _, toInteger_of_not_whole hw⟩

theorem toNatural_iff (width : Width) (x : Number) :
    (∀ n : Nat, (Value.number x).toNatural width = .ok n ↔
        x.value? = some (n : ℚ) ∧ n < width.bound) ∧
      ((∃ message hint, (Value.number x).toNatural width = .error (.typeMismatch message hint)) ↔
        ¬ ∃ n : Nat, x.value? = some (n : ℚ) ∧ n < width.bound) := by
  have hn (n : Nat) : (x.value? = some (n : ℚ) ∧ n < width.bound) ↔
      ∃ i : Int, x.value? = some (i : ℚ) ∧ (0 ≤ i ∧ i < width.bound) ∧ i.toNat = n := by
    constructor
    · rintro ⟨hv, hb⟩
      exact ⟨n, hv, ⟨Int.natCast_nonneg n, Int.ofNat_lt.2 hb⟩, Int.toNat_natCast n⟩
    · rintro ⟨i, hv, ⟨h0, hb⟩, rfl⟩
      lift i to ℕ using h0
      exact ⟨hv, Int.ofNat_lt.1 hb⟩
  have hr (i : Int) (hv : x.value? = some (i : ℚ)) (hi : 0 ≤ i ∧ i < width.bound) :
      (Value.number x).toNatural width = .ok i.toNat := by
    rw [toNatural_of_value width hv, if_pos hi]
  have h := reads_range_iff _ Int.toNat hr ?_
  · simp only [hn]
    refine ⟨h.1, h.2.trans (not_congr ⟨?_, ?_⟩)⟩
    · rintro ⟨i, hv, hi⟩
      exact ⟨i.toNat, i, hv, hi, rfl⟩
    · rintro ⟨n, i, hv, hi, -⟩
      exact ⟨i, hv, hi⟩
  · intro hx
    rcases x.value?_cases with ⟨i, hv⟩ | hw
    · rw [toNatural_of_value width hv, if_neg fun hi => hx ⟨i, hv, hi⟩]
      exact ⟨_, _, rfl⟩
    · exact ⟨_, _, toNatural_of_not_whole width hw⟩

/-- A number is read as exactly the integer that it is equal to, if the type has room for it, and as
nothing else: what is left, infinities and NaN included, is of the wrong type. -/
theorem integers_exact (x : Number) :
    ((∀ i : Int, (Value.number x).toInteger = .ok i ↔
          x.value? = some (i : ℚ) ∧ Int64.minValue.toInt ≤ i ∧ i ≤ Int64.maxValue.toInt) ∧
        ((∃ message hint, (Value.number x).toInteger = .error (.typeMismatch message hint)) ↔
          ¬ ∃ i : Int, x.value? = some (i : ℚ) ∧
            Int64.minValue.toInt ≤ i ∧ i ≤ Int64.maxValue.toInt)) ∧
      ∀ width : Width,
        (∀ n : Nat, (Value.number x).toNatural width = .ok n ↔
            x.value? = some (n : ℚ) ∧ n < width.bound) ∧
          ((∃ message hint,
              (Value.number x).toNatural width = .error (.typeMismatch message hint)) ↔
            ¬ ∃ n : Nat, x.value? = some (n : ℚ) ∧ n < width.bound) :=
  ⟨toInteger_iff x, fun width => toNatural_iff width x⟩

example : (Value.number (.ofInt (2 ^ 63))).toInteger.isOk = false := by decide +kernel

example : ((Value.number (.ofInt (2 ^ 64))).toNatural .word).isOk = false := by decide +kernel

end Value

end ConfigDoc
