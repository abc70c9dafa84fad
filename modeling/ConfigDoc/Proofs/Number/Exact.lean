import ConfigDoc.Number.Arithmetic
import Mathlib.Data.Rat.Cast.Order
import Mathlib.Tactic.FieldSimp
import Mathlib.Tactic.Positivity
import Mathlib.Tactic.Ring

namespace ConfigDoc.Number

/-- From this shift on, numbers of units are whole. -/
def wholeShift : Nat := 1074

theorem unitsPerOne_eq : unitsPerOne = 2 ^ wholeShift := by decide +kernel

theorem unitsPerOne_pos : 0 < unitsPerOne := by
  rw [unitsPerOne_eq]
  positivity

theorem unitsPerOne_ne_zero : (unitsPerOne : ℚ) ≠ 0 := Nat.cast_ne_zero.2 unitsPerOne_pos.ne'

theorem significandBound_eq : significandBound = 2 ^ 53 := rfl

theorem leadingBit_eq : leadingBit = 2 ^ 52 := rfl

/-- The mathematical value of a finite number. -/
def value? : Number → Option ℚ
  | .finite negative significand shift _ =>
    some ((if negative then -1 else 1) * significand * 2 ^ ((shift : ℤ) - 1074))
  | _ => none

/-- The numbers of units that a double holds exactly. -/
def Fits (n : Nat) : Prop :=
  ∃ significand shift, significand < significandBound ∧ shift ≤ 2045 ∧ n = significand <<< shift

def signed (negative : Bool) (n : Nat) : Int := if negative then -n else n

@[simp] theorem units?_nan : nan.units? = none := rfl

@[simp] theorem units?_infinite (negative : Bool) : (infinite negative).units? = none := rfl

@[simp] theorem units?_finite {negative : Bool} {significand shift : Nat}
    {h : Canonical significand shift} :
    (finite negative significand shift h).units? = some (signed negative (significand <<< shift)) :=
  rfl

@[simp] theorem natAbs_signed (negative : Bool) (n : Nat) : (signed negative n).natAbs = n := by
  cases negative <;> simp [signed]

theorem signed_add_not {negative : Bool} {n k r : Nat} (h : k + r = n) :
    signed negative n + signed (!negative) k = signed negative r := by
  subst h
  cases negative <;> simp [signed]

theorem signed_natAbs (u : Int) : signed (decide (u < 0)) u.natAbs = u := by
  unfold signed
  split <;> rename_i h <;> simp only [decide_eq_true_eq] at h <;> omega

/-- A number has a value exactly if it has units, and then the one is a multiple of the other. -/
theorem value?_eq (x : Number) : x.value? = x.units?.map fun (u : Int) => (u : ℚ) / unitsPerOne := by
  cases x with
  | finite negative significand shift h =>
    have hp : (2 : ℚ) ^ ((shift : ℤ) - 1074) = 2 ^ shift / unitsPerOne := by
      rw [zpow_sub₀ two_ne_zero, zpow_natCast, unitsPerOne_eq, Nat.cast_pow]
      rfl
    simp only [value?, units?_finite, Option.map_some, hp, signed, Nat.shiftLeft_eq]
    cases negative <;> push_cast <;> simp <;> ring
  | _ => rfl

theorem value?_eq_int_iff {x : Number} {i : Int} :
    x.value? = some (i : ℚ) ↔ x.units? = some (i * unitsPerOne) := by
  have hp : (unitsPerOne : ℚ) ≠ 0 := unitsPerOne_ne_zero
  rw [value?_eq, Option.map_eq_some_iff]
  constructor
  · rintro ⟨u, hu, h⟩
    rw [div_eq_iff hp] at h
    have hi : u = i * unitsPerOne := by exact_mod_cast h
    rw [hu, hi]
  · intro h
    refine ⟨_, h, ?_⟩
    push_cast
    field_simp

theorem fits_of_canonical {significand shift : Nat} (h : Canonical significand shift) :
    Fits (significand <<< shift) :=
  ⟨significand, shift, h.1, h.2.1, rfl⟩

theorem fits_mul_units {n : Nat} (h : n < significandBound) : Fits (n * unitsPerOne) :=
  ⟨n, wholeShift, h, by decide, by rw [Nat.shiftLeft_eq, unitsPerOne_eq]⟩

theorem divideToEven_of_dvd {n d : Nat} (hd : 0 < d) (h : d ∣ n) : divideToEven n d = n / d := by
  have hm : n % d = 0 := Nat.mod_eq_zero_of_dvd h
  have hc : ¬ (d < 2 * (n % d) ∨ (2 * (n % d) = d ∧ n / d % 2 = 1)) := by omega
  exact if_neg hc

theorem log2_lt_of_fits {significand shift : Nat} (h : significand < significandBound) :
    (significand <<< shift).log2 - 52 ≤ shift := by
  by_cases hz : significand <<< shift = 0
  · simp [hz]
  · have hlt : significand <<< shift < 2 ^ (53 + shift) := by
      rw [Nat.shiftLeft_eq, Nat.pow_add]
      exact Nat.mul_lt_mul_of_pos_right h (Nat.two_pow_pos shift)
    have := (Nat.log2_lt hz).2 hlt
    omega

theorem nearest_of_fits (negative : Bool) {n : Nat} (h : Fits n) :
    ∃ significand shift canonical,
      nearest negative n 1 = .finite negative significand shift canonical ∧
        significand <<< shift = n := by
  obtain ⟨m, i, hm, hi, rfl⟩ := h
  have hs : (m <<< i).log2 - 52 ≤ i := log2_lt_of_fits hm
  generalize hn : m <<< i = n at hs ⊢
  generalize hk : n.log2 - 52 = k at hs
  have hdvd : 2 ^ k ∣ n := by
    rw [← hn, Nat.shiftLeft_eq]
    exact Dvd.dvd.mul_left (Nat.pow_dvd_pow 2 hs) m
  have hround : divideToEven n (1 <<< k) = n / 2 ^ k := by
    rw [Nat.one_shiftLeft, divideToEven_of_dvd (Nat.two_pow_pos k) hdvd]
  have hlt : n / 2 ^ k < significandBound := by
    rw [Nat.div_lt_iff_lt_mul (Nat.two_pow_pos k), significandBound_eq, ← Nat.pow_add]
    exact Nat.lt_of_lt_of_le Nat.lt_log2_self (Nat.pow_le_pow_right (by decide) (by omega))
  -- what is left of the number is canonical: without a shift, or with the leading bit set
  have hlow : k = 0 ∨ leadingBit ≤ n / 2 ^ k := by
    rcases Nat.eq_zero_or_pos k with h0 | h0
    · exact .inl h0
    · right
      have hz : n ≠ 0 := by
        rintro rfl
        simp at hk
        omega
      rw [Nat.le_div_iff_mul_le (Nat.two_pow_pos k), leadingBit_eq, ← Nat.pow_add]
      exact Nat.le_trans (Nat.pow_le_pow_right (by decide) (by omega)) (Nat.log2_self_le hz)
  have hc : Canonical (n / 2 ^ k) k := ⟨hlt, by omega, hlow⟩
  refine ⟨n / 2 ^ k, k, hc, ?_, ?_⟩
  · simp only [nearest, Nat.div_one, hk, hround, if_neg (Nat.ne_of_lt hlt), ofParts, dif_pos hc]
  · rw [Nat.shiftLeft_eq, Nat.div_mul_cancel hdvd]

theorem units?_nearest (negative : Bool) {n : Nat} (h : Fits n) :
    (nearest negative n 1).units? = some (signed negative n) := by
  obtain ⟨significand, shift, hc, he, hn⟩ := nearest_of_fits negative h
  rw [he, units?_finite, hn]

theorem units?_ofUnits (negative : Bool) {u : Int} (h : Fits u.natAbs) :
    (ofUnits negative u).units? = some u := by
  rw [ofUnits, units?_nearest _ h]
  split
  · rename_i hu
    subst hu
    cases negative <;> rfl
  · rw [signed_natAbs]

/-- Small integers are doubles. -/
theorem value?_ofInt {i : Int} (h : i.natAbs < significandBound) :
    (ofInt i).value? = some (i : ℚ) := by
  rw [value?_eq_int_iff, ofInt, units?_nearest _ (fits_mul_units h)]
  have hs : signed (decide (i < 0)) (i.natAbs * unitsPerOne) =
      signed (decide (i < 0)) i.natAbs * unitsPerOne := by
    cases decide (i < 0) <;> simp [signed]
  rw [hs, signed_natAbs]

theorem value?_zero : zero.value? = some ((0 : Int) : ℚ) := value?_ofInt (by decide)

theorem finite_of_units {x : Number} {u : Int} (h : x.units? = some u) :
    ∃ negative significand shift canonical, x = .finite negative significand shift canonical ∧
      u = signed negative (significand <<< shift) := by
  cases x with
  | finite negative significand shift canonical =>
    cases h
    exact ⟨negative, significand, shift, canonical, rfl, rfl⟩
  | _ => cases h

theorem equal_of_units {x y : Number} {u v : Int} (hx : x.units? = some u)
    (hy : y.units? = some v) : x.equal y = decide (u = v) := by
  obtain ⟨_, _, _, _, rfl, rfl⟩ := finite_of_units hx
  obtain ⟨_, _, _, _, rfl, rfl⟩ := finite_of_units hy
  rfl

theorem below_of_units {x y : Number} {u v : Int} (hx : x.units? = some u)
    (hy : y.units? = some v) : x.below y = decide (u < v) := by
  obtain ⟨_, _, _, _, rfl, rfl⟩ := finite_of_units hx
  obtain ⟨_, _, _, _, rfl, rfl⟩ := finite_of_units hy
  rfl

section Order

variable {x y : Number} {q r : ℚ}

theorem exists_units (h : x.value? = some q) : ∃ u : Int, x.units? = some u ∧ u / unitsPerOne = q := by
  rwa [value?_eq, Option.map_eq_some_iff] at h

theorem equal_of_value (hx : x.value? = some q) (hy : y.value? = some r) :
    x.equal y = decide (q = r) := by
  obtain ⟨u, hu, rfl⟩ := exists_units hx
  obtain ⟨v, hv, rfl⟩ := exists_units hy
  have hp : (unitsPerOne : ℚ) ≠ 0 := unitsPerOne_ne_zero
  rw [equal_of_units hu hv, decide_eq_decide, div_left_inj' hp, Int.cast_inj]

theorem below_of_value (hx : x.value? = some q) (hy : y.value? = some r) :
    x.below y = decide (q < r) := by
  obtain ⟨u, hu, rfl⟩ := exists_units hx
  obtain ⟨v, hv, rfl⟩ := exists_units hy
  have hp : (0 : ℚ) < unitsPerOne := Nat.cast_pos.2 unitsPerOne_pos
  rw [below_of_units hu hv, decide_eq_decide, div_lt_div_iff_of_pos_right hp, Int.cast_lt]

theorem atMost_of_value (hx : x.value? = some q) (hy : y.value? = some r) :
    x.atMost y = decide (q ≤ r) := by
  rw [atMost, below_of_value hx hy, equal_of_value hx hy, ← Bool.decide_or, decide_eq_decide]
  exact le_iff_lt_or_eq.symm

end Order

theorem unitsPerOne_dvd {shift : Nat} (h : wholeShift ≤ shift) (significand : Nat) :
    unitsPerOne ∣ significand <<< shift := by
  rw [Nat.shiftLeft_eq]
  apply Dvd.dvd.mul_left
  rw [unitsPerOne_eq]
  exact Nat.pow_dvd_pow 2 h

theorem unitsPerOne_split {shift : Nat} (h : shift ≤ wholeShift) :
    unitsPerOne = 2 ^ (wholeShift - shift) * 2 ^ shift := by
  rw [← Nat.pow_add, Nat.sub_add_cancel h, unitsPerOne_eq]

theorem fits_truncated {significand shift : Nat} (h : Canonical significand shift) :
    Fits ((significand <<< shift) / unitsPerOne * unitsPerOne) := by
  rcases Nat.le_total wholeShift shift with hs | hs
  · rw [Nat.div_mul_cancel (unitsPerOne_dvd hs significand)]
    exact fits_of_canonical h
  · apply fits_mul_units
    refine Nat.lt_of_le_of_lt (Nat.div_le_of_le_mul ?_) h.1
    rw [Nat.shiftLeft_eq, Nat.mul_comm, unitsPerOne_split hs, Nat.mul_assoc]
    exact Nat.le_mul_of_pos_left _ (Nat.two_pow_pos _)

theorem fits_remainder {significand shift : Nat} (h : Canonical significand shift) :
    Fits ((significand <<< shift) % unitsPerOne) := by
  rcases Nat.le_total wholeShift shift with hs | hs
  · rw [Nat.mod_eq_zero_of_dvd (unitsPerOne_dvd hs significand)]
    exact ⟨0, 0, by decide, by decide, rfl⟩
  · refine ⟨significand % 2 ^ (wholeShift - shift), shift, ?_, h.2.1, ?_⟩
    · exact Nat.lt_of_le_of_lt (Nat.mod_le _ _) h.1
    · rw [unitsPerOne_split hs, Nat.shiftLeft_eq, Nat.shiftLeft_eq, Nat.mul_mod_mul_right]

theorem add_finite {a b : Bool} {m i n j : Nat} {h : Canonical m i} {h' : Canonical n j} :
    (finite a m i h).add (finite b n j h') =
      ofUnits (a && b) (signed a (m <<< i) + signed b (n <<< j)) :=
  rfl

theorem units?_fraction {negative : Bool} {significand shift : Nat}
    {h : Canonical significand shift} :
    (fraction (.finite negative significand shift h)).units? =
      some (signed negative ((significand <<< shift) % unitsPerOne)) := by
  -- the whole part and the remainder both fit, so that neither of the two steps rounds
  obtain ⟨m, i, hc, he, hn⟩ := nearest_of_fits negative (fits_truncated h)
  have hsum : signed negative (significand <<< shift) + signed (!negative) (m <<< i) =
      signed negative ((significand <<< shift) % unitsPerOne) := by
    apply signed_add_not
    rw [hn]
    exact Nat.div_add_mod' ..
  rw [fraction, subtract, truncate, he, negate, add_finite, hsum, units?_ofUnits]
  rw [natAbs_signed]
  exact fits_remainder h

theorem fraction_nan : nan.fraction = .nan := rfl

theorem fraction_infinite (negative : Bool) : (infinite negative).fraction = .nan := by
  cases negative <;> rfl

/-- Only integers are whole. -/
theorem isWhole_iff {x : Number} : x.isWhole = true ↔ ∃ i : Int, x.value? = some (i : ℚ) := by
  simp only [value?_eq_int_iff]
  cases x with
  | nan => simp [isWhole, fraction_nan, equal]
  | infinite negative => simp [isWhole, fraction_infinite, equal]
  | finite negative significand shift h =>
    rw [isWhole, equal_of_units units?_fraction (value?_eq_int_iff.1 value?_zero),
      decide_eq_true_eq, Int.zero_mul, units?_finite]
    constructor
    · intro hr
      have hd : unitsPerOne ∣ significand <<< shift := by
        apply Nat.dvd_of_mod_eq_zero
        rw [← natAbs_signed negative ((significand <<< shift) % unitsPerOne), hr]
        rfl
      obtain ⟨k, hk⟩ := hd
      refine ⟨signed negative k, ?_⟩
      rw [hk]
      cases negative <;> simp [signed, Int.mul_comm]
    · rintro ⟨i, hi⟩
      have hn : significand <<< shift = i.natAbs * unitsPerOne := by
        have := congrArg (Option.map Int.natAbs) hi
        simpa [Int.natAbs_mul] using this
      rw [hn, Nat.mul_mod_left]
      cases negative <;> rfl

/-- A number is an integer or it is not whole. -/
theorem value?_cases (x : Number) :
    (∃ i : Int, x.value? = some (i : ℚ)) ∨ x.isWhole = false := by
  cases h : x.isWhole with
  | true => exact .inl (isWhole_iff.1 h)
  | false => exact .inr rfl

theorem clamp_of_value {x : Number} {i : Int} (h : x.value? = some (i : ℚ)) (low high : Int) :
    x.clamp low high = max low (min high i) := by
  rw [value?_eq_int_iff] at h
  cases x with
  | finite negative significand shift hc =>
    rw [units?_finite, Option.some_inj] at h
    have hn : significand <<< shift = i.natAbs * unitsPerOne := by
      rw [← natAbs_signed negative (significand <<< shift), h, Int.natAbs_mul, Int.natAbs_natCast]
    have hi : signed negative i.natAbs = i := by
      apply Int.eq_of_mul_eq_mul_right (Int.natCast_ne_zero.2 unitsPerOne_pos.ne')
      rw [← h, hn]
      cases negative <;> simp [signed]
    rw [clamp, hn, Nat.mul_div_cancel _ unitsPerOne_pos]
    exact congrArg (fun k => max low (min high k)) hi
  | _ => cases h

end ConfigDoc.Number
