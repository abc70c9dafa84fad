import ConfigDoc.Text.Blank
import ConfigDoc.Text.Natural
import Mathlib.Data.List.Basic
import Mathlib.Data.List.Induction
import Mathlib.Data.List.TakeWhile

namespace ConfigDoc.Text

theorem digitsValue_append_singleton (digits : List Char) (c : Char) :
    digitsValue (digits ++ [c]) = 10 * digitsValue digits + (c.toNat - '0'.toNat) :=
  List.foldl_concat ..

theorem digitsValue_toDigits (n : Nat) : digitsValue (Nat.toDigits 10 n) = n := by
  rw [digitsValue, ← Nat.ofDigitChars_eq_foldl, Nat.ofDigitChars_ten_toDigits]

theorem digitChar_of_isDigit {c : Char} (h : c.isDigit = true) :
    c.toNat - '0'.toNat < 10 ∧ (c.toNat - '0'.toNat).digitChar = c := by
  obtain ⟨hl, hu⟩ := Char.isDigit_iff_toNat.1 h
  change 48 ≤ c.toNat at hl
  change c.toNat ≤ 57 at hu
  have hlt : c.toNat - '0'.toNat < 10 := by
    change c.toNat - 48 < 10
    omega
  refine ⟨hlt, Char.toNat_inj.1 ?_⟩
  rw [Nat.toNat_digitChar_of_lt_ten hlt]
  change 48 + (c.toNat - 48) = c.toNat
  omega

section
variable {digits : List Char}

/-- A numeral that begins with no superfluous zero is the one in which its value is written. -/
theorem toDigits_digitsValue (hn : digits ≠ []) (hd : ∀ c ∈ digits, c.isDigit = true)
    (hz : digits.head? = some '0' → digits = ['0']) :
    Nat.toDigits 10 (digitsValue digits) = digits := by
  induction digits using List.reverseRecOn with
  | nil => exact absurd rfl hn
  | append_singleton rest c ih =>
    obtain ⟨hc, hchar⟩ := digitChar_of_isDigit (hd c (List.mem_append_right _ List.mem_cons_self))
    rw [digitsValue_append_singleton]
    by_cases hr : rest = []
    · subst hr
      rw [show digitsValue [] = 0 from rfl, Nat.mul_zero, Nat.zero_add, List.nil_append,
        Nat.toDigits_of_lt_base hc, hchar]
    · have hhead : rest.head? ≠ some '0' := by
        intro h
        have hzero := hz (by rw [List.head?_append_of_ne_nil _ hr, h])
        have hl := congrArg List.length hzero
        rw [List.length_append] at hl
        exact hr (List.eq_nil_of_length_eq_zero (Nat.add_right_cancel hl))
      have hrest := ih hr (fun c hm => hd c (List.mem_append_left _ hm)) fun h => absurd h hhead
      have hpos : 0 < digitsValue rest := by
        rw [Nat.pos_iff_ne_zero]
        intro h
        rw [h] at hrest
        exact hhead (by rw [← hrest]; rfl)
      rw [← Nat.toDigits_append_toDigits (by decide) hpos hc, hrest, Nat.toDigits_of_lt_base hc,
        hchar]

theorem natural?_of_digits (hn : digits ≠ []) (hd : ∀ c ∈ digits, c.isDigit = true) :
    natural? digits = some (digitsValue digits) := by
  have hall : digits ≠ [] ∧ digits.all Char.isDigit = true := ⟨hn, List.all_eq_true.2 hd⟩
  unfold natural?
  dsimp only
  split
  · exact absurd (hd '+' List.mem_cons_self) (by decide)
  · exact if_pos hall

/-- Digits are not blank. -/
theorem trim_of_digits (hd : ∀ c ∈ digits, c.isDigit = true) : trim digits = digits := by
  have hblank : ∀ c ∈ digits, ¬ isBlank c = true := by
    intro c hc h
    obtain ⟨hl, hu⟩ := Char.isDigit_iff_toNat.1 (hd c hc)
    obtain ⟨range, hm, hr⟩ := CodeRanges.holds_iff.1 h
    change 48 ≤ c.toNat at hl
    change c.toNat ≤ 57 at hu
    simp only [blankRanges, List.mem_cons, List.not_mem_nil, or_false] at hm
    rcases hm with rfl | rfl | rfl | rfl | rfl | rfl | rfl | rfl | rfl | rfl <;>
      simp only at hr <;> omega
  have hself : ∀ cs : List Char, (∀ c ∈ cs, c ∈ digits) → cs.dropWhile isBlank = cs := by
    intro cs hcs
    exact List.dropWhile_eq_self_iff.2 fun hl => hblank _ (hcs _ (List.getElem_mem hl))
  rw [trim, hself digits fun _ h => h, hself _ fun _ h => List.mem_reverse.1 h,
    List.reverse_reverse]

end

theorem toList_toString (n : Nat) : (toString n).toList = Nat.toDigits 10 n := by
  rw [Nat.toString_eq_repr, Nat.toList_repr]

theorem isDigit_toString (n : Nat) : ∀ c ∈ (toString n).toList, c.isDigit = true := by
  intro c h
  rw [toList_toString] at h
  exact Nat.isDigit_of_mem_toDigits (by decide) (by decide) h

theorem toString_ne_nil (n : Nat) : (toString n).toList ≠ [] := by
  rw [toList_toString]
  exact Nat.toDigits_ne_nil

theorem digitsValue_toString (n : Nat) : digitsValue (toString n).toList = n := by
  rw [toList_toString, digitsValue_toDigits]

theorem natural?_toString (n : Nat) : natural? (toString n).toList = some n := by
  rw [natural?_of_digits (toString_ne_nil n) (isDigit_toString n), digitsValue_toString]

theorem toString_digitsValue {s : String} (hn : s ≠ "") (hd : ∀ c ∈ s.toList, c.isDigit = true)
    (hz : s.toList.head? = some '0' → s = "0") : toString (digitsValue s.toList) = s := by
  rw [← String.toList_inj, toList_toString]
  refine toDigits_digitsValue (mt String.toList_eq_nil_iff.1 hn) hd fun h => ?_
  rw [hz h]
  rfl

end ConfigDoc.Text
