import ConfigDoc.Token.Cursor
import Mathlib.Data.List.TakeWhile

namespace ConfigDoc.Token

/-- A run of characters of one kind ends where one of another kind follows. -/
theorem span_append {p : Char → Bool} {cs rest : List Char} (hc : ∀ c ∈ cs, p c = true)
    (hr : ∀ c, rest.head? = some c → p c = false) :
    (cs ++ rest).takeWhile p = cs ∧ (cs ++ rest).dropWhile p = rest := by
  have hstop : rest.takeWhile p = [] ∧ rest.dropWhile p = rest := by
    cases rest with
    | nil => exact ⟨rfl, rfl⟩
    | cons c rest => simp [hr c rfl]
  rw [List.takeWhile_append_of_pos hc, List.dropWhile_append_of_pos hc, hstop.1, hstop.2,
    List.append_nil]
  exact ⟨rfl, rfl⟩

def IsComment (cs : List Char) : Prop := ∃ body, cs = '#' :: body ∧ '\n' ∉ body

/-- Whether a text is all that can be skipped in front of another one: blanks up to something else,
or blanks and a comment up to the end of its line. -/
def Skips (skipped rest : List Char) : Prop :=
  ∃ blanks comment, skipped = blanks ++ comment ∧ (∀ c ∈ blanks, isSpacing c = true) ∧
    ((comment = [] ∧ ∀ c, rest.head? = some c → isSpacing c = false ∧ c ≠ '#') ∨
      (IsComment comment ∧ ∀ c, rest.head? = some c → c = '\n'))

theorem Skips.cons {c : Char} {skipped rest : List Char} (hc : isSpacing c = true)
    (h : Skips skipped rest) : Skips (c :: skipped) rest := by
  obtain ⟨blanks, comment, rfl, hb, hend⟩ := h
  exact ⟨c :: blanks, comment, rfl, List.forall_mem_cons.2 ⟨hc, hb⟩, hend⟩

theorem splitBlanks_comment (cs : List Char) :
    splitBlanks true cs = (cs.takeWhile (· ≠ '\n'), cs.dropWhile (· ≠ '\n')) := by
  induction cs with
  | nil => rfl
  | cons c rest ih =>
    by_cases hc : c = '\n'
    · subst hc
      rfl
    · simp [splitBlanks, hc, ih]

theorem splitBlanks_spacing {c : Char} (hc : isSpacing c = true) (rest : List Char) :
    splitBlanks false (c :: rest) =
      (c :: (splitBlanks false rest).1, (splitBlanks false rest).2) := by
  have hn : ¬ c = '#' := by
    rintro rfl
    cases hc
  simp [splitBlanks, hc, hn]

theorem splitBlanks_number_sign (rest : List Char) :
    splitBlanks false ('#' :: rest) =
      ('#' :: (splitBlanks true rest).1, (splitBlanks true rest).2) := rfl

theorem splitBlanks_of_head {rest : List Char}
    (h : ∀ c, rest.head? = some c → isSpacing c = false ∧ c ≠ '#') :
    splitBlanks false rest = ([], rest) := by
  cases rest with
  | nil => rfl
  | cons c rest =>
    obtain ⟨hs, hn⟩ := h c rfl
    simp [splitBlanks, hs, hn]

theorem splitBlanks_of_comment {body rest : List Char} (hb : '\n' ∉ body)
    (hr : ∀ c, rest.head? = some c → c = '\n') :
    splitBlanks false ('#' :: (body ++ rest)) = ('#' :: body, rest) := by
  have hspan : (body ++ rest).takeWhile (· ≠ '\n') = body ∧
      (body ++ rest).dropWhile (· ≠ '\n') = rest :=
    span_append (fun c hc => decide_eq_true fun he => hb (he ▸ hc)) fun c hc => by
      rw [hr c hc]
      rfl
  rw [splitBlanks_number_sign, splitBlanks_comment, hspan.1, hspan.2]

/-- What is split off is what can be skipped. -/
theorem skips_splitBlanks (cs : List Char) :
    Skips (splitBlanks false cs).1 (splitBlanks false cs).2 := by
  induction cs with
  | nil => exact ⟨[], [], rfl, nofun, .inl ⟨rfl, nofun⟩⟩
  | cons c rest ih =>
    by_cases hs : isSpacing c = true
    · rw [splitBlanks_spacing hs]
      exact ih.cons hs
    · by_cases hn : c = '#'
      · subst hn
        rw [splitBlanks_number_sign, splitBlanks_comment]
        refine ⟨[], _, rfl, nofun, .inr ⟨⟨_, rfl, fun hm => ?_⟩, fun d hd => ?_⟩⟩
        · simpa using List.mem_takeWhile_imp hm
        · have hstop := List.head?_dropWhile_not (· ≠ '\n') rest
          rw [hd] at hstop
          simpa using hstop
      · have hhead : ∀ d, (c :: rest).head? = some d → isSpacing d = false ∧ d ≠ '#' := by
          rintro d ⟨⟩
          exact ⟨Bool.eq_false_iff.2 hs, hn⟩
        rw [splitBlanks_of_head hhead]
        exact ⟨[], [], rfl, nofun, .inl ⟨rfl, hhead⟩⟩

/-- What can be skipped is split off. -/
theorem splitBlanks_of_skips {skipped rest : List Char} (h : Skips skipped rest) :
    splitBlanks false (skipped ++ rest) = (skipped, rest) := by
  obtain ⟨blanks, comment, rfl, hb, hend⟩ := h
  induction blanks with
  | nil =>
    rcases hend with ⟨rfl, hr⟩ | ⟨⟨body, rfl, hn⟩, hr⟩
    · exact splitBlanks_of_head hr
    · exact splitBlanks_of_comment hn hr
  | cons c blanks ih =>
    obtain ⟨hc, hb⟩ := List.forall_mem_cons.1 hb
    rw [List.cons_append, List.cons_append, splitBlanks_spacing hc, ih hb]

end ConfigDoc.Token
