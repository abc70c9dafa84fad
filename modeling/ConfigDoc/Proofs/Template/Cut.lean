import ConfigDoc.Template.Basic
import Mathlib.Data.List.TakeWhile
import Mathlib.Tactic.Common

/-! A template cut into literals and tokens from left to right, and its text put together again. -/

namespace ConfigDoc.Template

/-- Whether a text begins with a whole token: its key is not empty, and ends at the first closing
brace. -/
def OpensToken (cs : List Char) : Prop :=
  ∃ key after, key ≠ [] ∧ '\x7d' ∉ key ∧ cs = '$' :: '\x7b' :: key ++ '\x7d' :: after

/-- A literal, and tokens behind it, each with its key and the literal that follows. -/
structure Cut where
  first : List Char
  tokens : List (String × List Char)
  deriving DecidableEq

def tokenChars (key : String) : List Char := '$' :: '\x7b' :: key.toList ++ ['\x7d']

/-- No token begins in the literal, not even one that reaches into the text behind it. -/
def Quiet (literal after : List Char) : Prop :=
  ∀ front back, literal = front ++ back → back ≠ [] → ¬ OpensToken (back ++ after)

namespace Cut

def keys (cut : Cut) : List String := cut.tokens.map Prod.fst

def tail (textOf : String → List Char) (tokens : List (String × List Char)) : List Char :=
  tokens.flatMap fun token => textOf token.1 ++ token.2

def chars (textOf : String → List Char) (cut : Cut) : List Char :=
  cut.first ++ tail textOf cut.tokens

def Leftmost (literal : List Char) : List (String × List Char) → Prop
  | [] => Quiet literal []
  | (key, next) :: rest => Quiet literal (tail tokenChars ((key, next) :: rest)) ∧
      key ≠ "" ∧ '\x7d' ∉ key.toList ∧ Leftmost next rest

structure Reads (cut : Cut) (cs : List Char) : Prop where
  written : cut.chars tokenChars = cs
  leftmost : Leftmost cut.first cut.tokens

def pieces (cut : Cut) : List Piece :=
  cut.first.map .literal ++ cut.tokens.flatMap fun token => .token token.1 :: token.2.map .literal

def ofPieces : List Piece → Cut
  | [] => ⟨[], []⟩
  | .literal c :: rest => ⟨c :: (ofPieces rest).first, (ofPieces rest).tokens⟩
  | .token key :: rest => ⟨[], (key, (ofPieces rest).first) :: (ofPieces rest).tokens⟩

theorem ofPieces_literals (literal : List Char) (ps : List Piece) :
    ofPieces (literal.map .literal ++ ps) =
      ⟨literal ++ (ofPieces ps).first, (ofPieces ps).tokens⟩ := by
  induction literal with
  | nil => rfl
  | cons c rest ih => rw [List.map_cons, List.cons_append, ofPieces, ih, List.cons_append]

theorem ofPieces_pieces (cut : Cut) : ofPieces cut.pieces = cut := by
  obtain ⟨first, tokens⟩ := cut
  induction tokens generalizing first with
  | nil =>
    rw [pieces, ofPieces_literals]
    exact congrArg (Cut.mk · []) (List.append_nil first)
  | cons token rest ih =>
    obtain ⟨key, next⟩ := token
    have hnext := ih next
    rw [pieces] at hnext
    rw [pieces, ofPieces_literals, List.flatMap_cons, List.cons_append, ofPieces, hnext]
    exact congrArg (Cut.mk · _) (List.append_nil first)

end Cut

open Cut

variable {cs key after : List Char}

/-- A key ends at the first closing brace. -/
theorem span_key (hb : '\x7d' ∉ key) (after : List Char) :
    (key ++ '\x7d' :: after).takeWhile (· ≠ '\x7d') = key ∧
    (key ++ '\x7d' :: after).dropWhile (· ≠ '\x7d') = '\x7d' :: after := by
  have hall : ∀ c ∈ key, decide (c ≠ '\x7d') = true := by
    intro c hc
    apply decide_eq_true
    rintro rfl
    exact hb hc
  constructor
  · rw [List.takeWhile_append_of_pos hall]
    simp
  · rw [List.dropWhile_append_of_pos hall]
    simp

/-- The text up to the first closing brace, if there is one. -/
theorem eq_of_dropWhile_eq_cons {brace : Char} (h : cs.dropWhile (· ≠ '\x7d') = brace :: after) :
    '\x7d' ∉ cs.takeWhile (· ≠ '\x7d') ∧ cs = cs.takeWhile (· ≠ '\x7d') ++ '\x7d' :: after := by
  have hbrace : brace = '\x7d' := by
    have hn := List.head?_dropWhile_not (· ≠ '\x7d') cs
    rw [h] at hn
    simpa using hn
  constructor
  · intro hm
    have hne := List.mem_takeWhile_imp hm
    simp at hne
  · conv_lhs => rw [← List.takeWhile_append_dropWhile (p := (· ≠ '\x7d')) (l := cs)]
    rw [h, hbrace]

theorem tokenAt?_eq_some_iff : tokenAt? cs = some (key, after) ↔
    key ≠ [] ∧ '\x7d' ∉ key ∧ cs = '$' :: '\x7b' :: key ++ '\x7d' :: after := by
  constructor
  · intro h
    unfold tokenAt? at h
    split at h
    · rename_i rest
      dsimp only at h
      split at h
      · cases h
      · rename_i brace after' hd
        split at h
        · cases h
        · rename_i hk
          cases h
          obtain ⟨hb, hrest⟩ := eq_of_dropWhile_eq_cons hd
          refine ⟨hk, hb, ?_⟩
          rw [List.cons_append, List.cons_append, ← hrest]
    · cases h
  · rintro ⟨hk, hb, rfl⟩
    obtain ⟨ht, hd⟩ := span_key hb after
    simp only [List.cons_append, tokenAt?, ht, hd, if_neg hk]

theorem tokenAt?_eq_none_iff : tokenAt? cs = none ↔ ¬ OpensToken cs := by
  rw [← Option.not_isSome_iff_eq_none, not_iff_not, Option.isSome_iff_exists]
  constructor
  · rintro ⟨⟨key, after⟩, h⟩
    exact ⟨key, after, tokenAt?_eq_some_iff.1 h⟩
  · rintro ⟨key, after, h⟩
    exact ⟨(key, after), tokenAt?_eq_some_iff.2 h⟩

theorem split_token (hk : key ≠ []) (hb : '\x7d' ∉ key) :
    split ('$' :: '\x7b' :: key ++ '\x7d' :: after) = .token (String.ofList key) :: split after := by
  have ht := tokenAt?_eq_some_iff.2 ⟨hk, hb, Eq.refl ('$' :: '\x7b' :: key ++ '\x7d' :: after)⟩
  rw [List.cons_append] at ht ⊢
  rw [split]
  split
  · rename_i h
    cases h.symm.trans ht
    rfl
  · rename_i h
    cases h.symm.trans ht

theorem split_literal {c : Char} (h : ¬ OpensToken (c :: cs)) :
    split (c :: cs) = .literal c :: split cs := by
  have ht := tokenAt?_eq_none_iff.2 h
  rw [split]
  split
  · rename_i hs
    cases hs.symm.trans ht
  · rfl

theorem quiet_cons {c : Char} {literal : List Char} :
    Quiet (c :: literal) after ↔ ¬ OpensToken (c :: (literal ++ after)) ∧ Quiet literal after := by
  constructor
  · intro h
    refine ⟨h [] (c :: literal) rfl (List.cons_ne_nil c literal), fun front back he hb => ?_⟩
    exact h (c :: front) back (congrArg (c :: ·) he) hb
  · rintro ⟨hc, hl⟩ front back he hb
    cases front with
    | nil =>
      rw [List.nil_append] at he
      rwa [← he]
    | cons d front => exact hl front back (List.cons.inj he).2 hb

theorem Cut.Leftmost.cons {c : Char} {literal : List Char} {tokens : List (String × List Char)}
    (hl : Leftmost literal tokens) (hc : ¬ OpensToken (c :: (literal ++ tail tokenChars tokens))) :
    Leftmost (c :: literal) tokens := by
  cases tokens with
  | nil => exact quiet_cons.2 ⟨hc, hl⟩
  | cons token rest => exact ⟨quiet_cons.2 ⟨hc, hl.1⟩, hl.2⟩

theorem split_quiet {literal : List Char} (h : Quiet literal after) :
    split (literal ++ after) = literal.map .literal ++ split after := by
  induction literal with
  | nil => rfl
  | cons c rest ih =>
    obtain ⟨hc, hr⟩ := quiet_cons.1 h
    rw [List.cons_append, split_literal hc, ih hr]
    rfl

/-- A text that is read from left to right splits into the pieces of the cut. -/
theorem split_of_reads {cut : Cut} (h : cut.Reads cs) : split cs = cut.pieces := by
  obtain ⟨first, tokens⟩ := cut
  obtain ⟨rfl, hl⟩ := h
  induction tokens generalizing first with
  | nil =>
    have hs := split_quiet hl
    rwa [split] at hs
  | cons token rest ih =>
    -- The literal behind the token is the first one of what is left.
    obtain ⟨key, next⟩ := token
    obtain ⟨hq, hk, hb, hl⟩ := hl
    have hkey : key.toList ≠ [] := fun he => hk (String.toList_eq_nil_iff.1 he)
    have htail : tail tokenChars ((key, next) :: rest) =
        '$' :: '\x7b' :: key.toList ++ '\x7d' :: chars tokenChars ⟨next, rest⟩ := by
      simp [tail, chars, tokenChars]
    have htoken : split (tail tokenChars ((key, next) :: rest)) =
        .token key :: split (chars tokenChars ⟨next, rest⟩) := by
      rw [htail, split_token hkey hb, String.ofList_toList]
    rw [chars, split_quiet hq, htoken, ih next hl]
    simp [Cut.pieces]

theorem reads_ofPieces (cs : List Char) : (ofPieces (split cs)).Reads cs := by
  fun_induction split cs with
  | case1 => exact ⟨rfl, fun front back he hb => absurd (List.append_eq_nil_iff.1 he.symm).2 hb⟩
  | case2 c rest key after found ih =>
    obtain ⟨hk, hb, hc⟩ := tokenAt?_eq_some_iff.1 found
    rw [ofPieces]
    refine ⟨?_, fun front back he hne => ?_, ?_, ?_, ih.leftmost⟩
    · rw [hc]
      conv_rhs => rw [← ih.written]
      simp [chars, tail, tokenChars]
    · exact absurd (List.append_eq_nil_iff.1 he.symm).2 hne
    · simpa using hk
    · simpa using hb
  | case3 c rest found ih =>
    have hc := tokenAt?_eq_none_iff.1 found
    rw [ofPieces]
    have hw : (ofPieces (split rest)).first ++ tail tokenChars (ofPieces (split rest)).tokens = rest :=
      ih.written
    constructor
    · exact congrArg (c :: ·) hw
    · apply ih.leftmost.cons
      rwa [hw]

def cut (t : Template) : Cut := .ofPieces t.pieces

/-- A template is cut in one way only. -/
theorem reads_iff {t : Template} {cut : Cut} : cut.Reads t.source.toList ↔ cut = t.cut := by
  constructor
  · intro h
    rw [Template.cut, Template.pieces, split_of_reads h, ofPieces_pieces]
  · rintro rfl
    exact reads_ofPieces t.source.toList

theorem tokenKeys_eq_keys_cut (t : Template) : t.tokenKeys = t.cut.keys := by
  rw [tokenKeys, Template.cut]
  induction t.pieces with
  | nil => rfl
  | cons piece rest ih =>
    cases piece with
    | literal c => exact ih
    | token key => exact congrArg (key :: ·) ih

/-- Substitution keeps the literals and puts a text in the place of each token; nothing of what it
puts there is read again. -/
theorem toList_substitute (textOf : String → String) (t : Template) :
    (t.substitute textOf).toList = t.cut.chars fun key => (textOf key).toList := by
  rw [substitute, String.toList_join, Template.cut]
  induction t.pieces with
  | nil => rfl
  | cons piece rest ih =>
    rw [List.map_cons, List.flatMap_cons, ih]
    cases piece with
    | literal c => simp [ofPieces, chars]
    | token key => simp [ofPieces, chars, tail]

def tokenText (key : String) : String := "$\x7b" ++ key ++ "\x7d"

/-- With its tokens written out again, a template is the text that it was made of. -/
theorem substitute_tokenText (t : Template) : t.substitute tokenText = t.source := by
  have hw := (reads_iff.2 (Eq.refl t.cut)).written
  rw [← String.toList_inj, toList_substitute, ← hw]
  congr 1
  funext key
  simp [tokenText, tokenChars]

/-- The first token reaches up to the first closing brace, and takes an opening one with it. -/
example : (Template.mk "$$\x7b$\x7ba\x7d\x7d $\x7b\x7d $\x7bb").cut =
    ⟨['$'], [("$\x7ba", "\x7d $\x7b\x7d $\x7bb".toList)]⟩ := by decide +kernel

end ConfigDoc.Template
