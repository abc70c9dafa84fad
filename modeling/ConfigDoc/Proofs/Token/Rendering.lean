import ConfigDoc.Proofs.Token.Spelling

/-! Texts that are put together from tokens: they are read as exactly these tokens. -/

namespace ConfigDoc.Token

structure Piece where
  blanks : List Char
  comment : List Char
  chars : List Char
  token : Token

namespace Piece

def text (piece : Piece) : List Char := piece.blanks ++ piece.comment ++ piece.chars

/-- Whether a token is written as it may be. A comment stands only before a line break. -/
structure Written (piece : Piece) : Prop where
  blanks : ∀ c ∈ piece.blanks, isSpacing c = true
  comment : piece.comment = [] ∨ (IsComment piece.comment ∧ piece.token = .newline)
  spells : Spells piece.chars piece.token

variable {piece : Piece} {pieces : List Piece}

/-- What stands in front of a token is all that is skipped there. -/
theorem Written.skips {c : Char} {tail rest : List Char} (h : piece.Written)
    (hcs : piece.chars = c :: tail) (hc : isSpacing c = false ∧ c ≠ '#') :
    Skips (piece.blanks ++ piece.comment) (c :: (tail ++ rest)) := by
  refine ⟨piece.blanks, piece.comment, rfl, h.blanks, ?_⟩
  rcases h.comment with hn | ⟨hcomment, ht⟩
  · refine .inl ⟨hn, ?_⟩
    rintro d ⟨⟩
    exact hc
  · have hbreak := eq_of_spells_newline (ht ▸ h.spells)
    rw [hcs] at hbreak
    cases hbreak
    exact .inr ⟨hcomment, by rintro d ⟨⟩; rfl⟩

theorem ends_flatMap (h : ∀ p ∈ pieces, p.Written) (hb : ∀ p ∈ pieces, p.blanks ≠ []) :
    Ends (pieces.flatMap text) := by
  cases pieces with
  | nil => exact nofun
  | cons piece rest =>
    intro c hc
    obtain ⟨d, blanks, hd⟩ := List.exists_cons_of_ne_nil (hb piece List.mem_cons_self)
    rw [List.flatMap_cons, text, hd] at hc
    cases hc
    exact (h piece List.mem_cons_self).blanks _ (hd ▸ List.mem_cons_self)

end Piece

theorem tokens_of_scan {c : Char} {skipped tail rest : List Char} {token : Token}
    (hs : Skips skipped (c :: (tail ++ rest)))
    (h : scan c (tail ++ rest) = ⟨.ok token, c :: tail, rest⟩) (position : Position) :
    ∃ line column after, Cursor.tokens ⟨position, skipped ++ c :: (tail ++ rest)⟩ =
      (Cursor.tokens ⟨after, rest⟩).map (⟨token, line, column⟩ :: ·) := by
  have hskip : (⟨position, skipped ++ c :: (tail ++ rest)⟩ : Cursor).skip =
      ⟨position.pastAll skipped, c :: (tail ++ rest)⟩ := by
    rw [Cursor.skip, splitBlanks_of_skips hs]
  refine ⟨(position.pastAll skipped).line, (position.pastAll skipped).column + 1,
    (position.pastAll skipped).pastAll (c :: tail), ?_⟩
  rw [Cursor.tokens, dif_neg (by rw [hskip]; exact List.cons_ne_nil _ _)]
  simp only [Cursor.next, hskip, h]
  rfl

/-- Tokens with blanks between them are read one after the other, and then the end. -/
theorem tokens_of_pieces {pieces : List Piece} (h : ∀ p ∈ pieces, p.Written)
    (hb : ∀ p ∈ pieces.tail, p.blanks ≠ []) (position : Position) :
    ∃ placed, Cursor.tokens ⟨position, pieces.flatMap Piece.text⟩ = .ok placed ∧
      placed.map Placed.token = pieces.map Piece.token ++ [.eof] := by
  induction pieces generalizing position with
  | nil =>
    refine ⟨[⟨.eof, position.line, position.column + 1⟩], ?_, rfl⟩
    have hend : (⟨position, []⟩ : Cursor).skip.rest = [] := rfl
    rw [List.flatMap_nil, Cursor.tokens, dif_pos hend]
    rfl
  | cons piece rest ih =>
    obtain ⟨hp, hrest⟩ := List.forall_mem_cons.1 h
    obtain ⟨c, tail, hcs, hscan⟩ := scan_of_spells hp.spells (Piece.ends_flatMap hrest hb)
    have hskips : Skips (piece.blanks ++ piece.comment)
        (c :: (tail ++ rest.flatMap Piece.text)) :=
      hp.skips hcs (not_skipped_of_scan (congrArg Lexeme.result hscan))
    have htext : (piece :: rest).flatMap Piece.text =
        (piece.blanks ++ piece.comment) ++ c :: (tail ++ rest.flatMap Piece.text) := by
      rw [List.flatMap_cons, Piece.text, hcs, List.append_assoc, List.cons_append]
    obtain ⟨line, column, after, hstep⟩ := tokens_of_scan hskips (hcs ▸ hscan) position
    obtain ⟨placed, hread, htokens⟩ :=
      ih hrest (fun p hm => hb p (List.mem_of_mem_tail hm)) after
    refine ⟨⟨piece.token, line, column⟩ :: placed, ?_, ?_⟩
    · rw [htext, hstep, hread]
      rfl
    · rw [List.map_cons, htokens, List.map_cons, List.cons_append]

/-- A text that is put together from tokens, with blanks between any two of them and perhaps
comments in front of line breaks, is read as exactly these tokens, and then its end. Every literal
stands for a number. -/
theorem tokenize_pieces {pieces : List Piece} (h : ∀ p ∈ pieces, p.Written)
    (hb : ∀ p ∈ pieces.tail, p.blanks ≠ []) :
    (∃ placed, tokenize (String.ofList (pieces.flatMap Piece.text)) = .ok placed ∧
      placed.map Placed.token = pieces.map Piece.token ++ [.eof]) ∧
    ∀ cs, IsLiteral cs → ∃ x, Spells cs (.number x) := by
  constructor
  · rw [tokenize, Cursor.start, String.toList_ofList]
    exact tokens_of_pieces h hb .start
  · intro cs hcs
    obtain ⟨x, hx⟩ := ofText?_of_literal hcs
    exact ⟨x, .number hcs hx⟩

/-- A name with a dash next to a negative number, both quotes in strings with backslashes, and a
comment with a quote in it. -/
theorem tokenize_mixed :
    ∃ placed, tokenize "a- -.5 'it\\'s \\\\' \"#'\" # it's\n |>" = .ok placed ∧
      placed.map Placed.token = [.ident "a-", .number (.nearest true Number.unitsPerOne 2),
        .rawString "it's \\", .complexString "#'", .newline, .pipeRight, .eof] := by
  have hname : IsName ['a', '-'] := ⟨'a', ['-'], rfl, by decide, List.all_eq_true.1 rfl⟩
  have hliteral : IsLiteral ['-', '.', '5'] :=
    ⟨['.', '5'], ⟨[], ['.'], ['5'], rfl, .inr rfl, by decide, List.all_eq_true.1 rfl⟩, .inr rfl⟩
  refine (@tokenize_pieces [
    ⟨[], [], ['a', '-'], .ident "a-"⟩,
    ⟨[' '], [], ['-', '.', '5'], .number (.nearest true Number.unitsPerOne 2)⟩,
    ⟨[' '], [], enclose '\'' "it's \\", .rawString "it's \\"⟩,
    ⟨[' '], [], enclose '"' "#'", .complexString "#'"⟩,
    ⟨[' '], "# it's".toList, ['\n'], .newline⟩,
    ⟨[' '], [], ['|', '>'], .pipeRight⟩] ?_ (by decide)).1
  have hblank : ∀ c ∈ [' '], isSpacing c = true := List.all_eq_true.1 rfl
  simp only [List.forall_mem_cons]
  exact ⟨⟨nofun, .inl rfl, .name hname (by decide)⟩,
    ⟨hblank, .inl rfl, .number hliteral (by decide +kernel)⟩,
    ⟨hblank, .inl rfl, .rawString _⟩, ⟨hblank, .inl rfl, .complexString _⟩,
    ⟨hblank, .inr ⟨⟨_, rfl, by decide⟩, rfl⟩, .mark rfl⟩, ⟨hblank, .inl rfl, .mark rfl⟩, nofun⟩

end ConfigDoc.Token
