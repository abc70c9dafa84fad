import ConfigDoc.Proofs.Token.Blanks
import Mathlib.Data.List.DropRight

/-! Calls of a tokenizer one after the other, also behind faults: where they stand in the text, what
they take of it, and when they come to its end. -/

namespace ConfigDoc

/-- The place behind a text from the start, by its line breaks and what follows the last of them. -/
theorem Position.start_pastAll (cs : List Char) :
    Position.start.pastAll cs = ⟨1 + cs.count '\n', (cs.rtakeWhile (· ≠ '\n')).length⟩ := by
  induction cs using List.reverseRecOn with
  | nil => rfl
  | append_singleton cs c ih =>
    rw [pastAll_append, ih, List.count_append, List.rtakeWhile_concat]
    by_cases hc : c = '\n'
    · subst hc
      rfl
    · have hpast (p : Position) : p.pastAll [c] = ⟨p.line, p.column + 1⟩ := if_neg hc
      rw [hpast, List.count_singleton, if_pos (decide_eq_true hc), List.length_append]
      simp [hc]

namespace Token

variable {c : Char} {rest : List Char} {token : Token}

theorem ne_eof_of_symbol? (h : symbol? c = some token) : token ≠ .eof := by
  unfold symbol? at h
  split at h <;> cases h <;> nofun

theorem ne_eof_of_pipe? (h : pipe? c rest = some token) : token ≠ .eof := by
  unfold pipe? at h
  split at h <;> cases h <;> nofun

theorem ofName_ne_eof (name : String) : ofName name ≠ .eof := by
  unfold ofName
  split
  · nofun
  · split <;> nofun

/-- No lexeme stands for the end of the text. -/
theorem scan_ne_eof (c : Char) (rest : List Char) : (scan c rest).result ≠ .ok .eof := by
  unfold scan
  split
  · rename_i h
    exact fun he => ne_eof_of_symbol? h (Except.ok.inj he)
  split
  · rename_i h
    exact fun he => ne_eof_of_pipe? h (Except.ok.inj he)
  split
  · unfold scanString
    dsimp only
    split
    · simp
    · split <;> simp
  split
  · unfold scanNumber
    dsimp only
    split <;> simp
  split
  · exact fun he => ofName_ne_eof _ (Except.ok.inj he)
  · simp

namespace Cursor

def skipped (cursor : Cursor) : List Char := (splitBlanks false cursor.rest).1

/-- The characters of the token that a call finds, or of what is no token. There are none at the end
of the text. -/
def lexeme (cursor : Cursor) : List Char :=
  match cursor.skip.rest with
  | [] => []
  | c :: rest => (scan c rest).chars

def after (cursor : Cursor) : Nat → Cursor
  | 0 => cursor
  | n + 1 => (cursor.after n).next.2

def taken (cursor : Cursor) : Nat → List Char
  | 0 => []
  | n + 1 => cursor.taken n ++ ((cursor.after n).skipped ++ (cursor.after n).lexeme)

def GivesEof (cursor : Cursor) : Prop := ∃ line column, cursor.next.1 = .ok ⟨.eof, line, column⟩

/-- Whether the outcome of a call is reported at a line and a column: a token that starts there, or
a syntax error. -/
def ReportsAt (outcome : Except Error Placed) (line column : Nat) : Prop :=
  (∃ token, outcome = .ok ⟨token, line, column⟩) ∨
    ∃ message hint code, outcome = .error (.badSyntax message line column hint code)

variable {cursor : Cursor}

theorem skip_eq (cursor : Cursor) :
    cursor.skip = ⟨cursor.position.pastAll cursor.skipped, (splitBlanks false cursor.rest).2⟩ := rfl

theorem rest_eq (cursor : Cursor) : cursor.rest = cursor.skipped ++ cursor.skip.rest :=
  (splitBlanks_append false cursor.rest).symm

theorem next_of_skip_eq_cons (h : cursor.skip.rest = c :: rest) :
    cursor.lexeme = (scan c rest).chars ∧
    cursor.next.2 = ⟨cursor.skip.position.pastAll (scan c rest).chars, (scan c rest).rest⟩ ∧
    (∀ token, (scan c rest).result = .ok token →
      cursor.next.1 = .ok ⟨token, cursor.skip.line, cursor.skip.column + 1⟩) ∧
    ∀ fault, (scan c rest).result = .error fault →
      cursor.next.1 = .error (fault.toError cursor.skip.line (cursor.skip.column + 1)) := by
  refine ⟨by rw [lexeme, h], ?_, fun token hr => ?_, fun fault hr => ?_⟩
  · simp only [next, h]
  · simp only [next, h, hr]
  · simp only [next, h, hr]

/-- A call takes what it skips and what it finds, and leaves the rest. -/
theorem skip_rest_eq (cursor : Cursor) :
    cursor.skip.rest = cursor.lexeme ++ cursor.next.2.rest := by
  cases h : cursor.skip.rest with
  | nil =>
    rw [lexeme, next_of_skip_eq_nil h, h]
    rfl
  | cons c rest =>
    obtain ⟨hl, hn, -, -⟩ := next_of_skip_eq_cons h
    rw [hl, hn, scan_append]

theorem next_position (cursor : Cursor) :
    cursor.next.2.position = cursor.position.pastAll (cursor.skipped ++ cursor.lexeme) := by
  rw [Position.pastAll_append]
  cases h : cursor.skip.rest with
  | nil =>
    rw [lexeme, next_of_skip_eq_nil h, h]
    rfl
  | cons c rest =>
    obtain ⟨hl, hn, -, -⟩ := next_of_skip_eq_cons h
    rw [hl, hn]
    rfl

theorem reportsAt_next (cursor : Cursor) :
    ReportsAt cursor.next.1 cursor.skip.line (cursor.skip.column + 1) := by
  cases h : cursor.skip.rest with
  | nil =>
    rw [next_of_skip_eq_nil h]
    exact .inl ⟨_, rfl⟩
  | cons c rest =>
    obtain ⟨-, -, hok, herror⟩ := next_of_skip_eq_cons h
    cases hr : (scan c rest).result with
    | ok token => exact .inl ⟨token, hok token hr⟩
    | error fault => exact .inr ⟨_, _, _, herror fault hr⟩

theorem givesEof_iff : cursor.GivesEof ↔ cursor.skip.rest = [] := by
  constructor
  · rintro ⟨line, column, he⟩
    cases h : cursor.skip.rest with
    | nil => rfl
    | cons c rest =>
      obtain ⟨-, -, hok, herror⟩ := next_of_skip_eq_cons h
      cases hr : (scan c rest).result with
      | ok token =>
        rw [hok token hr] at he
        cases he
        exact absurd hr (scan_ne_eof c rest)
      | error fault =>
        rw [herror fault hr] at he
        cases he
  · intro h
    exact ⟨_, _, congrArg Prod.fst (next_of_skip_eq_nil h)⟩

theorem lexeme_eq_nil_iff : cursor.lexeme = [] ↔ cursor.GivesEof := by
  rw [givesEof_iff]
  cases h : cursor.skip.rest with
  | nil =>
    simp only [lexeme, h]
  | cons c rest =>
    rw [(next_of_skip_eq_cons h).1]
    exact ⟨fun he => absurd he (scan_chars_ne_nil c rest), nofun⟩

/-- Behind the end there is nothing but the end. -/
theorem GivesEof.next (h : cursor.GivesEof) : cursor.next.2.GivesEof := by
  rw [givesEof_iff] at h
  rw [next_of_skip_eq_nil h, givesEof_iff]
  have hs : cursor.skip.skip.rest = (splitBlanks false cursor.skip.rest).2 := rfl
  rw [hs, h]
  rfl

theorem taken_append_rest (cursor : Cursor) (n : Nat) :
    cursor.taken n ++ (cursor.after n).rest = cursor.rest := by
  induction n with
  | zero => rfl
  | succ n ih =>
    have hstep := (cursor.after n).rest_eq
    rw [skip_rest_eq] at hstep
    rw [taken, after, List.append_assoc, List.append_assoc, ← hstep, ih]

theorem position_after (cursor : Cursor) (n : Nat) :
    (cursor.after n).position = cursor.position.pastAll (cursor.taken n) := by
  induction n with
  | zero => rfl
  | succ n ih => rw [after, next_position, ih, taken, ← Position.pastAll_append]

theorem GivesEof.after {m n : Nat} (h : (cursor.after m).GivesEof) (hmn : m ≤ n) :
    (cursor.after n).GivesEof := by
  induction hmn with
  | refl => exact h
  | step _ ih => exact ih.next

/-- Each call before the end takes at least one character. -/
theorem givesEof_or_length_le (cursor : Cursor) (n : Nat) :
    (cursor.after n).GivesEof ∨ (cursor.after n).rest.length + n ≤ cursor.rest.length := by
  induction n with
  | zero => exact .inr le_rfl
  | succ n ih =>
    by_cases he : (cursor.after n).GivesEof
    · exact .inl he.next
    · have hlt : (cursor.after (n + 1)).rest.length < (cursor.after n).rest.length :=
        length_next_lt (mt givesEof_iff.2 he)
      have hle := ih.resolve_left he
      exact .inr (by omega)

theorem givesEof_after {n : Nat} (h : cursor.rest.length ≤ n) : (cursor.after n).GivesEof := by
  rcases givesEof_or_length_le cursor n with he | hl
  · exact he
  · have hnil : (cursor.after n).rest = [] := List.eq_nil_of_length_eq_zero (by omega)
    rw [givesEof_iff]
    change (splitBlanks false (cursor.after n).rest).2 = []
    rw [hnil]
    rfl

/-- After any number of calls on a text, faults or not: what they have skipped and found is the
beginning of the text, and gives the line and the column of the cursor. The next call skips blanks
and comments only, reports the place of the first character behind them, and takes a character more
unless it tells the end. The end comes at the latest when there have been as many calls as the text
has characters, and stays. -/
theorem calls_cover_text (text : String) (n : Nat) :
    let cursor := (start text).after n
    let taken := (start text).taken n
    let before := taken ++ cursor.skipped
    taken ++ cursor.rest = text.toList ∧
    cursor.line = 1 + taken.count '\n' ∧
    cursor.column = (taken.rtakeWhile (· ≠ '\n')).length ∧
    cursor.rest = cursor.skipped ++ (cursor.lexeme ++ cursor.next.2.rest) ∧
    Skips cursor.skipped (cursor.lexeme ++ cursor.next.2.rest) ∧
    ReportsAt cursor.next.1 (1 + before.count '\n') ((before.rtakeWhile (· ≠ '\n')).length + 1) ∧
    (cursor.lexeme = [] ↔ cursor.GivesEof) ∧
    (text.length ≤ n → cursor.GivesEof) ∧
    ∀ m, n ≤ m → cursor.GivesEof → ((start text).after m).GivesEof := by
  intro cursor taken before
  have hposition : cursor.position = ⟨1 + taken.count '\n', (taken.rtakeWhile (· ≠ '\n')).length⟩ :=
    (position_after (start text) n).trans (Position.start_pastAll taken)
  have hbefore : cursor.skip.position =
      ⟨1 + before.count '\n', (before.rtakeWhile (· ≠ '\n')).length⟩ := by
    rw [skip_eq, ← Position.start_pastAll, Position.pastAll_append, Position.start_pastAll taken,
      ← hposition]
  have hreports := reportsAt_next cursor
  rw [line, column, hbefore] at hreports
  refine ⟨taken_append_rest (start text) n, congrArg Position.line hposition,
    congrArg Position.column hposition, ?_, ?_, hreports, lexeme_eq_nil_iff,
    fun hn => givesEof_after ?_, fun m hm he => he.after hm⟩
  · rw [← skip_rest_eq]
    exact cursor.rest_eq
  · rw [← skip_rest_eq]
    exact skips_splitBlanks cursor.rest
  · rwa [start, String.length_toList]

end Cursor

end Token

end ConfigDoc
