import Mathlib.Data.List.Basic
import Mathlib.Tactic.Common

/-!
# The tokens of an SQL text

A scanner for PostgreSQL text, as far as it decides where a string constant ends and whether anything follows
it.  It reads one character at a time.  A string constant ends at a quote, unless a second quote follows at
once, which stands for one; or unless the next thing after white space with a newline in it (and comments to
the end of a line) is again a quote, which continues the constant.  White space and comments are no tokens,
block comments nest, and a constant or a block comment that does not end is an error.  So is a NUL, since the
text is sent as a zero-terminated string.

`lexFrom_quoted` is the case without a quote inside.  `size_of_constant` counts: the quotes of a constant are at
most half of those that are left in the text.
-/

namespace Sql.Lexer

inductive Token where
  | word (s : List Char)
  | op (s : List Char)
  | str (s : List Char)
  | other (c : Char)
deriving DecidableEq

def isNewline (c : Char) : Bool := c == '\n' || c == '\r'

def isSpace (c : Char) : Bool := isNewline c || c == ' ' || c == '\t' || c == '\x0b' || c == '\x0c'

def isWord (c : Char) : Bool := c.isAlphanum || c == '_'

def isOp (c : Char) : Bool := c ∈ "+-*/<>=~!@#%^&|`?".toList

/-- What has been read of the token at hand. -/
inductive State where
  | start
  | word (acc : List Char)
  | op (acc : List Char)
  /-- Inside a string constant. -/
  | quoted (acc : List Char)
  /-- Right after a quote inside one. -/
  | quote (acc : List Char)
  /-- In the white space after a string constant. -/
  | gap (acc : List Char) (newline : Bool)
  | gapDash (acc : List Char) (newline : Bool)
  | gapComment (acc : List Char) (newline : Bool)
  | lineComment
  /-- Inside a block comment, with the number of comments around it. -/
  | block (depth : ℕ)
  | blockSlash (depth : ℕ)
  | blockStar (depth : ℕ)
deriving DecidableEq

/-- The operator before a comment, if there is one. -/
def opToken (acc : List Char) : List Token := if acc.isEmpty then [] else [.op acc]

/-- The first character of a token. -/
def begin (c : Char) : List Token × State :=
  if isSpace c then ([], .start)
  else if c = '\'' then ([], .quoted [])
  else if isWord c then ([], .word [c])
  else if isOp c then ([], .op [c])
  else ([.other c], .start)

/-- A character after an operator character; two of them may start a comment. -/
def inOp (acc : List Char) (c : Char) : List Token × State :=
  if c = '-' ∧ acc.getLast? = some '-' then (opToken acc.dropLast, .lineComment)
  else if c = '*' ∧ acc.getLast? = some '/' then (opToken acc.dropLast, .block 0)
  else if isOp c then ([], .op (acc ++ [c]))
  else (.op acc :: (begin c).1, (begin c).2)

/-- A character after the end of a string constant, other than a quote that continues it. -/
def inGap (acc : List Char) (newline : Bool) (c : Char) : List Token × State :=
  if isNewline c then ([], .gap acc true)
  else if isSpace c then ([], .gap acc newline)
  else if c = '-' then ([], .gapDash acc newline)
  else (.str acc :: (begin c).1, (begin c).2)

/-- The tokens that a character completes, and what is being read after it. -/
def step : State → Char → List Token × State
  | .start, c => begin c
  | .word acc, c => if isWord c then ([], .word (acc ++ [c])) else (.word acc :: (begin c).1, (begin c).2)
  | .op acc, c => inOp acc c
  | .quoted acc, c => if c = '\'' then ([], .quote acc) else ([], .quoted (acc ++ [c]))
  | .quote acc, c => if c = '\'' then ([], .quoted (acc ++ ['\''])) else inGap acc false c
  | .gap acc newline, c => if c = '\'' ∧ newline = true then ([], .quoted acc) else inGap acc newline c
  | .gapDash acc newline, c =>
    if c = '-' then ([], .gapComment acc newline)
    else (.str acc :: (inOp ['-'] c).1, (inOp ['-'] c).2)
  | .gapComment acc newline, c => if isNewline c then ([], .gap acc true) else ([], .gapComment acc newline)
  | .lineComment, c => if isNewline c then ([], .start) else ([], .lineComment)
  | .block d, c => if c = '/' then ([], .blockSlash d) else if c = '*' then ([], .blockStar d) else ([], .block d)
  | .blockSlash d, c =>
    if c = '*' then ([], .block (d + 1)) else if c = '/' then ([], .blockSlash d) else ([], .block d)
  | .blockStar d, c =>
    if c = '/' then ([], match d with | 0 => .start | d + 1 => .block d)
    else if c = '*' then ([], .blockStar d) else ([], .block d)

/-- The tokens that the end of the text completes. -/
def finish : State → Option (List Token)
  | .start => some []
  | .word acc => some [.word acc]
  | .op acc => some [.op acc]
  | .quoted _ => none
  | .quote acc => some [.str acc]
  | .gap acc _ => some [.str acc]
  | .gapDash acc _ => some [.str acc, .op ['-']]
  | .gapComment acc _ => some [.str acc]
  | .lineComment => some []
  | .block _ => none
  | .blockSlash _ => none
  | .blockStar _ => none

/-- The tokens of a text, from a state on. -/
def lexFrom : State → List Char → Option (List Token)
  | s, [] => finish s
  | s, c :: cs => (lexFrom (step s c).2 cs).map ((step s c).1 ++ ·)

/-- The tokens of a text. -/
def lex (text : List Char) : Option (List Token) := if '\x00' ∈ text then none else lexFrom .start text

/-- The tokens of a part of a text and the state after it. -/
def runFrom : State → List Char → List Token × State
  | s, [] => ([], s)
  | s, c :: cs => ((step s c).1 ++ (runFrom (step s c).2 cs).1, (runFrom (step s c).2 cs).2)

theorem lexFrom_append (s : State) (cs rest : List Char) :
    lexFrom s (cs ++ rest) = (lexFrom (runFrom s cs).2 rest).map ((runFrom s cs).1 ++ ·) := by
  induction cs generalizing s with
  | nil => simp [runFrom]
  | cons c cs ih =>
    rw [List.cons_append, lexFrom, ih, Option.map_map, runFrom]
    simp only [Function.comp_def, List.append_assoc]

/-! ### String constants -/

theorem lexFrom_cons_nil {s s' : State} {c : Char} (h : step s c = ([], s')) (cs : List Char) :
    lexFrom s (c :: cs) = lexFrom s' cs := by
  rw [lexFrom, h]
  simp

/-- Inside a constant, everything but a quote is taken as it is. -/
theorem lexFrom_quoted {cs : List Char} (h : ∀ c ∈ cs, c ≠ '\'') (acc rest : List Char) :
    lexFrom (.quoted acc) (cs ++ rest) = lexFrom (.quoted (acc ++ cs)) rest := by
  induction cs generalizing acc with
  | nil => rw [List.append_nil]; rfl
  | cons c cs ih =>
    have hstep : step (.quoted acc) c = ([], .quoted (acc ++ [c])) := if_neg (h c List.mem_cons_self)
    rw [List.cons_append, lexFrom_cons_nil hstep, ih fun d hd => h d (List.mem_cons_of_mem _ hd),
      List.append_assoc]
    rfl

/-- The states in which a constant with contents `acc` so far may still go on, with the quotes that are owed
to its end. -/
def Reading (acc : List Char) : State → ℕ → Prop
  | .quoted acc', owed => acc' = acc ∧ owed = 1
  | .quote acc', owed => acc' = acc ∧ owed = 0
  | .gap acc' _, owed => acc' = acc ∧ owed = 0
  | .gapDash acc' _, owed => acc' = acc ∧ owed = 0
  | .gapComment acc' _, owed => acc' = acc ∧ owed = 0
  | _, _ => False

/-- The quotes of a text, and its characters that are neither a quote nor a `%`. -/
def quotes (cs : List Char) : ℕ := cs.count '\''

def letters (cs : List Char) : ℕ := cs.countP fun c => c != '\'' && c != '%'

theorem quotes_cons (c : Char) (cs : List Char) : quotes (c :: cs) = quotes cs + if c = '\'' then 1 else 0 := by
  simp [quotes, List.count_cons]

theorem quotes_append_singleton (cs : List Char) (c : Char) :
    quotes (cs ++ [c]) = quotes cs + if c = '\'' then 1 else 0 := by
  simp [quotes, List.count_append, List.count_singleton]

theorem letters_cons (c : Char) (cs : List Char) :
    letters (c :: cs) = letters cs + if (c != '\'' && c != '%') = true then 1 else 0 := by
  simp [letters, List.countP_cons]

theorem letters_append_singleton (cs : List Char) (c : Char) :
    letters (cs ++ [c]) = letters cs + if (c != '\'' && c != '%') = true then 1 else 0 := by
  simp [letters, List.countP_append, List.countP_singleton]

/-- After the end of a constant, either it may still be continued or it is complete. -/
theorem inGap_cases (acc : List Char) (newline : Bool) (c : Char) :
    (∃ s, inGap acc newline c = ([], s) ∧ Reading acc s 0) ∨
      ∃ ts s, inGap acc newline c = (.str acc :: ts, s) := by
  unfold inGap
  split
  · exact Or.inl ⟨_, rfl, rfl, rfl⟩
  · split
    · exact Or.inl ⟨_, rfl, rfl, rfl⟩
    · split
      · exact Or.inl ⟨_, rfl, rfl, rfl⟩
      · exact Or.inr ⟨_, _, rfl⟩

/-- One character of a constant: it completes it, or the constant goes on and has not gained more quotes than
half of those read. -/
theorem reading_step {acc : List Char} {s : State} {owed : ℕ} (h : Reading acc s owed) (c : Char) :
    (owed = 0 ∧ ∃ ts s', step s c = (.str acc :: ts, s')) ∨
      ∃ acc' s' owed', step s c = ([], s') ∧ Reading acc' s' owed' ∧
        2 * quotes acc' + owed ≤ 2 * quotes acc + quotes [c] + owed' ∧
        letters acc' ≤ letters acc + letters [c] := by
  have hkeep : ∀ s', owed = 0 → step s c = ([], s') → Reading acc s' 0 → ∃ acc' s' owed',
      step s c = ([], s') ∧ Reading acc' s' owed' ∧
        2 * quotes acc' + owed ≤ 2 * quotes acc + quotes [c] + owed' ∧
        letters acc' ≤ letters acc + letters [c] := by
    intro s' howed hstep hreading
    exact ⟨acc, s', 0, hstep, hreading, by omega, by omega⟩
  have hgap : ∀ newline, owed = 0 → step s c = inGap acc newline c →
      (owed = 0 ∧ ∃ ts s', step s c = (.str acc :: ts, s')) ∨ ∃ acc' s' owed', step s c = ([], s') ∧
        Reading acc' s' owed' ∧ 2 * quotes acc' + owed ≤ 2 * quotes acc + quotes [c] + owed' ∧
        letters acc' ≤ letters acc + letters [c] := by
    intro newline howed hstep
    rcases inGap_cases acc newline c with ⟨s', heq, hreading⟩ | ⟨ts, s', heq⟩
    · exact Or.inr (hkeep s' howed (hstep.trans heq) hreading)
    · exact Or.inl ⟨howed, ts, s', hstep.trans heq⟩
  cases s with
  | quoted acc₁ =>
    obtain ⟨rfl, rfl⟩ := h
    refine Or.inr ?_
    by_cases hc : c = '\''
    · refine ⟨acc₁, .quote acc₁, 0, if_pos hc, ⟨rfl, rfl⟩, ?_, Nat.le_add_right _ _⟩
      rw [quotes_cons, if_pos hc]
      omega
    · refine ⟨acc₁ ++ [c], .quoted (acc₁ ++ [c]), 1, if_neg hc, ⟨rfl, rfl⟩, ?_, ?_⟩
      · rw [quotes_append_singleton, if_neg hc]
        omega
      · rw [letters_append_singleton, letters_cons]
        omega
  | quote acc₁ =>
    obtain ⟨rfl, rfl⟩ := h
    by_cases hc : c = '\''
    · refine Or.inr ⟨acc₁ ++ ['\''], .quoted (acc₁ ++ ['\'']), 1, if_pos hc, ⟨rfl, rfl⟩, ?_, ?_⟩
      · rw [quotes_append_singleton, quotes_cons, if_pos hc, if_pos rfl]
        omega
      · rw [letters_append_singleton]
        simp
    · exact hgap false rfl (if_neg hc)
  | gap acc₁ newline =>
    obtain ⟨rfl, rfl⟩ := h
    by_cases hc : c = '\'' ∧ newline = true
    · refine Or.inr ⟨acc₁, .quoted acc₁, 1, if_pos hc, ⟨rfl, rfl⟩, ?_, Nat.le_add_right _ _⟩
      omega
    · exact hgap newline rfl (if_neg hc)
  | gapDash acc₁ newline =>
    obtain ⟨rfl, rfl⟩ := h
    by_cases hc : c = '-'
    · exact Or.inr (hkeep (.gapComment acc₁ newline) rfl (if_pos hc) ⟨rfl, rfl⟩)
    · exact Or.inl ⟨rfl, _, _, if_neg hc⟩
  | gapComment acc₁ newline =>
    obtain ⟨rfl, rfl⟩ := h
    refine Or.inr ?_
    by_cases hc : isNewline c = true
    · exact hkeep (.gap acc₁ true) rfl (if_pos hc) ⟨rfl, rfl⟩
    · exact hkeep (.gapComment acc₁ newline) rfl (if_neg hc) ⟨rfl, rfl⟩
  | _ => exact absurd h id

/-- **The size of a constant.**  If nothing follows a constant in the text, then it holds no more letters than
were left, and at most half of the quotes. -/
theorem size_of_constant (cs : List Char) {acc : List Char} {s : State} {owed : ℕ} (h : Reading acc s owed)
    {p : List Char} (hlex : lexFrom s cs = some [.str p]) :
    2 * quotes p + owed ≤ 2 * quotes acc + quotes cs ∧ letters p ≤ letters acc + letters cs := by
  induction cs generalizing acc s owed with
  | nil =>
    have hfinish : owed = 0 ∧ p = acc := by
      cases s with
      | quoted acc₁ => exact absurd hlex (by simp [lexFrom, finish])
      | quote acc₁ =>
        obtain ⟨rfl, rfl⟩ := h
        exact ⟨rfl, by simpa [lexFrom, finish, eq_comm] using hlex⟩
      | gap acc₁ newline =>
        obtain ⟨rfl, rfl⟩ := h
        exact ⟨rfl, by simpa [lexFrom, finish, eq_comm] using hlex⟩
      | gapDash acc₁ newline => exact absurd hlex (by simp [lexFrom, finish])
      | gapComment acc₁ newline =>
        obtain ⟨rfl, rfl⟩ := h
        exact ⟨rfl, by simpa [lexFrom, finish, eq_comm] using hlex⟩
      | _ => exact absurd h id
    obtain ⟨rfl, rfl⟩ := hfinish
    exact ⟨by omega, by omega⟩
  | cons c cs ih =>
    rcases reading_step h c with ⟨rfl, ts, s', hstep⟩ | ⟨acc', s', owed', hstep, hreading, hquotes, hletters⟩
    · rw [lexFrom, hstep] at hlex
      obtain ⟨rest, _, hrest⟩ := Option.map_eq_some_iff.mp hlex
      have hp : acc = p := by
        rw [List.cons_append] at hrest
        exact Token.str.inj (List.cons.inj hrest).1
      rw [hp]
      exact ⟨by omega, by omega⟩
    · rw [lexFrom_cons_nil hstep] at hlex
      obtain ⟨hq, hl⟩ := ih hreading hlex
      have hquote : quotes (c :: cs) = quotes cs + quotes [c] := by
        rw [quotes_cons, quotes_cons c [], show quotes [] = 0 from rfl, Nat.zero_add]
      have hletter : letters (c :: cs) = letters cs + letters [c] := by
        rw [letters_cons, letters_cons c [], show letters [] = 0 from rfl, Nat.zero_add]
      exact ⟨by omega, by omega⟩

/-- The characters of a constant other than `%`. -/
theorem countP_eq (cs : List Char) : cs.countP (· != '%') = letters cs + quotes cs := by
  induction cs with
  | nil => rfl
  | cons c cs ih =>
    rw [List.countP_cons, ih, letters_cons, quotes_cons]
    by_cases hq : c = '\''
    · subst hq
      simp
      omega
    · by_cases hp : c = '%'
      · subst hp
        simp
      · simp [hq, hp]
        omega

theorem letters_add_quotes_le (cs : List Char) : letters cs + quotes cs ≤ cs.length := by
  rw [← countP_eq]
  exact List.countP_le_length

end Sql.Lexer
