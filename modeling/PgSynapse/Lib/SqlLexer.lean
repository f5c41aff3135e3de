import Mathlib.Data.List.Infix

/-!
# The tokens of a SQL text

The lexical rules of Postgres, as a scanner that reads one character after another: words, quoted
identifiers, string constants in quotes and between dollar tags, numbers, parameters, operators and
comments.  A run of operator characters is one token here, and the text of a string constant keeps its
escapes.

`Reads s a ts s'` says that the scanner goes from state `s` to `s'` over the text `a` and has `ts`
then.  It is closed under joining texts (`Reads.append`), so the tokens of a statement are read off
its parts.
-/

namespace PgSynapse

namespace SqlText

/-! ### Characters -/

/-- White space. -/
def isSpace (c : Char) : Bool := c ∈ [' ', '\t', '\n', '\r', '\x0b', '\x0c']

def isNewline (c : Char) : Bool := c = '\n' || c = '\r'

/-- The first character of a word. -/
def isWordStart (c : Char) : Bool := c.isAlpha || c = '_' || 128 ≤ c.toNat

/-- A further character of a word. -/
def isWordChar (c : Char) : Bool := isWordStart c || c.isDigit || c = '$'

def isOpChar (c : Char) : Bool :=
  c ∈ ['~', '!', '@', '#', '^', '&', '|', '\x60', '?', '+', '-', '*', '/', '%', '<', '>', '=']

/-- A character that is a token. -/
def isPunct (c : Char) : Bool := c ∈ [',', '(', ')', '[', ']', ';']

/-- The case of a word does not matter. -/
def foldCase (s : List Char) : List Char := s.map Char.toLower

/-! ### Tokens and states -/

/-- What stands before the first quote of a string constant. -/
inductive StrKind where
  | plain
  | escape
  | bit
  | hex
  | national
  | unicode
  deriving DecidableEq, Repr

inductive Lexeme where
  | word (s : List Char)
  | quoted (unicode : Bool) (s : List Char)
  | str (kind : StrKind) (s : List Char)
  | number (s : List Char)
  | param (s : List Char)
  | op (s : List Char)
  | punct (s : List Char)
  deriving DecidableEq, Repr

/-- What the scanner is in the middle of. -/
inductive State where
  | blank
  | word (s : List Char)
  | number (s : List Char)
  | param (s : List Char)
  | op (s : List Char)
  | colon
  | dot
  /-- After `U&`, with the letter as it was written. -/
  | unicodeMark (u : Char)
  | str (kind : StrKind) (s : List Char)
  /-- After a backslash in `E'…'`. -/
  | escaped (s : List Char)
  /-- After a quote in a string constant, which ends it or is doubled. -/
  | strEnd (kind : StrKind) (s : List Char)
  /-- In the white space after a string constant, with a line break or without one yet. -/
  | gap (kind : StrKind) (s : List Char) (newline : Bool)
  | quoted (unicode : Bool) (s : List Char)
  | quotedEnd (unicode : Bool) (s : List Char)
  /-- After `$` and the beginning of a tag. -/
  | dollar (tag : List Char)
  | dollarStr (tag s : List Char)
  | lineComment
  | blockComment (depth : Nat) (last : Char)
  deriving DecidableEq, Repr

/-- The kind of a string constant by the word before its first quote. -/
def strKindOf (s : List Char) : Option StrKind :=
  if foldCase s = ['e'] then some .escape
  else if foldCase s = ['b'] then some .bit
  else if foldCase s = ['x'] then some .hex
  else if foldCase s = ['n'] then some .national
  else none

/-- A quote is doubled in a string constant that is not a bit string. -/
def StrKind.doubles : StrKind → Bool
  | .bit | .hex => false
  | _ => true

/-- A number goes on with a letter, a digit or a point, and with a sign after its exponent mark. -/
def numberGoesOn (s : List Char) (c : Char) : Bool :=
  c.isAlphanum || c = '_' || c = '.' ||
    (c = '+' || c = '-') && (s.getLast? = some 'e' || s.getLast? = some 'E') &&
      !(s.length ≥ 2 && (s[1]? = some 'x' || s[1]? = some 'X'))

/-- The delimiter of a tag. -/
def delimiter (tag : List Char) : List Char := '$' :: (tag ++ ['$'])

/-- One character that goes on with what the scanner is in the middle of. -/
def continues : State → Char → Option (List Lexeme × State)
  | .blank, _ => none
  | .word s, c =>
    if isWordChar c then some ([], .word (s ++ [c]))
    else if c = '\'' then (strKindOf s).map fun kind => ([], .str kind [])
    else if c = '&' && foldCase s = ['u'] then (s.head?).map fun u => ([], .unicodeMark u)
    else none
  | .number s, c => if numberGoesOn s c then some ([], .number (s ++ [c])) else none
  | .param s, c => if c.isDigit then some ([], .param (s ++ [c])) else none
  | .op s, c =>
    let before : List Lexeme := if s.dropLast = [] then [] else [.op s.dropLast]
    if c = '-' && s.getLast? = some '-' then some (before, .lineComment)
    else if c = '*' && s.getLast? = some '/' then some (before, .blockComment 1 ' ')
    else if isOpChar c then some ([], .op (s ++ [c]))
    else none
  | .colon, c =>
    if c = ':' then some ([.punct [':', ':']], .blank)
    else if c = '=' then some ([.punct [':', '=']], .blank)
    else none
  | .dot, c =>
    if c = '.' then some ([.punct ['.', '.']], .blank)
    else if c.isDigit then some ([], .number ['.', c])
    else none
  | .unicodeMark u, c =>
    if c = '\'' then some ([], .str .unicode [])
    else if c = '\x22' then some ([], .quoted true [])
    else if isOpChar c then some ([.word (foldCase [u])], .op ['&', c])
    else none
  | .str kind s, c =>
    if c = '\'' then some ([], .strEnd kind s)
    else if c = '\\' && kind = .escape then some ([], .escaped s)
    else some ([], .str kind (s ++ [c]))
  | .escaped s, c => some ([], .str .escape (s ++ ['\\', c]))
  | .strEnd kind s, c =>
    if c = '\'' && kind.doubles then some ([], .str kind (s ++ ['\'']))
    else if isSpace c then some ([], .gap kind s (isNewline c))
    else none
  | .gap kind s newline, c =>
    if isSpace c then some ([], .gap kind s (newline || isNewline c))
    else if c = '\'' && newline then some ([], .str kind s)
    else none
  | .quoted u s, c =>
    if c = '\x22' then some ([], .quotedEnd u s) else some ([], .quoted u (s ++ [c]))
  | .quotedEnd u s, c => if c = '\x22' then some ([], .quoted u (s ++ ['\x22'])) else none
  | .dollar tag, c =>
    if c = '$' then some ([], .dollarStr tag [])
    else if isWordStart c || (c.isDigit && tag ≠ []) then some ([], .dollar (tag ++ [c]))
    else if c.isDigit then some ([], .param [c])
    else none
  | .dollarStr tag s, c =>
    let s := s ++ [c]
    if delimiter tag <:+ s then
      some ([.str .plain (s.take (s.length - (delimiter tag).length))], .blank)
    else some ([], .dollarStr tag s)
  | .lineComment, c => some ([], if isNewline c then .blank else .lineComment)
  | .blockComment depth last, c =>
    if last = '*' && c = '/' then
      some ([], if depth = 1 then .blank else .blockComment (depth - 1) ' ')
    else if last = '/' && c = '*' then some ([], .blockComment (depth + 1) ' ')
    else some ([], .blockComment depth c)

/-- The tokens at the end of what the scanner is in the middle of, `none` when it is open. -/
def finish : State → Option (List Lexeme)
  | .blank | .lineComment => some []
  | .word s => some [.word (foldCase s)]
  | .number s => some [.number s]
  | .param s => some [.param s]
  | .op s => some [.op s]
  | .colon => some [.punct [':']]
  | .dot => some [.punct ['.']]
  | .unicodeMark u => some [.word (foldCase [u]), .op ['&']]
  | .strEnd kind s | .gap kind s _ => some [.str kind s]
  | .quotedEnd u s => if s = [] then none else some [.quoted u s]
  | .str .. | .escaped _ | .quoted .. | .dollar _ | .dollarStr .. | .blockComment .. => none

/-- The first character of a token, or of what is no token. -/
def start (c : Char) : Option (List Lexeme × State) :=
  if isSpace c then some ([], .blank)
  else if isWordStart c then some ([], .word [c])
  else if c.isDigit then some ([], .number [c])
  else if c = '\'' then some ([], .str .plain [])
  else if c = '\x22' then some ([], .quoted false [])
  else if c = '$' then some ([], .dollar [])
  else if c = ':' then some ([], .colon)
  else if c = '.' then some ([], .dot)
  else if isOpChar c then some ([], .op [c])
  else if isPunct c then some ([.punct [c]], .blank)
  else none

/-- One character. -/
def step (s : State) (c : Char) : Option (List Lexeme × State) :=
  match continues s c with
  | some r => some r
  | none =>
    (finish s).bind fun ts => (start c).map fun r => (ts ++ r.1, r.2)

/-- The tokens of a text so far, and the state after it. -/
def run : State → List Char → Option (List Lexeme × State)
  | s, [] => some ([], s)
  | s, c :: cs => (step s c).bind fun r => (run r.2 cs).map fun r' => (r.1 ++ r'.1, r'.2)

/-- The tokens of a text from a state on. -/
def lexFrom (s : State) (cs : List Char) : Option (List Lexeme) :=
  (run s cs).bind fun r => (finish r.2).map fun ts => r.1 ++ ts

/-- **The tokens of a text**, `none` when it has no tokens or a token is open at its end. -/
def lex (cs : List Char) : Option (List Lexeme) := lexFrom .blank cs

/-! ### Reading a text part by part -/

/-- Over the text `a` the scanner goes from `s` to `s'`, and it has the tokens `ts` then. -/
def Reads (s : State) (a : List Char) (ts : List Lexeme) (s' : State) : Prop :=
  run s a = some (ts, s')

section Reading

variable {s s' s'' : State} {a b : List Char} {c : Char} {ts us : List Lexeme}

theorem Reads.unique (h : Reads s a ts s') (h' : Reads s a us s'') : ts = us ∧ s' = s'' :=
  Prod.mk.inj (Option.some.inj (h.symm.trans h'))

theorem Reads.cons (h : step s c = some (ts, s')) (h' : Reads s' a us s'') :
    Reads s (c :: a) (ts ++ us) s'' := by
  unfold Reads at h' ⊢
  rw [run, h, Option.bind_some, h', Option.map_some]

theorem Reads.single (h : step s c = some (ts, s')) : Reads s [c] ts s' := by
  have hread := Reads.cons h (show Reads s' [] [] s' from rfl)
  rwa [List.append_nil] at hread

theorem run_append (s : State) (a b : List Char) :
    run s (a ++ b) = (run s a).bind fun r => (run r.2 b).map fun r' => (r.1 ++ r'.1, r'.2) := by
  induction a generalizing s with
  | nil => simp [run]
  | cons c a ih =>
    rw [List.cons_append, run, run]
    cases step s c with
    | none => rfl
    | some r =>
      simp only [Option.bind_some]
      rw [ih]
      cases run r.2 a with
      | none => rfl
      | some r' =>
        simp only [Option.bind_some, Option.map_some]
        cases run r'.2 b with
        | none => rfl
        | some r'' => simp [List.append_assoc]

/-- **One part after another.** -/
theorem Reads.append (h : Reads s a ts s') (h' : Reads s' b us s'') :
    Reads s (a ++ b) (ts ++ us) s'' := by
  unfold Reads at h h' ⊢
  rw [run_append, h, Option.bind_some, h', Option.map_some]

/-- The tokens after a part that is read. -/
theorem Reads.lexFrom (h : Reads s a ts s') (b : List Char) :
    lexFrom s (a ++ b) = (lexFrom s' b).map (ts ++ ·) := by
  unfold Reads at h
  unfold SqlText.lexFrom
  rw [run_append, h, Option.bind_some]
  cases run s' b with
  | none => rfl
  | some r =>
    simp only [Option.map_some, Option.bind_some]
    cases finish r.2 with
    | none => rfl
    | some us => simp [List.append_assoc]

/-- The tokens of a text that is read to its end. -/
theorem Reads.finished (h : Reads s a ts s') (hfinish : finish s' = some us) :
    SqlText.lexFrom s a = some (ts ++ us) := by
  unfold Reads at h
  unfold SqlText.lexFrom
  rw [h, Option.bind_some, hfinish, Option.map_some]

/-- A text with tokens is read to its end. -/
theorem reads_of_lexFrom (h : lexFrom s a = some ts) :
    ∃ us s' vs, Reads s a us s' ∧ finish s' = some vs ∧ ts = us ++ vs := by
  obtain ⟨r, hrun, hr⟩ := Option.bind_eq_some_iff.mp h
  obtain ⟨vs, hvs, rfl⟩ := Option.map_eq_some_iff.mp hr
  exact ⟨r.1, r.2, vs, hrun, hvs, rfl⟩

/-! ### Where a token ends -/

/-- A character that ends what the scanner is in the middle of. -/
theorem step_of_ends (hc : continues s c = none) (hs : finish s = some ts)
    (h : start c = some (us, s')) : step s c = some (ts ++ us, s') := by
  unfold step
  rw [hc]
  simp only [hs, h, Option.bind_some, Option.map_some]

/-- Nothing goes on with a closing parenthesis but a comment and what is open. -/
theorem continues_paren (hs : finish s = some ts) (hcomment : s ≠ .lineComment) :
    continues s ')' = none := by
  have hword : isWordChar ')' = false := by decide
  have hop : isOpChar ')' = false := by decide
  cases s with
  | blank => rfl
  | word w => simp [continues, hword]
  | number w =>
    have halnum : Char.isAlphanum ')' = false := by decide
    simp [continues, numberGoesOn, halnum]
  | param w =>
    have hdigit : Char.isDigit ')' = false := by decide
    simp [continues, hdigit]
  | op w => simp [continues, hop]
  | colon => rfl
  | dot =>
    have hdigit : Char.isDigit ')' = false := by decide
    simp [continues, hdigit]
  | unicodeMark u => simp [continues, hop]
  | strEnd kind w =>
    have hspace : isSpace ')' = false := by decide
    simp [continues, hspace]
  | gap kind w newline =>
    have hspace : isSpace ')' = false := by decide
    simp [continues, hspace]
  | quotedEnd u w => simp [continues]
  | lineComment => exact absurd rfl hcomment
  | str | escaped | quoted | dollar | dollarStr | blockComment => cases hs

/-- A comment goes on to the end of its line. -/
theorem reads_comment (h : ∀ c ∈ a, isNewline c = false) :
    Reads .lineComment a [] .lineComment := by
  induction a with
  | nil => rfl
  | cons c a ih =>
    obtain ⟨hc, ha⟩ := List.forall_mem_cons.mp h
    have hstep : step .lineComment c = some ([], .lineComment) := by
      simp [step, continues, hc]
    exact Reads.cons hstep (ih ha)

end Reading

/-! ### Words, literals and quoted identifiers -/

theorem reads_wordChars {w : List Char} (h : ∀ c ∈ w, isWordChar c = true) (s : List Char) :
    Reads (.word s) w [] (.word (s ++ w)) := by
  induction w generalizing s with
  | nil =>
    rw [List.append_nil]
    rfl
  | cons c w ih =>
    obtain ⟨hc, hw⟩ := List.forall_mem_cons.mp h
    have hstep : step (.word s) c = some ([], .word (s ++ [c])) := by
      simp [step, continues, hc]
    have hrest := ih hw (s ++ [c])
    rw [List.append_assoc] at hrest
    exact Reads.cons hstep hrest

/-- A word. -/
theorem reads_word {c : Char} {w : List Char} (hc : isWordStart c = true)
    (hw : ∀ d ∈ w, isWordChar d = true) : Reads .blank (c :: w) [] (.word (c :: w)) := by
  have hspace : isSpace c = false := by
    by_contra hspace
    rw [Bool.not_eq_false] at hspace
    simp only [isSpace, List.mem_cons, List.not_mem_nil, or_false, decide_eq_true_eq] at hspace
    rcases hspace with rfl | rfl | rfl | rfl | rfl | rfl <;> cases hc
  have hstep : step .blank c = some ([], .word [c]) := by
    simp [step, continues, finish, start, hspace, hc]
  exact Reads.cons hstep (reads_wordChars hw [c])

/-- A text with a quote character doubled. -/
def doubled (q : Char) (s : List Char) : List Char :=
  s.flatMap fun c => if c = q then [q, q] else [c]

/-- A text whose quotes are doubled is the text of a string constant. -/
theorem reads_doubled (s a : List Char) :
    Reads (.str .plain s) (doubled '\'' a) [] (.str .plain (s ++ a)) := by
  induction a generalizing s with
  | nil =>
    rw [List.append_nil]
    rfl
  | cons c a ih =>
    have hrest := ih (s ++ [c])
    rw [List.append_assoc] at hrest
    unfold doubled at hrest ⊢
    rw [List.flatMap_cons]
    by_cases hc : c = '\''
    · rw [if_pos hc]
      rw [hc] at hrest ⊢
      have hquote : step (.str .plain s) '\'' = some ([], .strEnd .plain s) := rfl
      have hpair : step (.strEnd .plain s) '\'' = some ([], .str .plain (s ++ ['\''])) := rfl
      exact Reads.cons hquote (Reads.cons hpair hrest)
    · rw [if_neg hc]
      have hstep : step (.str .plain s) c = some ([], .str .plain (s ++ [c])) := by
        simp [step, continues, hc]
      exact Reads.cons hstep hrest

/-- **A literal**: quotes around a text whose quotes are doubled. -/
theorem reads_literal (a : List Char) :
    Reads .blank ('\'' :: (doubled '\'' a ++ ['\''])) [] (.strEnd .plain a) := by
  have hopen : step .blank '\'' = some ([], .str .plain []) := rfl
  have hclose : step (.str .plain a) '\'' = some ([], .strEnd .plain a) := rfl
  exact Reads.cons hopen ((reads_doubled [] a).append (Reads.single hclose))

theorem reads_doubledIdent (s a : List Char) :
    Reads (.quoted false s) (doubled '\x22' a) [] (.quoted false (s ++ a)) := by
  induction a generalizing s with
  | nil =>
    rw [List.append_nil]
    rfl
  | cons c a ih =>
    have hrest := ih (s ++ [c])
    rw [List.append_assoc] at hrest
    unfold doubled at hrest ⊢
    rw [List.flatMap_cons]
    by_cases hc : c = '\x22'
    · rw [if_pos hc]
      rw [hc] at hrest ⊢
      have hquote : step (.quoted false s) '\x22' = some ([], .quotedEnd false s) := rfl
      have hpair : step (.quotedEnd false s) '\x22' =
        some ([], .quoted false (s ++ ['\x22'])) := rfl
      exact Reads.cons hquote (Reads.cons hpair hrest)
    · rw [if_neg hc]
      have hstep : step (.quoted false s) c = some ([], .quoted false (s ++ [c])) := by
        simp [step, continues, hc]
      exact Reads.cons hstep hrest

/-- A quoted identifier. -/
theorem reads_quotedIdent (a : List Char) :
    Reads .blank ('\x22' :: (doubled '\x22' a ++ ['\x22'])) [] (.quotedEnd false a) := by
  have hopen : step .blank '\x22' = some ([], .quoted false []) := rfl
  have hclose : step (.quoted false a) '\x22' = some ([], .quotedEnd false a) := rfl
  exact Reads.cons hopen ((reads_doubledIdent [] a).append (Reads.single hclose))

end SqlText

end PgSynapse
