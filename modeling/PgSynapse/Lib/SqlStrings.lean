import PgSynapse.Lib.SqlLexer

/-!
# Words and string constants in a SQL text

How a scanner goes from one part of a text to the next, and which text a string constant has.  A
constant between dollar tags ends at the first delimiter (`reads_dollarStr`, `dollarStr_of_lexFrom`).
A constant in quotes is `Unquoted`: a quote is doubled, and the constant may go on after a line break.
-/

namespace PgSynapse

namespace SqlText

section Parts

variable {s s' : State} {a b : List Char} {c : Char} {ts us : List Lexeme}

/-! ### From one part to the next -/

/-- The tokens of a text that has them. -/
def tokens (cs : List Char) : List Lexeme := (lex cs).getD []

/-- A text at the end of which nothing is begun. -/
def closes (cs : List Char) : Bool :=
  match run .blank cs with
  | some (_, .blank) => true
  | _ => false

/-- A text that ends in a line comment. -/
def endsInComment (cs : List Char) : Bool :=
  match run .blank cs with
  | some (_, .lineComment) => true
  | _ => false

theorem reads_of_closes (h : closes a = true) : Reads .blank a (tokens a) .blank := by
  unfold closes at h
  split at h
  · next ts hrun =>
    have htokens : tokens a = ts := by
      simp [tokens, lex, lexFrom, hrun, finish]
    rw [htokens]
    exact hrun
  · cases h

theorem toList_eq {s : String} {cs : List Char} (h : s = String.ofList cs) : s.toList = cs := by
  rw [h, String.toList_ofList]

/-- The tokens of a text of the program. -/
def code (s : String) : List Lexeme := tokens s.toList

theorem reads_code {s : String} {cs : List Char} (hs : s = String.ofList cs)
    (h : closes cs = true) : Reads .blank s.toList (code s) .blank := by
  unfold code
  rw [toList_eq hs]
  exact reads_of_closes h

theorem lex_eq_tokens (h : (lex a).isSome) : lex a = some (tokens a) := by
  obtain ⟨ts, hts⟩ := Option.isSome_iff_exists.mp h
  rw [tokens, hts, Option.getD_some]

/-- A text with tokens that does not end in a line comment. -/
theorem reads_of_lex (h : (lex a).isSome) (hcomment : endsInComment a = false) :
    ∃ us s' vs, Reads .blank a us s' ∧ finish s' = some vs ∧ s' ≠ .lineComment ∧
      tokens a = us ++ vs := by
  obtain ⟨us, s', vs, hread, hfinish, htokens⟩ := reads_of_lexFrom (lex_eq_tokens h)
  refine ⟨us, s', vs, hread, hfinish, ?_, htokens⟩
  rintro rfl
  unfold Reads at hread
  simp [endsInComment, hread] at hcomment

/-- A text with tokens that ends in a line comment. -/
theorem reads_of_endsInComment (hcomment : endsInComment a = true) :
    Reads .blank a (tokens a) .lineComment := by
  unfold endsInComment at hcomment
  split at hcomment
  · next ts hrun =>
    have htokens : tokens a = ts := by
      simp [tokens, lex, lexFrom, hrun, finish]
    rw [htokens]
    exact hrun
  · cases hcomment

/-- A part that begins with a character at which a token ends. -/
theorem Reads.after (hs : finish s = some ts) (hc : continues s c = none)
    (h : Reads .blank (c :: a) us s') : Reads s (c :: a) (ts ++ us) s' := by
  unfold Reads at h ⊢
  have hblank : step .blank c = start c := by
    simp [step, continues, finish]
  have hstep : step s c = (start c).map fun r => (ts ++ r.1, r.2) := by
    unfold step
    rw [hc]
    simp only [hs, Option.bind_some]
  rw [run, hblank] at h
  rw [run, hstep]
  cases hstart : start c with
  | none =>
    rw [hstart] at h
    cases h
  | some r =>
    rw [hstart, Option.bind_some] at h
    obtain ⟨r', hrun, hr⟩ := Option.map_eq_some_iff.mp h
    obtain ⟨rfl, rfl⟩ := Prod.mk.inj hr
    rw [Option.map_some, Option.bind_some, hrun, Option.map_some, List.append_assoc]

/-- A character without a token of its own. -/
theorem lexFrom_step (h : step s c = some ([], s')) : lexFrom s (c :: a) = lexFrom s' a := by
  rw [show c :: a = [c] ++ a from rfl, (Reads.single h).lexFrom a]
  simp

/-- A text of the program after what it ends. -/
theorem Reads.afterCode {t : String} (hs : finish s = some ts) (hc : continues s c = none)
    (ht : t = String.ofList (c :: a)) (h : closes (c :: a) = true) :
    Reads s t.toList (ts ++ code t) .blank := by
  have hread := reads_code ht h
  rw [toList_eq ht] at hread ⊢
  exact hread.after hs hc

/-- The tokens from a character at which a token ends. -/
theorem lexFrom_after (hc : continues s c = none) (h : lexFrom s (c :: a) = some ts) :
    ∃ us vs, finish s = some us ∧ ts = us ++ vs := by
  obtain ⟨us, s', vs, hread, -, rfl⟩ := reads_of_lexFrom h
  unfold Reads at hread
  rw [run] at hread
  obtain ⟨r, hstep, hrest⟩ := Option.bind_eq_some_iff.mp hread
  obtain ⟨r', -, hr⟩ := Option.map_eq_some_iff.mp hrest
  unfold step at hstep
  rw [hc] at hstep
  obtain ⟨ws, hws, hstart⟩ := Option.bind_eq_some_iff.mp hstep
  obtain ⟨r'', -, rfl⟩ := Option.map_eq_some_iff.mp hstart
  refine ⟨ws, r''.1 ++ r'.1 ++ vs, hws, ?_⟩
  rw [← (Prod.mk.inj hr).1, List.append_assoc, List.append_assoc, List.append_assoc]

/-- **A space and a character that is neither a space nor a quote** end a token. -/
theorem reads_space (hs : finish s = some ts) (hcomment : s ≠ .lineComment)
    (hspace : isSpace c = false) (hquote : c ≠ '\'') (h : Reads .blank (c :: a) us s') :
    Reads s (' ' :: c :: a) (ts ++ us) s' := by
  have hword : isWordChar ' ' = false := by decide
  have hop : isOpChar ' ' = false := by decide
  have hdigit : Char.isDigit ' ' = false := by decide
  have halnum : Char.isAlphanum ' ' = false := by decide
  have hskip : step .blank ' ' = some ([], .blank) := by decide
  have hblank : Reads .blank (' ' :: c :: a) us s' :=
    Reads.cons hskip h
  -- after a string constant the space may stand before a further part of it
  have hgap : ∀ kind w newline, s = .strEnd kind w ∨ s = .gap kind w newline →
      Reads s (' ' :: c :: a) (ts ++ us) s' := by
    intro kind w newline hgap
    have hstep : ∃ newline, step s ' ' = some ([], .gap kind w newline) := by
      rcases hgap with rfl | rfl
      · exact ⟨false, by simp [step, continues, isSpace, isNewline]⟩
      · exact ⟨newline, by simp [step, continues, isSpace, isNewline]⟩
    obtain ⟨newline, hstep⟩ := hstep
    have hfinish : finish (.gap kind w newline) = some ts := by
      rcases hgap with rfl | rfl <;> exact hs
    have hc : continues (.gap kind w newline) c = none := by
      simp [continues, hspace, hquote]
    have hrest : Reads (.gap kind w newline) (c :: a) (ts ++ us) s' := h.after hfinish hc
    show Reads s (' ' :: c :: a) ([] ++ (ts ++ us)) s'
    exact Reads.cons hstep hrest
  cases s with
  | strEnd kind w => exact hgap kind w false (Or.inl rfl)
  | gap kind w newline => exact hgap kind w newline (Or.inr rfl)
  | blank =>
    cases hs
    exact hblank
  | word w => exact hblank.after hs (by simp [continues, hword])
  | number w => exact hblank.after hs (by simp [continues, numberGoesOn, halnum])
  | param w => exact hblank.after hs (by simp [continues, hdigit])
  | op w => exact hblank.after hs (by simp [continues, hop])
  | colon => exact hblank.after hs rfl
  | dot => exact hblank.after hs (by simp [continues, hdigit])
  | unicodeMark u => exact hblank.after hs (by simp [continues, hop])
  | quotedEnd u w => exact hblank.after hs (by simp [continues])
  | lineComment => exact absurd rfl hcomment
  | str | escaped | quoted | dollar | dollarStr | blockComment => cases hs

/-! ### A word -/

/-- Nothing but a word character goes on with a word of two characters and more. -/
theorem continues_word {w : List Char} (hw : 2 ≤ w.length) (hc : isWordChar c = false) :
    continues (.word w) c = none := by
  have hlong : ∀ d, foldCase w ≠ [d] := by
    intro d hd
    have hlength := congrArg List.length hd
    rw [foldCase, List.length_map, List.length_singleton] at hlength
    omega
  simp [continues, hc, strKindOf, hlong]

/-- The first token is the word as far as word characters go. -/
theorem word_of_lexFrom {v w : List Char} (hv : 2 ≤ v.length)
    (hw : ∀ c ∈ w, isWordChar c = true)
    (hb : ∀ c, b.head? = some c → isWordChar c = false)
    (h : lexFrom (.word v) (w ++ b) = some ts) :
    ∃ us, ts = .word (foldCase (v ++ w)) :: us := by
  rw [(reads_wordChars hw v).lexFrom b] at h
  obtain ⟨us, hus, rfl⟩ := Option.map_eq_some_iff.mp h
  rw [List.nil_append]
  cases b with
  | nil =>
    cases hus
    exact ⟨[], rfl⟩
  | cons c b =>
    have hc := continues_word (w := v ++ w) (by rw [List.length_append]; omega) (hb c rfl)
    obtain ⟨us', vs, hfinish, rfl⟩ := lexFrom_after hc hus
    cases hfinish
    exact ⟨vs, rfl⟩

/-- The first token of a text that is to be one word is as much of it as is one. -/
theorem firstWord_of_lexFrom {v w : List Char} {q : Char} (hv : 2 ≤ v.length)
    (hq : isWordChar q = false) (h : lexFrom (.word v) (w ++ q :: b) = some ts) :
    ∃ us, ts = .word (foldCase (v ++ w.takeWhile isWordChar)) :: us := by
  rw [← List.takeWhile_append_dropWhile (p := isWordChar) (l := w), List.append_assoc] at h
  refine word_of_lexFrom hv (List.all_eq_true.mp List.all_takeWhile) (fun c hc => ?_) h
  have hnot := List.head?_dropWhile_not isWordChar w
  cases hdrop : w.dropWhile isWordChar with
  | nil =>
    rw [hdrop, List.nil_append, List.head?_cons] at hc
    rwa [← Option.some.inj hc]
  | cons d rest =>
    rw [hdrop, List.cons_append, List.head?_cons] at hc
    rw [hdrop, List.head?_cons] at hnot
    rwa [← Option.some.inj hc]

end Parts

/-! ### A delimiter in a text -/

section Delimiters

variable {d a b : List Char} {q : Char}

theorem prefix_append_cons (hq : q ∉ d) : d <+: a ++ q :: b ↔ d <+: a := by
  induction a generalizing d with
  | nil =>
    cases d with
    | nil => simp
    | cons e d =>
      have he : e ≠ q := fun he => hq (he ▸ List.mem_cons_self)
      simp [List.cons_prefix_cons, he]
  | cons c a ih =>
    cases d with
    | nil => simp
    | cons e d =>
      rw [List.cons_append, List.cons_prefix_cons, List.cons_prefix_cons,
        ih fun hd => hq (List.mem_cons_of_mem e hd)]

/-- A text without the character at which two texts are joined is in one of them. -/
theorem infix_append_cons (hq : q ∉ d) (hd : d ≠ []) :
    d <:+: a ++ q :: b ↔ d <:+: a ∨ d <:+: b := by
  induction a with
  | nil =>
    have hbegin : ¬ d <+: q :: b := by
      intro h
      exact hd (List.prefix_nil.mp ((prefix_append_cons (a := []) hq).mp h))
    rw [List.nil_append, List.infix_cons_iff, List.infix_nil]
    simp [hbegin, hd]
  | cons c a ih =>
    have hbegin : d <+: c :: (a ++ q :: b) ↔ d <+: c :: a := prefix_append_cons (a := c :: a) hq
    rw [List.cons_append, List.infix_cons_iff, ih, hbegin, List.infix_cons_iff, or_assoc]

theorem prefix_doubled (hq : q ∉ d) : d <+: doubled q a ↔ d <+: a := by
  induction a generalizing d with
  | nil => rfl
  | cons c a ih =>
    cases d with
    | nil => simp
    | cons e d =>
      have he : e ≠ q := fun he => hq (he ▸ List.mem_cons_self)
      have hd := ih fun hd => hq (List.mem_cons_of_mem e hd)
      unfold doubled at hd ⊢
      rw [List.flatMap_cons]
      by_cases hc : c = q
      · rw [if_pos hc, hc]
        simp [List.cons_prefix_cons, he]
      · rw [if_neg hc, List.singleton_append, List.cons_prefix_cons, List.cons_prefix_cons, hd]

/-- Doubling a character that a text does not have. -/
theorem infix_doubled (hq : q ∉ d) (hd : d ≠ []) : d <:+: doubled q a ↔ d <:+: a := by
  induction a with
  | nil => rfl
  | cons c a ih =>
    by_cases hc : c = q
    · have hdoubled : doubled q (c :: a) = [] ++ q :: ([] ++ q :: doubled q a) := by
        rw [doubled, List.flatMap_cons, if_pos hc]
        rfl
      have hcons : c :: a = [] ++ q :: a := by rw [hc, List.nil_append]
      rw [hdoubled, hcons, infix_append_cons hq hd, infix_append_cons hq hd,
        infix_append_cons hq hd, ih]
      simp [hd]
    · have hbegin := prefix_doubled (a := c :: a) hq
      rw [doubled, List.flatMap_cons, if_neg hc, List.singleton_append] at hbegin ⊢
      rw [List.infix_cons_iff, List.infix_cons_iff, hbegin]
      exact or_congr_right ih

end Delimiters

/-! ### A constant between dollar tags -/

section Dollar

variable {tag a b : List Char} {ts : List Lexeme}

theorem reads_undelimited {s : List Char} (h : ¬ delimiter tag <:+: s ++ a) :
    Reads (.dollarStr tag s) a [] (.dollarStr tag (s ++ a)) := by
  induction a generalizing s with
  | nil =>
    rw [List.append_nil]
    rfl
  | cons c a ih =>
    have hsplit : s ++ c :: a = s ++ [c] ++ a := by simp
    have hnot : ¬ delimiter tag <:+ s ++ [c] := by
      intro hsuffix
      rw [hsplit] at h
      exact h (List.infix_append_of_infix_left hsuffix.isInfix)
    have hstep : step (.dollarStr tag s) c = some ([], .dollarStr tag (s ++ [c])) := by
      simp [step, continues, hnot]
    rw [hsplit] at h ⊢
    exact Reads.cons hstep (ih h)

/-- **A constant between dollar tags** is the text to the first delimiter. -/
theorem reads_dollarStr (h : ¬ delimiter tag <:+: a ++ (delimiter tag).dropLast) :
    Reads (.dollarStr tag []) (a ++ delimiter tag) [.str .plain a] .blank := by
  have hdelimiter : delimiter tag = (delimiter tag).dropLast ++ ['$'] := by
    rw [delimiter, ← List.cons_append, List.dropLast_concat]
  have hsplit : a ++ delimiter tag = a ++ (delimiter tag).dropLast ++ ['$'] := by
    rw [List.append_assoc, ← hdelimiter]
  have hsuffix : delimiter tag <:+ a ++ (delimiter tag).dropLast ++ ['$'] := by
    rw [← hsplit]
    exact List.suffix_append a _
  have hstep : step (.dollarStr tag (a ++ (delimiter tag).dropLast)) '$' =
      some ([.str .plain a], .blank) := by
    have hlength : (a ++ (delimiter tag).dropLast ++ ['$']).length - (delimiter tag).length =
        a.length := by
      rw [← hsplit, List.length_append, Nat.add_sub_cancel]
    simp only [step, continues, hsuffix, if_true, hlength]
    rw [List.append_assoc, List.take_left]
  have hread := reads_undelimited (s := []) h
  rw [List.nil_append] at hread
  rw [hsplit]
  exact hread.append (Reads.single hstep)

/-- The first token of a text in a constant between dollar tags. -/
theorem dollarStr_of_lexFrom {s : List Char} (hs : ¬ delimiter tag <:+: s)
    (h : lexFrom (.dollarStr tag s) a = some ts) :
    ∃ x us, ts = .str .plain x :: us ∧ ¬ delimiter tag <:+: x := by
  induction a generalizing s with
  | nil => cases h
  | cons c a ih =>
    by_cases hsuffix : delimiter tag <:+ s ++ [c]
    · have hstep : step (.dollarStr tag s) c = some ([.str .plain ((s ++ [c]).take
          ((s ++ [c]).length - (delimiter tag).length))], .blank) := by
        simp only [step, continues, hsuffix, if_true]
      rw [show c :: a = [c] ++ a from rfl, (Reads.single hstep).lexFrom a] at h
      obtain ⟨us, -, rfl⟩ := Option.map_eq_some_iff.mp h
      refine ⟨_, us, rfl, fun hocc => hs (hocc.trans ?_)⟩
      have hlength : (s ++ [c]).length - (delimiter tag).length ≤ s.length := by
        rw [List.length_append, List.length_singleton, delimiter, List.length_cons]
        omega
      rw [List.take_append_of_le_length hlength]
      exact (List.take_prefix _ s).isInfix
    · have hstep : step (.dollarStr tag s) c = some ([], .dollarStr tag (s ++ [c])) := by
        simp [step, continues, hsuffix]
      rw [lexFrom_step hstep] at h
      refine ih (fun hocc => ?_) h
      rcases List.infix_concat_iff.mp hocc with hocc | hocc
      · exact hsuffix hocc
      · exact hs hocc

end Dollar

/-! ### A constant in quotes -/

/-- What stands between the quotes of a string constant, and the text of the constant. -/
inductive Unquoted : List Char → List Char → Prop
  | nil : Unquoted [] []
  | char {c : Char} {r t : List Char} (hc : c ≠ '\'') (h : Unquoted r t) :
      Unquoted (c :: r) (c :: t)
  | pair {r t : List Char} (h : Unquoted r t) : Unquoted ('\'' :: '\'' :: r) ('\'' :: t)
  | gap {g r t : List Char} (hg : ∀ c ∈ g, isSpace c = true) (hline : ∃ c ∈ g, isNewline c = true)
      (h : Unquoted r t) : Unquoted ('\'' :: (g ++ '\'' :: r)) t

section Quotes

variable {s a : List Char} {ts : List Lexeme}

theorem doubled_eq {q : Char} (h : q ∉ a) : doubled q a = a := by
  induction a with
  | nil => rfl
  | cons c a ih =>
    rw [List.mem_cons, not_or] at h
    rw [doubled, List.flatMap_cons, if_neg (Ne.symm h.1), List.singleton_append]
    exact congrArg (c :: ·) (ih h.2)

/-- A text without quotes is the text of a string constant. -/
theorem reads_unquoted (s : List Char) (h : '\'' ∉ a) :
    Reads (.str .plain s) a [] (.str .plain (s ++ a)) := by
  have hread := reads_doubled s a
  rwa [doubled_eq h] at hread

theorem Unquoted.tail {c : Char} {r t : List Char} (hc : c ≠ '\'') (h : Unquoted (c :: r) t) :
    ∃ t', t = c :: t' ∧ Unquoted r t' := by
  cases h with
  | char _ h => exact ⟨_, rfl, h⟩
  | pair h => exact absurd rfl hc
  | gap => exact absurd rfl hc

/-- The texts after a part without quotes. -/
theorem Unquoted.drop {r t : List Char} (ha : '\'' ∉ a) (h : Unquoted (a ++ r) t) :
    ∃ t', t = a ++ t' ∧ Unquoted r t' := by
  induction a generalizing t with
  | nil => exact ⟨t, rfl, h⟩
  | cons c a ih =>
    rw [List.mem_cons, not_or] at ha
    obtain ⟨t', rfl, htail⟩ := Unquoted.tail (Ne.symm ha.1) h
    obtain ⟨t, rfl, hrest⟩ := ih ha.2 htail
    exact ⟨t, rfl, hrest⟩

/-- After a string constant there is a further part of it or its token. -/
theorem gap_of_lexFrom {newline : Bool} (h : lexFrom (.gap .plain s newline) a = some ts) :
    (∃ us, ts = .str .plain s :: us) ∨
      ∃ g b, a = g ++ '\'' :: b ∧ (∀ c ∈ g, isSpace c = true) ∧
        (newline = true ∨ ∃ c ∈ g, isNewline c = true) ∧ lexFrom (.str .plain s) b = some ts := by
  induction a generalizing newline with
  | nil =>
    cases h
    exact Or.inl ⟨[], rfl⟩
  | cons c a ih =>
    by_cases hspace : isSpace c = true
    · have hstep : step (.gap .plain s newline) c =
          some ([], .gap .plain s (newline || isNewline c)) := by
        simp [step, continues, hspace]
      rw [lexFrom_step hstep] at h
      rcases ih h with hend | ⟨g, b, rfl, hg, hline, hb⟩
      · exact Or.inl hend
      · refine Or.inr ⟨c :: g, b, rfl, List.forall_mem_cons.mpr ⟨hspace, hg⟩, ?_, hb⟩
        rcases hline with hline | ⟨d, hd, hline⟩
        · rcases Bool.or_eq_true_iff.mp hline with hline | hline
          · exact Or.inl hline
          · exact Or.inr ⟨c, List.mem_cons_self, hline⟩
        · exact Or.inr ⟨d, List.mem_cons_of_mem c hd, hline⟩
    · by_cases hquote : c = '\'' ∧ newline = true
      · obtain ⟨rfl, rfl⟩ := hquote
        have hstep : step (.gap .plain s true) '\'' = some ([], .str .plain s) := by
          simp [step, continues, hspace]
        rw [lexFrom_step hstep] at h
        exact Or.inr ⟨[], a, rfl, List.forall_mem_nil _, Or.inl rfl, h⟩
      · have hc : continues (.gap .plain s newline) c = none := by
          simp [continues, hspace, hquote]
        obtain ⟨us, vs, hus, rfl⟩ := lexFrom_after hc h
        cases hus
        exact Or.inl ⟨vs, rfl⟩

/-- **The text of a string constant** by what stands between its quotes. -/
theorem unquoted_of_lexFrom (h : lexFrom (.str .plain s) a = some ts) :
    ∃ r t b us, a = r ++ '\'' :: b ∧ Unquoted r t ∧ ts = .str .plain (s ++ t) :: us := by
  -- on the length: the rest after a gap between two pieces of a literal is no tail of one char
  generalize hn : a.length = n
  induction n using Nat.strong_induction_on generalizing s a with
  | _ n ih =>
    have hend : ∀ b us, ts = .str .plain s :: us →
        ∃ r t b' us', '\'' :: b = r ++ '\'' :: b' ∧ Unquoted r t ∧
          ts = .str .plain (s ++ t) :: us' := by
      intro b us hts
      exact ⟨[], [], b, us, rfl, .nil, by rw [List.append_nil, hts]⟩
    cases a with
    | nil => cases h
    | cons c a =>
      by_cases hc : c = '\''
      · subst hc
        have hstep : step (.str .plain s) '\'' = some ([], .strEnd .plain s) := rfl
        rw [lexFrom_step hstep] at h
        cases a with
        | nil =>
          cases h
          exact hend [] [] rfl
        | cons c a =>
          by_cases hc : c = '\''
          · -- a quote in the text
            subst hc
            have hstep : step (.strEnd .plain s) '\'' = some ([], .str .plain (s ++ ['\''])) := rfl
            rw [lexFrom_step hstep] at h
            obtain ⟨r, t, b, us, rfl, hr, hts⟩ :=
              ih a.length (by simp only [List.length_cons] at hn; omega) h rfl
            refine ⟨'\'' :: '\'' :: r, '\'' :: t, b, us, rfl, hr.pair, ?_⟩
            rw [hts, List.append_assoc, List.singleton_append]
          · by_cases hspace : isSpace c = true
            -- white space with a line break in it carries the literal on in the next piece
            · have hstep : step (.strEnd .plain s) c =
                  some ([], .gap .plain s (isNewline c)) := by
                simp [step, continues, hspace, hc]
              rw [lexFrom_step hstep] at h
              rcases gap_of_lexFrom h with ⟨us, hts⟩ | ⟨g, b, rfl, hg, hline, hb⟩
              · exact hend _ us hts
              · have hlt : b.length < n := by
                  simp only [List.length_cons, List.length_append] at hn
                  omega
                obtain ⟨r, t, b', us, rfl, hr, hts⟩ := ih b.length hlt hb rfl
                refine ⟨'\'' :: (c :: g ++ '\'' :: r), t, b', us, by simp, .gap ?_ ?_ hr, hts⟩
                · exact List.forall_mem_cons.mpr ⟨hspace, hg⟩
                · rcases hline with hline | ⟨d, hd, hline⟩
                  · exact ⟨c, List.mem_cons_self, hline⟩
                  · exact ⟨d, List.mem_cons_of_mem c hd, hline⟩
            · have hends : continues (.strEnd .plain s) c = none := by
                simp [continues, hspace, hc]
              obtain ⟨us', vs, hfinish, rfl⟩ := lexFrom_after hends h
              cases hfinish
              exact hend _ vs rfl
      · have hstep : step (.str .plain s) c = some ([], .str .plain (s ++ [c])) := by
          simp [step, continues, hc]
        rw [lexFrom_step hstep] at h
        obtain ⟨r, t, b, us, rfl, hr, hts⟩ :=
          ih a.length (by simp only [List.length_cons] at hn; omega) h rfl
        refine ⟨c :: r, c :: t, b, us, rfl, hr.char hc, ?_⟩
        rw [hts, List.append_assoc, List.singleton_append]

end Quotes

end SqlText

end PgSynapse
