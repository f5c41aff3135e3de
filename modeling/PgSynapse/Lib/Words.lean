import PgSynapse.Lib.Separators

/-!
# Words

The words of a text are its runs of certain characters.  Writing a separator for every run of other
characters, and trimming it off the ends, joins the words at the separator
(`trimMatches_squeeze`), and words without the separator are read back from the joined text
(`words_inj`).
-/

namespace PgSynapse

variable {α : Type}

/-- A word that was begun, if it was. -/
def flush : List α → List (List α)
  | [] => []
  | word => [word]

/-- The words from here on, with the word begun so far. -/
def wordsFrom (p : α → Bool) : List α → List α → List (List α)
  | word, [] => flush word
  | word, x :: xs =>
    if p x then wordsFrom p (word ++ [x]) xs else flush word ++ wordsFrom p [] xs

/-- **The words** of a text: its runs of elements in `p`. -/
def words (p : α → Bool) (xs : List α) : List (List α) := wordsFrom p [] xs

section Squeeze

variable [DecidableEq α]

/-- One more element: one in `p` is kept, and any other is a separator, unless one stands there. -/
def squeezeStep (p : α → Bool) (sep : α) (out : List α) (x : α) : List α :=
  if p x then out ++ [x] else if out.getLast? = some sep then out else out ++ [sep]

/-- Every run of other elements is one separator. -/
def squeeze (p : α → Bool) (sep : α) (xs : List α) : List α := xs.foldl (squeezeStep p sep) []

/-- The text without the separators at its ends. -/
def trimMatches (sep : α) (xs : List α) : List α :=
  ((xs.dropWhile (· == sep)).reverse.dropWhile (· == sep)).reverse

end Squeeze

/-! ### Words -/

theorem flush_eq {word : List α} (h : word ≠ []) : flush word = [word] := by
  cases word with
  | nil => exact absurd rfl h
  | cons _ _ => rfl

theorem mem_flush {word w : List α} (h : w ∈ flush word) : w = word ∧ w ≠ [] := by
  cases word with
  | nil => exact absurd h List.not_mem_nil
  | cons x xs =>
    obtain rfl := List.mem_singleton.mp h
    exact ⟨rfl, List.cons_ne_nil _ _⟩

/-- A word is not empty and has elements in `p` only. -/
theorem mem_wordsFrom {p : α → Bool} {word xs w : List α} (hword : ∀ x ∈ word, p x = true)
    (h : w ∈ wordsFrom p word xs) : w ≠ [] ∧ ∀ x ∈ w, p x = true := by
  induction xs generalizing word with
  | nil =>
    obtain ⟨rfl, hne⟩ := mem_flush h
    exact ⟨hne, hword⟩
  | cons x xs ih =>
    rw [wordsFrom] at h
    by_cases hx : p x = true
    · rw [if_pos hx] at h
      refine ih (fun y hy => ?_) h
      rcases List.mem_append.mp hy with hy | hy
      · exact hword y hy
      · rw [List.mem_singleton.mp hy]
        exact hx
    · rw [if_neg hx] at h
      rcases List.mem_append.mp h with h | h
      · obtain ⟨rfl, hne⟩ := mem_flush h
        exact ⟨hne, hword⟩
      · exact ih (fun y hy => absurd hy List.not_mem_nil) h

theorem mem_words {p : α → Bool} {xs w : List α} (h : w ∈ words p xs) :
    w ≠ [] ∧ ∀ x ∈ w, p x = true :=
  mem_wordsFrom (fun _ hy => absurd hy List.not_mem_nil) h

/-- The elements of the words are elements of the text. -/
theorem mem_of_mem_wordsFrom {p : α → Bool} {word xs w : List α} (h : w ∈ wordsFrom p word xs)
    {x : α} (hx : x ∈ w) : x ∈ word ∨ x ∈ xs := by
  induction xs generalizing word with
  | nil =>
    obtain ⟨rfl, -⟩ := mem_flush h
    exact .inl hx
  | cons y xs ih =>
    rw [wordsFrom] at h
    by_cases hy : p y = true
    · rw [if_pos hy] at h
      rcases ih h with hmem | hmem
      · rcases List.mem_append.mp hmem with hmem | hmem
        · exact .inl hmem
        · exact .inr (List.mem_cons.mpr (.inl (List.mem_singleton.mp hmem)))
      · exact .inr (List.mem_cons_of_mem _ hmem)
    · rw [if_neg hy] at h
      rcases List.mem_append.mp h with h | h
      · obtain ⟨rfl, -⟩ := mem_flush h
        exact .inl hx
      · exact .inr (List.mem_cons_of_mem _ ((ih h).resolve_left List.not_mem_nil))

/-- **The joined text determines the words**, if none of them has the separator. -/
theorem words_inj [DecidableEq α] {sep : α} {ws ws' : List (List α)} (hws : ∀ w ∈ ws, sep ∉ w)
    (hws' : ∀ w ∈ ws', sep ∉ w) (hne : ws ≠ []) (hne' : ws' ≠ [])
    (h : [sep].intercalate ws = [sep].intercalate ws') : ws = ws' := by
  rw [← List.splitOn_intercalate sep hws hne, h, List.splitOn_intercalate sep hws' hne']

/-- The last part stands behind the separators. -/
theorem intercalate_concat {sep : α} (parts : List (List α)) (last : List α) :
    [sep].intercalate (parts ++ [last]) = parts.flatMap (· ++ [sep]) ++ last := by
  induction parts with
  | nil => simp
  | cons part parts ih =>
    have hne : parts ++ [last] ≠ [] := by simp
    obtain ⟨next, rest, hrest⟩ := List.exists_cons_of_ne_nil hne
    rw [List.cons_append, hrest, List.intercalate_cons_cons, ← hrest, ih, List.flatMap_cons,
      List.append_assoc, List.append_assoc, List.append_assoc]

/-- Joined words have no separator at their ends. -/
theorem intercalate_ends {sep : α} {ws : List (List α)} (hne : ws ≠ [])
    (hws : ∀ w ∈ ws, w ≠ [] ∧ sep ∉ w) :
    [sep].intercalate ws ≠ [] ∧ ([sep].intercalate ws).head? ≠ some sep ∧
      ([sep].intercalate ws).getLast? ≠ some sep := by
  have hfirst : ∃ x xs, x ≠ sep ∧ [sep].intercalate ws = x :: xs := by
    obtain ⟨w, rest, rfl⟩ := List.exists_cons_of_ne_nil hne
    obtain ⟨hw, hsep⟩ := hws w List.mem_cons_self
    obtain ⟨x, xs, rfl⟩ := List.exists_cons_of_ne_nil hw
    refine ⟨x, xs ++ rest.flatMap (sep :: ·), ?_, intercalate_cons _ _⟩
    rintro rfl
    exact hsep List.mem_cons_self
  obtain ⟨x, xs, hx, heq⟩ := hfirst
  refine ⟨by rw [heq]; exact List.cons_ne_nil _ _, ?_, ?_⟩
  · rw [heq]
    exact fun h => hx (Option.some.inj h)
  · obtain ⟨init, last, rfl⟩ := (List.eq_nil_or_concat ws).resolve_left hne
    rw [List.concat_eq_append] at hws ⊢
    obtain ⟨hlast, hsep⟩ := hws last (List.mem_append_right _ (List.mem_singleton.mpr rfl))
    rw [intercalate_concat, List.getLast?_append_of_ne_nil _ hlast]
    intro h
    exact hsep (List.mem_of_getLast? h)

/-- A list that ends with an element, and one more. -/
theorem pair_infix_concat {sep : α} {out : List α} {x : α} (h : [sep, sep] <:+: out ++ [x]) :
    [sep, sep] <:+: out ∨ (out.getLast? = some sep ∧ x = sep) := by
  rcases List.infix_concat_iff.mp h with hend | hinside
  · right
    obtain ⟨pre, hpre⟩ := hend
    rw [show pre ++ [sep, sep] = (pre ++ [sep]) ++ [sep] by simp] at hpre
    obtain ⟨hout, hx⟩ := List.append_inj' hpre rfl
    exact ⟨by rw [← hout, List.getLast?_concat], (List.cons.inj hx).1.symm⟩
  · exact .inl hinside

/-! ### Squeezing -/

section Squeeze

variable [DecidableEq α] {p : α → Bool} {sep : α}

/-- A text between separators, with none at its own ends. -/
theorem trimMatches_pad {pre m : List α} (post : List α) (hpre : ∀ x ∈ pre, x = sep)
    (hpost : ∀ x ∈ post, x = sep) (hhead : m.head? ≠ some sep) (hlast : m.getLast? ≠ some sep)
    (hne : m ≠ []) : trimMatches sep (pre ++ m ++ post) = m := by
  have hdrop {l r : List α} (hl : ∀ x ∈ l, x = sep) (hr : r ≠ []) (hrhead : r.head? ≠ some sep)
      (t : List α) : (l ++ (r ++ t)).dropWhile (· == sep) = r ++ t := by
    rw [List.dropWhile_append_of_pos (fun x hx => beq_iff_eq.mpr (hl x hx))]
    obtain ⟨x, r, rfl⟩ := List.exists_cons_of_ne_nil hr
    rw [List.cons_append, List.dropWhile_cons_of_neg]
    intro heq
    exact hrhead (congrArg some (beq_iff_eq.mp heq))
  have hback : (post.reverse ++ (m.reverse ++ [])).dropWhile (· == sep) = m.reverse ++ [] :=
    hdrop (fun x hx => hpost x (List.mem_reverse.mp hx)) (by simpa using hne)
      (by rwa [List.head?_reverse]) []
  unfold trimMatches
  rw [List.append_assoc, hdrop hpre hne hhead, List.reverse_append, ← List.append_nil m.reverse,
    hback, List.append_nil, List.reverse_reverse]

theorem trimMatches_all {xs : List α} (h : ∀ x ∈ xs, x = sep) : trimMatches sep xs = [] := by
  unfold trimMatches
  rw [List.dropWhile_eq_nil_iff.mpr fun x hx => beq_iff_eq.mpr (h x hx)]
  rfl

/-- What is squeezed so far: words with a separator behind each, a word that was begun, and possibly
a separator in front. -/
theorem trimMatches_squeezed {lead word : List α} {done : List (List α)}
    (hlead : ∀ x ∈ lead, x = sep) (hdone : ∀ w ∈ done, w ≠ [] ∧ sep ∉ w) (hword : sep ∉ word) :
    trimMatches sep (lead ++ done.flatMap (· ++ [sep]) ++ word) =
      [sep].intercalate (done ++ flush word) := by
  by_cases hw : word = []
  · rw [hw, List.append_nil]
    rcases List.eq_nil_or_concat done with rfl | ⟨init, last, rfl⟩
    · rw [List.flatMap_nil, List.append_nil, trimMatches_all hlead]
      rfl
    · -- the last word has its separator behind it
      rw [List.concat_eq_append] at hdone ⊢
      obtain ⟨hne, hhead, hlast⟩ := intercalate_ends (by simp) hdone
      have htext : lead ++ (init ++ [last]).flatMap (· ++ [sep]) =
          lead ++ [sep].intercalate (init ++ [last]) ++ [sep] := by
        rw [intercalate_concat, List.flatMap_append, List.flatMap_cons, List.flatMap_nil]
        simp only [List.append_nil, List.append_assoc]
      rw [htext, trimMatches_pad [sep] hlead (fun x hx => List.mem_singleton.mp hx) hhead hlast hne]
      exact congrArg _ (List.append_nil _).symm
  · have hall : ∀ w ∈ done ++ [word], w ≠ [] ∧ sep ∉ w := by
      intro w hmem
      rcases List.mem_append.mp hmem with h | h
      · exact hdone w h
      · rw [List.mem_singleton.mp h]
        exact ⟨hw, hword⟩
    obtain ⟨hne, hhead, hlast⟩ := intercalate_ends (by simp) hall
    have htrim := trimMatches_pad [] hlead (fun x hx => absurd hx List.not_mem_nil) hhead
      hlast hne
    rw [List.append_nil, intercalate_concat, ← List.append_assoc] at htrim
    rw [flush_eq hw, intercalate_concat]
    exact htrim

/-- **The loop of squeezing** from here on: what is trimmed in the end is the words done and those
still to come, joined. -/
theorem trimMatches_foldl (hsep : p sep = false) (xs : List α) {lead word : List α}
    {done : List (List α)} (hlead : ∀ x ∈ lead, x = sep)
    (hdone : ∀ w ∈ done, w ≠ [] ∧ sep ∉ w) (hword : ∀ x ∈ word, p x = true) :
    trimMatches sep (xs.foldl (squeezeStep p sep) (lead ++ done.flatMap (· ++ [sep]) ++ word)) =
      [sep].intercalate (done ++ wordsFrom p word xs) := by
  have hclear {w : List α} (h : ∀ x ∈ w, p x = true) : sep ∉ w := by
    intro hmem
    rw [h sep hmem] at hsep
    exact absurd hsep (by decide)
  -- `lead` is the separators that trimming takes off in front, `done` the words behind them
  induction xs generalizing lead done word with
  | nil => exact trimMatches_squeezed hlead hdone (hclear hword)
  | cons x xs ih =>
    rw [List.foldl_cons, wordsFrom]
    by_cases hx : p x = true
    · -- the word goes on
      have hword' : ∀ y ∈ word ++ [x], p y = true := by
        intro y hy
        rcases List.mem_append.mp hy with hy | hy
        · exact hword y hy
        · rw [List.mem_singleton.mp hy]
          exact hx
      rw [squeezeStep, if_pos hx, if_pos hx, List.append_assoc]
      exact ih hlead hdone hword'
    · rw [squeezeStep, if_neg hx, if_neg hx]
      have hnone : ∀ y ∈ ([] : List α), p y = true := fun y hy => absurd hy List.not_mem_nil
      by_cases hw : word = []
      · subst hw
        rw [List.append_nil]
        by_cases hend : (lead ++ done.flatMap (· ++ [sep])).getLast? = some sep
        · -- a separator stands there
          rw [if_pos hend]
          have hrest := ih hlead hdone hnone
          rwa [List.append_nil] at hrest
        · -- nothing stands there yet
          rw [if_neg hend]
          have hdone' : done = [] := by
            by_contra hne
            obtain ⟨init, last, rfl⟩ := (List.eq_nil_or_concat done).resolve_left hne
            apply hend
            rw [List.concat_eq_append, List.flatMap_append, List.flatMap_cons, List.flatMap_nil,
              List.append_nil, ← List.append_assoc, ← List.append_assoc, List.getLast?_concat]
          have hlead' : lead = [] := by
            by_contra hne
            apply hend
            rw [hdone', List.flatMap_nil, List.append_nil, List.getLast?_eq_some_getLast hne,
              hlead _ (List.getLast_mem hne)]
          subst hdone' hlead'
          have hone : ∀ y ∈ [sep], y = sep := fun y hy => List.mem_singleton.mp hy
          have hrest := ih hone (List.forall_mem_nil _) hnone
          simpa [flush] using hrest
      · -- the word is done
        have hend : (lead ++ done.flatMap (· ++ [sep]) ++ word).getLast? ≠ some sep := by
          rw [List.getLast?_append_of_ne_nil _ hw]
          intro h
          exact hclear hword (List.mem_of_getLast? h)
        have hdone' : ∀ w ∈ done ++ [word], w ≠ [] ∧ sep ∉ w := by
          intro w hmem
          rcases List.mem_append.mp hmem with h | h
          · exact hdone w h
          · rw [List.mem_singleton.mp h]
            exact ⟨hw, hclear hword⟩
        have hrest := ih hlead hdone' hnone
        rw [if_neg hend, flush_eq hw, ← List.append_assoc, ← hrest]
        congr 2
        rw [List.flatMap_append, List.flatMap_cons, List.flatMap_nil]
        simp only [List.append_nil, List.append_assoc]

/-- **Squeezed and trimmed**: the words, joined at the separator. -/
theorem trimMatches_squeeze (hsep : p sep = false) (xs : List α) :
    trimMatches sep (squeeze p sep xs) = [sep].intercalate (words p xs) := by
  have hloop := trimMatches_foldl hsep xs (List.forall_mem_nil (· = sep))
    (List.forall_mem_nil fun w => w ≠ [] ∧ sep ∉ w) (List.forall_mem_nil (p · = true))
  exact hloop

/-! ### Squeezed already -/

/-- No two separators stand next to each other in what is squeezed. -/
theorem not_pair_squeeze (hsep : p sep = false) (xs : List α) :
    ¬ [sep, sep] <:+: squeeze p sep xs := by
  have hloop : ∀ (xs out : List α), ¬ [sep, sep] <:+: out →
      ¬ [sep, sep] <:+: xs.foldl (squeezeStep p sep) out := by
    intro xs
    induction xs with
    | nil => exact fun out hout => hout
    | cons x xs ih =>
      intro out hout
      rw [List.foldl_cons]
      refine ih _ ?_
      unfold squeezeStep
      by_cases hx : p x = true
      · rw [if_pos hx]
        intro hpair
        rcases pair_infix_concat hpair with h | ⟨-, rfl⟩
        · exact hout h
        · rw [hsep] at hx
          cases hx
      · rw [if_neg hx]
        by_cases hend : out.getLast? = some sep
        · rwa [if_pos hend]
        · rw [if_neg hend]
          intro hpair
          rcases pair_infix_concat hpair with h | ⟨h, -⟩
          · exact hout h
          · exact hend h
  refine hloop xs [] fun h => ?_
  exact absurd (List.infix_nil.mp h) (List.cons_ne_nil _ _)

/-- **Squeezing twice is squeezing once**: a list that could have been squeezed stays. -/
theorem squeeze_eq_self (hsep : p sep = false) {xs : List α} (hall : ∀ x ∈ xs, p x = true ∨ x = sep)
    (hpair : ¬ [sep, sep] <:+: xs) : squeeze p sep xs = xs := by
  have hloop : ∀ (xs out : List α), (∀ x ∈ xs, p x = true ∨ x = sep) →
      ¬ [sep, sep] <:+: out ++ xs → xs.foldl (squeezeStep p sep) out = out ++ xs := by
    intro xs
    induction xs with
    | nil => exact fun out _ _ => (List.append_nil out).symm
    | cons x xs ih =>
      intro out hall hpair
      obtain ⟨hx, hall⟩ := List.forall_mem_cons.mp hall
      have hstep : squeezeStep p sep out x = out ++ [x] := by
        unfold squeezeStep
        rcases hx with hx | rfl
        · rw [if_pos hx]
        · rw [hsep, if_neg Bool.false_ne_true, if_neg]
          intro hend
          obtain ⟨init, hinit⟩ := List.getLast?_eq_some_iff.mp hend
          exact hpair ⟨init, xs, by rw [hinit]; simp⟩
      rw [List.foldl_cons, hstep, ih _ hall (by rwa [List.append_assoc]), List.append_assoc]
      rfl
  exact hloop xs [] hall hpair

/-- What is trimmed is a part of the text without a separator at its end. -/
theorem infix_of_trimMatches (sep : α) (xs : List α) :
    trimMatches sep xs <:+: xs ∧ (trimMatches sep xs).getLast? ≠ some sep := by
  unfold trimMatches
  constructor
  · have hend : ((xs.dropWhile (· == sep)).reverse.dropWhile (· == sep)).reverse <+:
        xs.dropWhile (· == sep) := by
      have h := List.dropWhile_suffix (l := (xs.dropWhile (· == sep)).reverse) (· == sep)
      rwa [← List.reverse_prefix, List.reverse_reverse] at h
    exact hend.isInfix.trans (List.dropWhile_suffix _).isInfix
  · rw [List.getLast?_reverse]
    intro h
    have hnot := List.head?_dropWhile_not (· == sep) (xs.dropWhile (· == sep)).reverse
    rw [h] at hnot
    simp at hnot

/-- A text without separators at its ends is trimmed already. -/
theorem trimMatches_eq_self {xs : List α} (hne : xs ≠ []) (hhead : xs.head? ≠ some sep)
    (hlast : xs.getLast? ≠ some sep) : trimMatches sep xs = xs := by
  have hnone : ∀ x ∈ ([] : List α), x = sep := fun _ hx => absurd hx List.not_mem_nil
  have hpad := trimMatches_pad [] hnone hnone hhead hlast hne
  rwa [List.nil_append, List.append_nil] at hpad

end Squeeze

end PgSynapse
