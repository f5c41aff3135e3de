import Mathlib.Data.List.Infix
import Mathlib.Data.List.TakeWhile

/-!
# Slices at byte offsets

A text is a list of characters, and an offset counts the bytes of their UTF-8 encoding.  A slice
exists only between two offsets in order that stand at the start of a character or at the end.
`find` gives the offset of a pattern; `splitOnce` gives what stands before and after it, and the
lemmas turn slices at found offsets into these two parts.
-/

namespace PgSynapse

/-! ### Offsets and slices -/

/-- The length of a text in bytes. -/
def byteLen : List Char → Nat
  | [] => 0
  | c :: cs => c.utf8Size + byteLen cs

/-- The text from an offset on, `none` when it is out of range or inside a character. -/
def sliceFrom : List Char → Nat → Option (List Char)
  | s, 0 => some s
  | [], _ + 1 => none
  | c :: cs, n + 1 => if c.utf8Size ≤ n + 1 then sliceFrom cs (n + 1 - c.utf8Size) else none

/-- The text up to an offset, `none` when it is out of range or inside a character. -/
def sliceTo : List Char → Nat → Option (List Char)
  | _, 0 => some []
  | [], _ + 1 => none
  | c :: cs, n + 1 =>
    if c.utf8Size ≤ n + 1 then (sliceTo cs (n + 1 - c.utf8Size)).map (c :: ·) else none

/-- The text between two offsets, `none` when they are out of order as well. -/
def slice (s : List Char) (i j : Nat) : Option (List Char) :=
  if i ≤ j then (sliceTo s j).bind fun t => sliceFrom t i else none

/-! ### Patterns -/

/-- What stands before and after the first place of a pattern. -/
def splitOnce (pat : List Char) : List Char → Option (List Char × List Char)
  | [] => if pat = [] then some ([], []) else none
  | c :: cs =>
    if pat <+: c :: cs then some ([], (c :: cs).drop pat.length)
    else (splitOnce pat cs).map fun p => (c :: p.1, p.2)

/-- What stands before and after the last place of a pattern. -/
def rsplitOnce (pat : List Char) : List Char → Option (List Char × List Char)
  | [] => if pat = [] then some ([], []) else none
  | c :: cs =>
    match rsplitOnce pat cs with
    | some p => some (c :: p.1, p.2)
    | none => if pat <+: c :: cs then some ([], (c :: cs).drop pat.length) else none

/-- The offset of the first place of a pattern. -/
def find (s pat : List Char) : Option Nat := (splitOnce pat s).map fun p => byteLen p.1

/-- The offset of the last place of a pattern. -/
def rfind (s pat : List Char) : Option Nat := (rsplitOnce pat s).map fun p => byteLen p.1

/-- What stands before the first character of a kind, and the text from there on. -/
def splitAtFirst (p : Char → Bool) (s : List Char) : Option (List Char × List Char) :=
  if s.any p then some (s.takeWhile fun c => !p c, s.dropWhile fun c => !p c) else none

/-- The offset of the first character of a kind. -/
def findChar (s : List Char) (p : Char → Bool) : Option Nat :=
  (splitAtFirst p s).map fun q => byteLen q.1

/-! ### Lengths -/

@[simp] theorem byteLen_nil : byteLen [] = 0 := rfl

@[simp] theorem byteLen_cons (c : Char) (cs : List Char) :
    byteLen (c :: cs) = c.utf8Size + byteLen cs := rfl

theorem byteLen_append (s t : List Char) : byteLen (s ++ t) = byteLen s + byteLen t := by
  induction s with
  | nil => simp
  | cons c s ih => simp [ih, Nat.add_assoc]

theorem byteLen_pos {s : List Char} (h : s ≠ []) : 0 < byteLen s := by
  cases s with
  | nil => exact absurd rfl h
  | cons c s =>
    have hc := c.utf8Size_pos
    simp only [byteLen_cons]
    omega

/-- Every character takes a byte or more. -/
theorem length_le_byteLen (s : List Char) : s.length ≤ byteLen s := by
  induction s with
  | nil => exact le_refl 0
  | cons c s ih =>
    have hc := c.utf8Size_pos
    simp only [List.length_cons, byteLen_cons]
    omega

/-! ### Slices at the ends of parts -/

/-- A slice from an offset is the end of the text. -/
theorem suffix_of_sliceFrom {s t : List Char} {n : Nat} (h : sliceFrom s n = some t) : t <:+ s := by
  induction s generalizing n with
  | nil =>
    cases n with
    | zero => exact (Option.some.inj h) ▸ List.suffix_rfl
    | succ n => cases h
  | cons c s ih =>
    cases n with
    | zero => exact (Option.some.inj h) ▸ List.suffix_rfl
    | succ n =>
      rw [sliceFrom] at h
      split at h
      · exact (ih h).trans (List.suffix_cons c s)
      · cases h

/-- A slice up to an offset is the beginning of the text. -/
theorem prefix_of_sliceTo {s t : List Char} {n : Nat} (h : sliceTo s n = some t) : t <+: s := by
  induction s generalizing n t with
  | nil =>
    cases n with
    | zero => exact (Option.some.inj h) ▸ List.nil_prefix
    | succ n => cases h
  | cons c s ih =>
    cases n with
    | zero => exact (Option.some.inj h) ▸ List.nil_prefix
    | succ n =>
      rw [sliceTo] at h
      split at h
      · obtain ⟨t', ht', rfl⟩ := Option.map_eq_some_iff.mp h
        exact List.cons_prefix_cons.mpr ⟨rfl, ih ht'⟩
      · cases h

section Slices

variable (s t : List Char)

@[simp] theorem sliceFrom_zero : sliceFrom s 0 = some s := by
  cases s <;> rfl

@[simp] theorem sliceTo_zero : sliceTo s 0 = some [] := by
  cases s <;> rfl

theorem sliceFrom_append : sliceFrom (s ++ t) (byteLen s) = some t := by
  induction s with
  | nil => simp
  | cons c s ih =>
    obtain ⟨n, hn⟩ : ∃ n, c.utf8Size + byteLen s = n + 1 :=
      ⟨c.utf8Size + byteLen s - 1, by have := c.utf8Size_pos; omega⟩
    rw [byteLen_cons, hn, List.cons_append, sliceFrom, ← hn, if_pos (Nat.le_add_right _ _),
      Nat.add_sub_cancel_left, ih]

theorem sliceTo_append : sliceTo (s ++ t) (byteLen s) = some s := by
  induction s with
  | nil => simp
  | cons c s ih =>
    obtain ⟨n, hn⟩ : ∃ n, c.utf8Size + byteLen s = n + 1 :=
      ⟨c.utf8Size + byteLen s - 1, by have := c.utf8Size_pos; omega⟩
    rw [byteLen_cons, hn, List.cons_append, sliceTo, ← hn, if_pos (Nat.le_add_right _ _),
      Nat.add_sub_cancel_left, ih, Option.map_some]

/-- The text up to its end. -/
theorem sliceTo_byteLen : sliceTo s (byteLen s) = some s := by
  simpa using sliceTo_append s []

/-- The text from its end on. -/
theorem sliceFrom_byteLen : sliceFrom s (byteLen s) = some [] := by
  simpa using sliceFrom_append s []

variable {s}

/-- **Out of range**: there is no slice from an offset beyond the end. -/
theorem sliceFrom_of_lt {n : Nat} (h : byteLen s < n) : sliceFrom s n = none := by
  induction s generalizing n with
  | nil =>
    obtain ⟨n, rfl⟩ := Nat.exists_eq_succ_of_ne_zero (Nat.ne_of_gt h)
    rfl
  | cons c s ih =>
    rw [byteLen_cons] at h
    obtain ⟨n, rfl⟩ := Nat.exists_eq_succ_of_ne_zero (Nat.ne_of_gt (Nat.zero_lt_of_lt h))
    rw [sliceFrom, if_pos (by omega), ih (by omega)]

end Slices

/-! ### Slices at patterns -/

section Patterns

variable {s pat a b : List Char}

/-- The parts a text is split into. -/
theorem splitOnce_eq (h : splitOnce pat s = some (a, b)) : s = a ++ (pat ++ b) := by
  induction s generalizing a b with
  | nil =>
    rw [splitOnce] at h
    split at h
    · rename_i hpat
      obtain ⟨rfl, rfl⟩ := Prod.mk.inj (Option.some.inj h)
      rw [hpat]
      rfl
    · cases h
  | cons c s ih =>
    rw [splitOnce] at h
    split at h
    · rename_i hpre
      obtain ⟨rfl, rfl⟩ := Prod.mk.inj (Option.some.inj h)
      obtain ⟨rest, hrest⟩ := hpre
      rw [← hrest, List.drop_left, List.nil_append]
    · obtain ⟨⟨a', b'⟩, hsplit, heq⟩ := Option.map_eq_some_iff.mp h
      obtain ⟨rfl, rfl⟩ := Prod.mk.inj heq
      rw [ih hsplit, List.cons_append]

theorem rsplitOnce_eq (h : rsplitOnce pat s = some (a, b)) : s = a ++ (pat ++ b) := by
  induction s generalizing a b with
  | nil =>
    rw [rsplitOnce] at h
    split at h
    · rename_i hpat
      obtain ⟨rfl, rfl⟩ := Prod.mk.inj (Option.some.inj h)
      rw [hpat]
      rfl
    · cases h
  | cons c s ih =>
    rw [rsplitOnce] at h
    split at h
    · rename_i p hsplit
      obtain ⟨rfl, rfl⟩ := Prod.mk.inj (Option.some.inj h)
      rw [ih hsplit, List.cons_append]
    · split at h
      · rename_i hpre
        obtain ⟨rfl, rfl⟩ := Prod.mk.inj (Option.some.inj h)
        obtain ⟨rest, hrest⟩ := hpre
        rw [← hrest, List.drop_left, List.nil_append]
      · cases h

/-- A character is not before its first place. -/
theorem not_mem_of_splitOnce {c : Char} (h : splitOnce [c] s = some (a, b)) : c ∉ a := by
  induction s generalizing a b with
  | nil => cases h
  | cons d s ih =>
    rw [splitOnce] at h
    split at h
    · obtain ⟨rfl, -⟩ := Prod.mk.inj (Option.some.inj h)
      exact List.not_mem_nil
    · rename_i hpre
      obtain ⟨⟨a', b'⟩, hsplit, heq⟩ := Option.map_eq_some_iff.mp h
      obtain ⟨rfl, rfl⟩ := Prod.mk.inj heq
      rw [List.mem_cons, not_or]
      refine ⟨fun hcd => hpre ?_, ih hsplit⟩
      rw [hcd]
      exact ⟨s, rfl⟩

/-- The part after a pattern is shorter than the text. -/
theorem splitOnce_length (hpat : pat ≠ []) (h : splitOnce pat s = some (a, b)) :
    b.length < s.length := by
  have hpos := List.length_pos_iff.mpr hpat
  rw [splitOnce_eq h, List.length_append, List.length_append]
  omega

theorem find_of_splitOnce (h : splitOnce pat s = some (a, b)) : find s pat = some (byteLen a) := by
  rw [find, h, Option.map_some]

theorem find_eq_none (h : splitOnce pat s = none) : find s pat = none := by
  rw [find, h, Option.map_none]

/-- The slice up to a pattern. -/
theorem sliceTo_before (h : splitOnce pat s = some (a, b)) : sliceTo s (byteLen a) = some a := by
  rw [splitOnce_eq h, sliceTo_append]

/-- The slice from a pattern on. -/
theorem sliceFrom_at (h : splitOnce pat s = some (a, b)) :
    sliceFrom s (byteLen a) = some (pat ++ b) := by
  rw [splitOnce_eq h, sliceFrom_append]

/-- The slice after a pattern. -/
theorem sliceFrom_after (h : splitOnce pat s = some (a, b)) :
    sliceFrom s (byteLen a + byteLen pat) = some b := by
  rw [splitOnce_eq h, ← byteLen_append, ← List.append_assoc, sliceFrom_append]

/-- The slice after a pattern the text starts with. -/
theorem sliceFrom_of_prefix (h : pat <+: s) :
    sliceFrom s (byteLen pat) = some (s.drop pat.length) := by
  obtain ⟨rest, rfl⟩ := h
  rw [sliceFrom_append, List.drop_left]

/-- The offset of the first character of a kind, or of the end. -/
theorem findChar_getD (s : List Char) (p : Char → Bool) :
    (findChar s p).getD (byteLen s) = byteLen (s.takeWhile fun c => !p c) := by
  rw [findChar, splitAtFirst]
  split
  · rfl
  · rename_i hany
    have hall : (s.takeWhile fun c => !p c) = s := by
      rw [List.takeWhile_eq_self_iff]
      intro c hc
      by_contra hp
      exact hany (List.any_eq_true.mpr ⟨c, hc, by simpa using hp⟩)
    rw [hall]
    rfl

/-- The slice up to a character of a kind. -/
theorem sliceTo_takeWhile (s : List Char) (p : Char → Bool) :
    sliceTo s (byteLen (s.takeWhile p)) = some (s.takeWhile p) := by
  have h := sliceTo_append (s.takeWhile p) (s.dropWhile p)
  rwa [List.takeWhile_append_dropWhile] at h

/-- The slice from a character of a kind on. -/
theorem sliceFrom_takeWhile (s : List Char) (p : Char → Bool) :
    sliceFrom s (byteLen (s.takeWhile p)) = some (s.dropWhile p) := by
  have h := sliceFrom_append (s.takeWhile p) (s.dropWhile p)
  rwa [List.takeWhile_append_dropWhile] at h

/-- A pattern found ends within the text. -/
theorem byteLen_pattern_le (h : splitOnce pat s = some (a, b)) :
    byteLen a + byteLen pat ≤ byteLen s := by
  rw [splitOnce_eq h, byteLen_append, byteLen_append]
  omega

/-- The slice between the end of a prefix and a pattern found after it. -/
theorem slice_between {m : List Char} (h : splitOnce pat s = some (a ++ m, b)) :
    slice s (byteLen a) (byteLen (a ++ m)) = some m := by
  have hle : byteLen a ≤ byteLen (a ++ m) := by
    rw [byteLen_append]
    omega
  rw [slice, if_pos hle, sliceTo_before h, Option.bind_some, sliceFrom_append]

/-- The slice up to the last place of a pattern. -/
theorem sliceTo_before_last (h : rsplitOnce pat s = some (a, b)) :
    sliceTo s (byteLen a) = some a := by
  rw [rsplitOnce_eq h, sliceTo_append]

theorem rfind_of_rsplitOnce (h : rsplitOnce pat s = some (a, b)) :
    rfind s pat = some (byteLen a) := by
  rw [rfind, h, Option.map_some]

theorem rfind_eq_none (h : rsplitOnce pat s = none) : rfind s pat = none := by
  rw [rfind, h, Option.map_none]

/-- The last place of a pattern in a text that starts with something else. -/
theorem rsplitOnce_append {t : List Char} (h : rsplitOnce pat t = some (a, b)) (s : List Char) :
    rsplitOnce pat (s ++ t) = some (s ++ a, b) := by
  induction s with
  | nil => exact h
  | cons c s ih => rw [List.cons_append, rsplitOnce, ih, List.cons_append]

/-- A character that is not after another one is found before it or not at all. -/
theorem byteLen_le_of_rsplitOnce {c d : Char} {t : List Char} (hcd : c ≠ d)
    (ht : rsplitOnce [c] t = none) (h : rsplitOnce [c] (s ++ d :: t) = some (a, b)) :
    byteLen a ≤ byteLen s := by
  have hd : rsplitOnce [c] (d :: t) = none := by
    rw [rsplitOnce, ht]
    simp only [ite_eq_right_iff, reduceCtorEq, imp_false]
    rintro ⟨rest, hrest⟩
    exact hcd (List.cons.inj hrest).1
  induction s generalizing a b with
  | nil => cases hd.symm.trans h
  | cons e s ih =>
    rw [List.cons_append, rsplitOnce] at h
    split at h
    · rename_i p hsplit
      obtain ⟨rfl, rfl⟩ := Prod.mk.inj (Option.some.inj h)
      have hle := ih hsplit
      rw [byteLen_cons, byteLen_cons]
      omega
    · split at h
      · obtain ⟨rfl, -⟩ := Prod.mk.inj (Option.some.inj h)
        rw [byteLen_nil]
        omega
      · cases h

/-- **Found**: a text contains the pattern it can be split at. -/
theorem splitOnce_isSome_iff : (splitOnce pat s).isSome ↔ pat <:+: s := by
  constructor
  · intro h
    obtain ⟨⟨a, b⟩, hsplit⟩ := Option.isSome_iff_exists.mp h
    exact ⟨a, b, by rw [splitOnce_eq hsplit, List.append_assoc]⟩
  · intro h
    induction s with
    | nil =>
      rw [splitOnce, if_pos (List.infix_nil.mp h)]
      rfl
    | cons c s ih =>
      rw [splitOnce]
      split
      · rfl
      · rename_i hpre
        rw [Option.isSome_map]
        exact ih ((List.infix_cons_iff.mp h).resolve_left hpre)

/-- **Not found**: a text that cannot be split at a pattern does not contain it. -/
theorem splitOnce_eq_none_iff : splitOnce pat s = none ↔ ¬ pat <:+: s := by
  rw [← splitOnce_isSome_iff, Bool.not_eq_true, Option.isSome_eq_false_iff,
    Option.isNone_iff_eq_none]

/-- A pattern does not start in a text without its first character. -/
theorem infix_of_infix_append {c : Char} {p : List Char} (ha : c ∉ a) (h : c :: p <:+: a ++ b) :
    c :: p <:+: b := by
  induction a with
  | nil => exact h
  | cons d a ih =>
    rw [List.mem_cons, not_or] at ha
    rcases List.infix_cons_iff.mp h with hpre | hrest
    · exact absurd (List.cons_prefix_cons.mp hpre).1 ha.1
    · exact ih ha.2 hrest

/-- A pattern does not go on into a text whose first character it has at most as its own first. -/
theorem infix_or_infix {x : Char} (hx : x ∉ pat.tail) (h : pat <:+: a ++ x :: b) :
    pat <:+: a ∨ pat <:+: x :: b := by
  induction a with
  | nil => exact .inr h
  | cons y a ih =>
    rcases List.infix_cons_iff.mp h with hpre | hrest
    · rcases List.prefix_or_prefix_of_prefix hpre (List.prefix_append (y :: a) (x :: b)) with
        hleft | ⟨w, rfl⟩
      · exact .inl hleft.isInfix
      · have hpre : (y :: a) ++ w <+: (y :: a) ++ (x :: b) := hpre
        rw [List.prefix_append_right_inj] at hpre
        cases w with
        | nil => exact .inl (by rw [List.append_nil])
        | cons z w =>
          obtain ⟨rfl, -⟩ := List.cons_prefix_cons.mp hpre
          exact absurd (List.mem_append_right a List.mem_cons_self) hx
    · exact (ih hrest).imp_left fun h => List.infix_cons h

/-- No place of the pattern starts in a text, whatever follows it. -/
def Clear (pat s : List Char) : Prop := ∀ t, pat <:+: s ++ t → pat <:+: t

theorem Clear.append (ha : Clear pat a) (hb : Clear pat b) : Clear pat (a ++ b) := fun t h => by
  rw [List.append_assoc] at h
  exact hb t (ha _ h)

theorem Clear.flatMap {β : Type} {f : β → List Char} {xs : List β}
    (h : ∀ x ∈ xs, Clear pat (f x)) : Clear pat (xs.flatMap f) := by
  induction xs with
  | nil => exact fun _ => id
  | cons x xs ih =>
    obtain ⟨hx, hxs⟩ := List.forall_mem_cons.mp h
    rw [List.flatMap_cons]
    exact hx.append (ih hxs)

/-- A text without the first character of the pattern is clear of it. -/
theorem clear_of_not_mem {c : Char} {p : List Char} (ha : c ∉ a) : Clear (c :: p) a :=
  fun _ => infix_of_infix_append ha

/-- The pattern is not in a text that is clear of it. -/
theorem Clear.not_infix (hpat : pat ≠ []) (hs : Clear pat s) : ¬ pat <:+: s := fun h => by
  rw [← List.append_nil s] at h
  exact hpat (List.infix_nil.mp (hs [] h))

/-- The first character of a delimiter stands nowhere else in it, so it does not overlap itself. -/
def IsDelimiter : List Char → Prop
  | [] => False
  | c :: p => c ∉ p

instance : DecidablePred IsDelimiter
  | [] => inferInstanceAs (Decidable False)
  | c :: p => inferInstanceAs (Decidable (c ∉ p))

/-- **The first place of a delimiter** after a text without it. -/
theorem splitOnce_append (hpat : IsDelimiter pat) (hs : ¬ pat <:+: s) (t : List Char) :
    splitOnce pat (s ++ (pat ++ t)) = some (s, t) := by
  obtain ⟨c, p, rfl⟩ : ∃ c p, pat = c :: p := by
    cases pat with
    | nil => exact hpat.elim
    | cons c p => exact ⟨c, p, rfl⟩
  have hc : c ∉ p := hpat
  induction s with
  | nil =>
    rw [List.nil_append, List.cons_append, splitOnce,
      if_pos (List.cons_prefix_cons.mpr ⟨rfl, List.prefix_append p t⟩), ← List.cons_append,
      List.drop_left]
  | cons d s ih =>
    have hs' : ¬ c :: p <:+: s := fun h => hs (List.infix_cons_iff.mpr (.inr h))
    have hpre : ¬ c :: p <+: (d :: s) ++ (c :: p ++ t) := by
      intro hpre
      rcases List.prefix_or_prefix_of_prefix hpre (List.prefix_append (d :: s) _) with
        h | ⟨w, hw⟩
      · exact hs h.isInfix
      · -- the delimiter starts within the text, so its first character stands in it twice
        rw [← hw, List.prefix_append_right_inj] at hpre
        cases w with
        | nil => exact hs (by rw [← hw, List.append_nil])
        | cons x w =>
          obtain ⟨rest, hrest⟩ := hpre
          obtain ⟨rfl, hp⟩ := List.cons.inj hw
          obtain ⟨rfl, -⟩ := List.cons.inj hrest
          exact hc (by simp [← hp])
    rw [List.cons_append] at hpre ⊢
    rw [splitOnce, if_neg hpre, ih hs', Option.map_some]

/-- A text in which no place of the pattern starts is passed over. -/
theorem splitOnce_skip {r : List Char} (h : ∀ b, b ≠ [] → b <:+ s → ¬ pat <+: b ++ r) :
    splitOnce pat (s ++ r) = (splitOnce pat r).map fun p => (s ++ p.1, p.2) := by
  induction s with
  | nil => exact (Option.map_id' (x := splitOnce pat r)).symm
  | cons d s ih =>
    have hfirst := h (d :: s) (List.cons_ne_nil _ _) (List.suffix_refl _)
    have hrest := ih fun b hne hb => h b hne (hb.trans (List.suffix_cons d s))
    rw [List.cons_append] at hfirst ⊢
    rw [splitOnce, if_neg hfirst, hrest, Option.map_map]
    rfl

/-- A pattern at the start of a text. -/
theorem splitOnce_self (hpat : pat ≠ []) (t : List Char) :
    splitOnce pat (pat ++ t) = some ([], t) := by
  obtain ⟨c, p, rfl⟩ := List.exists_cons_of_ne_nil hpat
  rw [List.cons_append, splitOnce, ← List.cons_append, if_pos (List.prefix_append _ t),
    List.drop_left]

/-- The first place of a pattern, after a character that is not one of it. -/
theorem splitOnce_append_cons {x : Char} (hpat : pat ≠ []) (hx : x ∉ pat)
    (hs : ¬ pat <:+: s ++ [x]) (t : List Char) :
    splitOnce pat (s ++ [x] ++ (pat ++ t)) = some (s ++ [x], t) := by
  rw [splitOnce_skip, splitOnce_self hpat, Option.map_some, List.append_nil]
  intro b hne hb hpre
  rcases List.prefix_or_prefix_of_prefix hpre (List.prefix_append b (pat ++ t)) with h | h
  · exact hs (h.isInfix.trans hb.isInfix)
  · have hlast : b.getLast hne = x := by
      rw [hb.getLast hne, List.getLast_concat]
    exact hx (h.subset (hlast ▸ List.getLast_mem hne))

/-- The first place of a character. -/
theorem splitOnce_singleton {c : Char} (hc : c ∉ s) (t : List Char) :
    splitOnce [c] (s ++ c :: t) = some (s, t) := by
  have hdelimiter : IsDelimiter [c] := List.not_mem_nil
  exact splitOnce_append hdelimiter (fun h => hc (h.subset (List.mem_singleton_self c))) t

end Patterns

end PgSynapse
