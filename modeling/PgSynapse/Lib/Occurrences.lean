import Mathlib.Data.List.Infix

/-!
# Occurrences

The positions at which a pattern occurs in a list, and the pairs of them that lie apart.  A scan
from the left that goes on behind each match finds at least two matches just if there is such a
pair.
-/

namespace PgSynapse

variable {α : Type}

/-- The pattern occurs in `s` behind `i` elements. -/
def OccursAt (pat s : List α) (i : Nat) : Prop := ∃ pre post, s = pre ++ pat ++ post ∧ pre.length = i

/-- The pattern occurs at two positions, the second behind the first occurrence. -/
def OccursApart (pat s : List α) : Prop :=
  ∃ i j, i < j ∧ i + pat.length ≤ j ∧ OccursAt pat s i ∧ OccursAt pat s j

variable {pat s : List α}

theorem occursAt_zero : OccursAt pat s 0 ↔ pat <+: s := by
  constructor
  · rintro ⟨pre, post, rfl, hlen⟩
    rw [List.eq_nil_of_length_eq_zero hlen, List.nil_append]
    exact List.prefix_append pat post
  · rintro ⟨post, rfl⟩
    exact ⟨[], post, rfl, rfl⟩

theorem occursAt_succ {c : α} {i : Nat} : OccursAt pat (c :: s) (i + 1) ↔ OccursAt pat s i := by
  constructor
  · rintro ⟨pre, post, heq, hlen⟩
    obtain ⟨d, pre, rfl⟩ := List.exists_cons_of_length_eq_add_one hlen
    rw [List.cons_append, List.cons_append] at heq
    obtain ⟨-, rfl⟩ := List.cons.inj heq
    exact ⟨pre, post, rfl, Nat.succ.inj hlen⟩
  · rintro ⟨pre, post, rfl, rfl⟩
    exact ⟨c :: pre, post, rfl, rfl⟩

/-- A pattern that is not empty does not occur in the empty list. -/
theorem not_occursAt_nil (hpat : pat ≠ []) (i : Nat) : ¬ OccursAt pat [] i := by
  rintro ⟨pre, post, heq, -⟩
  have hall := List.append_eq_nil_iff.mp heq.symm
  exact hpat (List.append_eq_nil_iff.mp hall.1).2

/-- The empty pattern occurs before, between and after the elements. -/
theorem occursAt_empty {i : Nat} : OccursAt [] s i ↔ i ≤ s.length := by
  constructor
  · rintro ⟨pre, post, rfl, rfl⟩
    rw [List.length_append, List.length_append]
    omega
  · intro hi
    refine ⟨s.take i, s.drop i, ?_, List.length_take_of_le hi⟩
    rw [List.append_nil, List.take_append_drop]

/-- The text before an occurrence and the text after it. -/
theorem OccursAt.split {i : Nat} (h : OccursAt pat s i) :
    s = s.take i ++ pat ++ s.drop (i + pat.length) := by
  obtain ⟨pre, post, rfl, rfl⟩ := h
  rw [List.append_assoc, List.take_left, ← List.length_append, ← List.append_assoc, List.drop_left]

/-- One position at most, or two that lie apart, unless every further occurrence overlaps. -/
theorem OccursApart.two (h : OccursApart pat s) :
    ∃ i j, i ≠ j ∧ OccursAt pat s i ∧ OccursAt pat s j := by
  obtain ⟨i, j, hlt, -, hi, hj⟩ := h
  exact ⟨i, j, Nat.ne_of_lt hlt, hi, hj⟩

end PgSynapse
