import Mathlib.Data.List.Basic
import Mathlib.Data.List.Induction
import Mathlib.Data.Nat.Notation

/-!
# Decimal numerals

A text of digits is the numeral of the number it stands for just if it has no zero in front of
another digit (`toDigits_ofDigitChars_iff`).
-/

namespace PgSynapse

/-- The value of a digit. -/
theorem digitChar_of_isDigit {c : Char} (h : c.isDigit = true) :
    c.toNat - 48 < 10 ∧ (c.toNat - 48).digitChar = c := by
  have hrange : 48 ≤ c.toNat ∧ c.toNat ≤ 57 := Char.isDigit_iff_toNat.mp h
  refine ⟨by omega, ?_⟩
  have hall : ∀ n < 58, 48 ≤ n → (n - 48).digitChar = Char.ofNat n := by decide
  rw [hall c.toNat (by omega) hrange.1, Char.ofNat_toNat]

/-- A numeral starts with a zero only if it is one. -/
theorem head_toDigits {n : Nat} (hn : n ≠ 0) : (Nat.toDigits 10 n).head? ≠ some '0' := by
  induction n using Nat.strongRecOn with
  | ind n ih =>
    by_cases hlt : n < 10
    · have hall : ∀ m < 10, m ≠ 0 → some m.digitChar ≠ some '0' := by decide
      rw [Nat.toDigits_of_lt_base hlt]
      exact hall n hlt hn
    · have hdiv : n / 10 ≠ 0 := by omega
      rw [Nat.toDigits_of_base_le (by decide) (by omega),
        List.head?_append_of_ne_nil _ Nat.toDigits_ne_nil]
      exact ih (n / 10) (by omega) hdiv

/-- One more digit behind a numeral. -/
theorem toDigits_concat {n : Nat} (hn : 0 < n) {c : Char} (hc : c.isDigit = true) :
    Nat.toDigits 10 (10 * n + (c.toNat - 48)) = Nat.toDigits 10 n ++ [c] := by
  obtain ⟨hlt, hchar⟩ := digitChar_of_isDigit hc
  rw [← Nat.toDigits_append_toDigits (by decide) hn hlt, Nat.toDigits_of_lt_base hlt, hchar]

/-- A text of digits without zeros in front is the numeral of its number. -/
theorem toDigits_ofDigitChars {cs : List Char} (hall : ∀ c ∈ cs, c.isDigit = true) (hne : cs ≠ [])
    (hzero : cs = ['0'] ∨ cs.head? ≠ some '0') :
    Nat.toDigits 10 (Nat.ofDigitChars 10 cs 0) = cs := by
  induction cs using List.reverseRecOn with
  | nil => exact absurd rfl hne
  | append_singleton cs d ih =>
    have hd : d.isDigit = true := hall d (List.mem_append_right _ (List.mem_singleton.mpr rfl))
    have hvalue : Nat.ofDigitChars 10 (cs ++ [d]) 0 =
        10 * Nat.ofDigitChars 10 cs 0 + (d.toNat - 48) := by
      rw [Nat.ofDigitChars_append, Nat.ofDigitChars_cons, Nat.ofDigitChars_nil]
      rfl
    rw [hvalue]
    by_cases hcs : cs = []
    · obtain ⟨hlt, hchar⟩ := digitChar_of_isDigit hd
      rw [hcs, Nat.ofDigitChars_nil, Nat.mul_zero, Nat.zero_add, Nat.toDigits_of_lt_base hlt, hchar]
      rfl
    · have hhead : cs.head? ≠ some '0' := by
        rcases hzero with hone | hhead
        · have hlen := congrArg List.length hone
          rw [List.length_append] at hlen
          exact absurd (List.length_eq_zero_iff.mp (Nat.succ.inj hlen)) hcs
        · rwa [List.head?_append_of_ne_nil _ hcs] at hhead
      have hcs' := ih (fun c hc => hall c (List.mem_append_left _ hc)) hcs (.inr hhead)
      have hpos : 0 < Nat.ofDigitChars 10 cs 0 := by
        rw [Nat.pos_iff_ne_zero]
        intro hnil
        rw [hnil, Nat.toDigits_zero] at hcs'
        exact hhead (by rw [← hcs']; rfl)
      rw [toDigits_concat hpos hd, hcs']

/-- **A text of digits is a numeral** just if it is zero or does not start with one. -/
theorem toDigits_ofDigitChars_iff {cs : List Char} (hall : ∀ c ∈ cs, c.isDigit = true)
    (hne : cs ≠ []) :
    Nat.toDigits 10 (Nat.ofDigitChars 10 cs 0) = cs ↔ cs = ['0'] ∨ cs.head? ≠ some '0' := by
  refine ⟨fun h => ?_, toDigits_ofDigitChars hall hne⟩
  by_cases hzero : Nat.ofDigitChars 10 cs 0 = 0
  · rw [hzero, Nat.toDigits_zero] at h
    exact .inl h.symm
  · have hhead := head_toDigits hzero
    rw [h] at hhead
    exact .inr hhead

end PgSynapse
