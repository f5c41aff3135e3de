import PgSynapse.Pgrx.Equiv.AuditCapability
import PgSynapse.Pgrx.UuidIn

/-!
# An id is read back from its text
-/

namespace PgSynapse

namespace Uuid

theorem digitChar_ne_hyphen (n : Nat) : (n % 16).digitChar ≠ '-' := by
  have hall : ∀ d < 16, d.digitChar ≠ '-' := by decide
  exact hall _ (Nat.mod_lt n (by decide))

/-- One byte: the number is read down to its digit `k`. -/
theorem readBytes_byte (n k left : Nat) (cs : List Char) :
    readBytes (left + 1) ((n / 16 ^ (k + 1) % 16).digitChar :: (n / 16 ^ k % 16).digitChar :: cs)
      (n / 16 ^ (k + 2)) =
    readBytes left (if cs.head? = some '-' ∧ left % 2 = 0 ∧ left ≠ 0 then cs.tail else cs)
      (n / 16 ^ k) := by
  have hhigh := toDigit16_digitChar (Nat.mod_lt (n / 16 ^ (k + 1)) (by decide : 0 < 16))
  have hlow := toDigit16_digitChar (Nat.mod_lt (n / 16 ^ k) (by decide : 0 < 16))
  have hk : n / 16 ^ (k + 1) = n / 16 ^ k / 16 := by
    rw [Nat.div_div_eq_div_mul, ← Nat.pow_succ]
  have hk₂ : n / 16 ^ (k + 2) = n / 16 ^ k / 256 := by
    rw [Nat.div_div_eq_div_mul, Nat.pow_add]
  have hacc : n / 16 ^ (k + 2) * 256 + (n / 16 ^ (k + 1) % 16 * 16 + n / 16 ^ k % 16) =
      n / 16 ^ k := by
    rw [hk, hk₂]
    omega
  rw [readBytes, hhigh, hlow]
  show readBytes left _ (n / 16 ^ (k + 2) * 256 + _) = _
  rw [hacc]

/-- **A printed id** is read back. -/
theorem read_text (u : Uuid) : read u.text = some u := by
  obtain ⟨v⟩ := u
  have hlt : v.toNat < 16 ^ 32 := v.isLt
  generalize hn : v.toNat = n at hlt
  let d (k : Nat) : Char := (n / 16 ^ k % 16).digitChar
  have htext : (text ⟨v⟩).toList =
      [d 31, d 30, d 29, d 28, d 27, d 26, d 25, d 24] ++ '-' :: [d 23, d 22, d 21, d 20] ++
        '-' :: [d 19, d 18, d 17, d 16] ++ '-' :: [d 15, d 14, d 13, d 12] ++
        '-' :: [d 11, d 10, d 9, d 8, d 7, d 6, d 5, d 4, d 3, d 2, d 1, d 0] := by
    unfold text
    rw [String.toList_ofList, hn]
    rfl
  have hbyte := fun k left cs => readBytes_byte n k left cs
  have hdigit : ∀ (k left : Nat) (cs : List Char),
      (if (d k :: cs).head? = some '-' ∧ left % 2 = 0 ∧ left ≠ 0 then (d k :: cs).tail
        else d k :: cs) = d k :: cs := fun k left cs =>
    if_neg fun h => digitChar_ne_hyphen _ (Option.some.inj h.1)
  have hhyphen : ∀ (left : Nat) (cs : List Char), left % 2 = 0 ∧ left ≠ 0 →
      (if ('-' :: cs).head? = some '-' ∧ left % 2 = 0 ∧ left ≠ 0 then ('-' :: cs).tail
        else '-' :: cs) = cs := fun left cs h => if_pos ⟨rfl, h⟩
  have hread : readBytes 16 (text ⟨v⟩).toList (n / 16 ^ 32) = some (n, []) := by
    rw [htext]
    simp only [List.cons_append, List.nil_append]
    rw [hbyte 30, hdigit, hbyte 28, hdigit, hbyte 26, hdigit, hbyte 24, hhyphen _ _ (by decide),
      hbyte 22, hdigit, hbyte 20, hhyphen _ _ (by decide), hbyte 18, hdigit, hbyte 16,
      hhyphen _ _ (by decide), hbyte 14, hdigit, hbyte 12, hhyphen _ _ (by decide), hbyte 10,
      hdigit, hbyte 8, hdigit, hbyte 6, hdigit, hbyte 4, hdigit, hbyte 2, hdigit, hbyte 0]
    simp [readBytes]
  have hbraces : (text ⟨v⟩).toList.head? ≠ some '\x7b' := by
    have hall : ∀ m < 16, some m.digitChar ≠ some '\x7b' := by decide
    rw [htext]
    exact hall _ (Nat.mod_lt _ (by decide))
  rw [Nat.div_eq_of_lt hlt] at hread
  unfold read
  simp only [if_neg hbraces, hread]
  show some (Uuid.mk (BitVec.ofNat 128 n)) = _
  rw [← hn, BitVec.ofNat_toNat, BitVec.setWidth_eq]

theorem text_injective : Function.Injective text := by
  intro u v h
  have hread := read_text u
  rw [h, read_text v] at hread
  exact (Option.some.inj hread).symm

end Uuid

end PgSynapse
