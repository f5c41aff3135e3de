import PgSynapse.Serde.Value
import PgSynapse.Std.Text

/-!
# The characters of printed values

A number is printed with digits, signs, a point and an exponent.  No printed value starts or ends
with white space, so trimming takes nothing of it, and every one stands on one line.
-/

namespace PgSynapse.Value

/-! ### Numbers -/

/-- A character of a printed number. -/
def IsNumberChar (c : Char) : Prop := c.isDigit = true ∨ c ∈ ['-', '.', 'e']

instance : DecidablePred IsNumberChar := fun c =>
  inferInstanceAs (Decidable (c.isDigit = true ∨ c ∈ ['-', '.', 'e']))

theorem decimal_chars (n : Nat) : ∀ c ∈ decimal n, IsNumberChar c := fun _ hc =>
  .inl (Nat.isDigit_of_mem_toDigits (by decide) (by decide) hc)

theorem decimal_ne_nil (n : Nat) : decimal n ≠ [] :=
  List.length_pos_iff.mp Nat.length_toDigits_pos

/-- The exponent is a number of its own. -/
theorem intRepr_chars (i : Int) : ∀ c ∈ (toString i).toList, IsNumberChar c := by
  have hnat : ∀ n : Nat, ∀ c ∈ n.repr.toList, IsNumberChar c := by
    intro n
    rw [Nat.repr_eq_ofList_toDigits, String.toList_ofList]
    exact decimal_chars n
  cases i with
  | ofNat n => exact hnat n
  | negSucc n =>
    have hneg : (toString (Int.negSucc n)).toList = '-' :: (n + 1).repr.toList := by
      change ("-" ++ (n + 1).repr).toList = _
      rw [String.toList_append]
      rfl
    rw [hneg]
    exact List.forall_mem_cons.mpr ⟨.inr (by decide), hnat (n + 1)⟩

theorem printFloat_chars (f : F64) : ∀ c ∈ printFloat f, IsNumberChar c := by
  have hminus : IsNumberChar '-' := by decide
  have hpoint : IsNumberChar '.' := by decide
  have hexp : IsNumberChar 'e' := by decide
  have hzeros : ∀ n, ∀ c ∈ List.replicate n '0', IsNumberChar c := fun n c hc => by
    rw [List.eq_of_mem_replicate hc]
    decide
  have hds := decimal_chars f.digits
  have htake : ∀ n, ∀ c ∈ (decimal f.digits).take n, IsNumberChar c := fun n c hc =>
    hds c (List.mem_of_mem_take hc)
  have hdrop : ∀ n, ∀ c ∈ (decimal f.digits).drop n, IsNumberChar c := fun n c hc =>
    hds c (List.mem_of_mem_drop hc)
  -- the digits without the sign
  have hbody : ∀ body : List Char, (∀ c ∈ body, IsNumberChar c) →
      ∀ c ∈ (if f.neg ∧ f.digits ≠ 0 then '-' :: body else body), IsNumberChar c := by
    intro body h
    split
    · exact List.forall_mem_cons.mpr ⟨hminus, h⟩
    · exact h
  refine hbody _ ?_
  split
  · exact Text.forall_mem_of_all (by decide)
  · split
    · exact List.forall_mem_append.mpr ⟨List.forall_mem_append.mpr ⟨hds, hzeros _⟩,
        Text.forall_mem_of_all (by decide)⟩
    · split
      · exact List.forall_mem_append.mpr ⟨htake _, List.forall_mem_cons.mpr ⟨hpoint, hdrop _⟩⟩
      · split
        · exact List.forall_mem_append.mpr
            ⟨List.forall_mem_append.mpr ⟨Text.forall_mem_of_all (by decide), hzeros _⟩, hds⟩
        · have he := intRepr_chars ((decimal f.digits).length + f.exp - 1)
          split
          · exact List.forall_mem_append.mpr ⟨hds, List.forall_mem_cons.mpr ⟨hexp, he⟩⟩
          · rw [List.append_assoc]
            exact List.forall_mem_append.mpr ⟨htake 1, List.forall_mem_cons.mpr ⟨hpoint,
              List.forall_mem_append.mpr ⟨hdrop 1, List.forall_mem_cons.mpr ⟨hexp, he⟩⟩⟩⟩

/-- **The characters of a number.** -/
theorem printNumber_chars (n : Number) : ∀ c ∈ printNumber n, IsNumberChar c := by
  cases n with
  | int i =>
    rw [printNumber]
    split
    · exact List.forall_mem_cons.mpr ⟨by decide, decimal_chars _⟩
    · exact decimal_chars _
  | float f => exact printFloat_chars f

theorem printNumber_ne_nil (n : Number) : printNumber n ≠ [] := by
  cases n with
  | int i =>
    rw [printNumber]
    split
    · exact List.cons_ne_nil _ _
    · exact decimal_ne_nil _
  | float f =>
    have hds := decimal_ne_nil f.digits
    simp only [printNumber, printFloat]
    split
    · exact List.cons_ne_nil _ _
    · split_ifs <;> simp [hds]

/-! ### Ends -/

theorem isNumberChar_not_white {c : Char} (h : IsNumberChar c) : Text.isWhitespace c = false := by
  rcases h with h | h
  · obtain ⟨hlow, hhigh⟩ := Char.isDigit_iff_toNat.mp h
    simp only [Text.isWhitespace]
    generalize c.toNat = n at hlow hhigh
    simp_all
    omega
  · exact Text.forall_mem_of_all (P := fun c => Text.isWhitespace c = false) (by decide) c h

/-- **A printed value** neither starts nor ends with white space. -/
theorem print_tight (v : Value) : Text.Tight v.print := by
  cases v with
  | null => exact Text.tight_of_forall (by decide) (Text.forall_mem_of_all (by decide))
  | bool b =>
    cases b <;> exact Text.tight_of_forall (by decide) (Text.forall_mem_of_all (by decide))
  | number n =>
    exact Text.tight_of_forall (printNumber_ne_nil n) fun c hc =>
      isNumberChar_not_white (printNumber_chars n c hc)
  | string s => exact Text.tight_between (by decide) (by decide) _
  | array items => exact Text.tight_between (by decide) (by decide) _
  | object fields => exact Text.tight_between (by decide) (by decide) _

/-! ### Lines -/

/-- Escapes have no line feed. -/
theorem not_mem_escapeChar (c : Char) : '\n' ∉ escapeChar c := by
  have hhex : ∀ n < 16, '\n' ≠ Nat.digitChar n := by decide
  rw [escapeChar]
  split_ifs with hquote hslash hnewline hreturn htab hback hfeed hcontrol
  all_goals try decide
  · have hfirst := hhex (c.toNat / 16) (by omega)
    have hsecond := hhex (c.toNat % 16) (by omega)
    simp [hfirst, hsecond]
  · simpa using Ne.symm hnewline

theorem not_mem_printString (s : String) : '\n' ∉ printString s := by
  simp [printString, not_mem_escapeChar]

mutual

/-- **A printed value** stands on one line. -/
theorem not_mem_print : ∀ v : Value, '\n' ∉ print v
  | .null => by decide
  | .bool true => by decide
  | .bool false => by decide
  | .number n => fun h => by
    have hchar : ¬ IsNumberChar '\n' := by decide
    exact hchar (printNumber_chars n _ h)
  | .string s => not_mem_printString s
  | .array items => by simp [print, not_mem_printItems items]
  | .object fields => by simp [print, not_mem_printFields fields]

theorem not_mem_printItems : ∀ items : List Value, '\n' ∉ printItems items
  | [] => by simp [printItems]
  | [v] => not_mem_print v
  | v :: w :: vs => by
    simp [printItems, not_mem_print v, not_mem_printItems (w :: vs)]

theorem not_mem_printFields : ∀ fields : List (String × Value), '\n' ∉ printFields fields
  | [] => by simp [printFields]
  | [(k, v)] => by simp [printFields, not_mem_printString k, not_mem_print v]
  | (k, v) :: kv :: kvs => by
    simp [printFields, not_mem_printString k, not_mem_print v, not_mem_printFields (kv :: kvs)]

end

end PgSynapse.Value
