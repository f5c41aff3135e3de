import Mathlib.Algebra.BigOperators.Group.List.Basic
import Mathlib.Algebra.GroupWithZero.Nat
import Mathlib.Data.List.Nodup
import PgSynapse.Lib.ByteSlices

/-!
# Texts joined at a separator

`[sep].intercalate parts` writes the parts one after the other with `sep` between them.  A weight
that counts separators adds up over the parts, and decides between two ways to split one text:
parts with the same weight at the same place are the same part (`part_eq`), and keyed parts that are
heavy enough for all keys, and no heavier in all, are as heavy as each key needs
(`perm_of_matched`).
-/

namespace PgSynapse

variable {α : Type} {sep : α}

/-- The first part, and then each part after a separator of any length. -/
theorem intercalate_eq (sep part : List α) (parts : List (List α)) :
    sep.intercalate (part :: parts) = part ++ parts.flatMap (sep ++ ·) := by
  induction parts generalizing part with
  | nil => simp
  | cons next parts ih =>
    rw [List.intercalate_cons_cons, ih, List.flatMap_cons, List.append_assoc, List.append_assoc]

/-- The first part, and then each part after its separator. -/
theorem intercalate_cons (part : List α) (parts : List (List α)) :
    [sep].intercalate (part :: parts) = part ++ parts.flatMap (sep :: ·) :=
  intercalate_eq [sep] part parts

/-- Parts that are clear of a pattern, and a separator that is. -/
theorem Clear.intercalate {pat : List Char} {sep : Char} {parts : List (List Char)}
    (hsep : Clear pat [sep]) (h : ∀ part ∈ parts, Clear pat part) :
    Clear pat ([sep].intercalate parts) := by
  cases parts with
  | nil => exact fun _ => id
  | cons part parts =>
    obtain ⟨hpart, hparts⟩ := List.forall_mem_cons.mp h
    rw [intercalate_cons]
    exact hpart.append (Clear.flatMap fun p hp => hsep.append (hparts p hp))

/-- Each part after a separator. -/
theorem flatMap_eq {parts : List (List α)} (hne : parts ≠ []) :
    parts.flatMap (sep :: ·) = sep :: [sep].intercalate parts := by
  obtain ⟨part, rest, rfl⟩ := List.exists_cons_of_ne_nil hne
  rw [intercalate_cons, List.flatMap_cons, List.cons_append]

/-! ### Weights -/

/-- A weight of texts that counts the separator. -/
def CountsSeparator (w : List α → Nat) (sep : α) : Prop :=
  ∀ a b, w (a ++ sep :: b) = w a + 1 + w b

section Weights

variable {w : List α → Nat}

/-- The weight of the joined text, one more for each part. -/
theorem weight_intercalate (hw : CountsSeparator w sep) {parts : List (List α)} (hne : parts ≠ []) :
    w ([sep].intercalate parts) + 1 = (parts.map fun part => w part + 1).sum := by
  induction parts with
  | nil => exact absurd rfl hne
  | cons part parts ih =>
    cases parts with
    | nil => simp
    | cons next parts =>
      have hrest := ih (List.cons_ne_nil _ _)
      rw [List.intercalate_cons_cons, List.append_assoc, List.singleton_append, hw, List.map_cons,
        List.sum_cons, ← hrest]
      omega

/-- Entries made of some of the elements are together no heavier than these. -/
theorem sum_filterMap_le {β γ : Type} {f : β → Option γ} {v : β → Nat} {w : γ → Nat}
    (h : ∀ b c, f b = some c → w c ≤ v b) (l : List β) :
    ((l.filterMap f).map w).sum ≤ (l.map v).sum := by
  induction l with
  | nil => exact le_refl 0
  | cons b l ih =>
    cases hb : f b with
    | none =>
      rw [List.filterMap_cons_none hb, List.map_cons, List.sum_cons]
      omega
    | some c =>
      have hle := h b c hb
      rw [List.filterMap_cons_some hb, List.map_cons, List.sum_cons, List.map_cons, List.sum_cons]
      omega

/-- What follows a part: nothing, or a separator. -/
def Separated (sep : α) (rest : List α) : Prop := rest = [] ∨ ∃ t, rest = sep :: t

theorem separated_flatMap (sep : α) (parts : List (List α)) :
    Separated sep (parts.flatMap (sep :: ·)) := by
  cases parts with
  | nil => exact .inl rfl
  | cons part parts => exact .inr ⟨_, rfl⟩

/-- A beginning without separators belongs to the first part. -/
theorem prefix_of_not_mem {pre part rest t : List α} (hpre : sep ∉ pre) (hrest : Separated sep rest)
    (h : part ++ rest = pre ++ t) : pre <+: part := by
  rcases List.append_eq_append_iff.mp h with ⟨x, hx, hrest'⟩ | ⟨x, hx, -⟩
  · cases x with
    | nil => rw [hx, List.append_nil]
    | cons c x =>
      rcases hrest with rfl | ⟨t, rfl⟩
      · cases hrest'
      · obtain ⟨rfl, -⟩ := List.cons.inj hrest'
        exact absurd (by rw [hx]; exact List.mem_append_right _ List.mem_cons_self) hpre
  · exact ⟨x, hx.symm⟩

/-- **The first part**: two of the same weight are the same. -/
theorem part_eq (hw : CountsSeparator w sep) {part part' rest rest' : List α}
    (hrest : Separated sep rest) (hrest' : Separated sep rest')
    (h : part ++ rest = part' ++ rest') (hweight : w part = w part') : part = part' := by
  rcases List.append_eq_append_iff.mp h with ⟨x, hx, hr⟩ | ⟨x, hx, hr⟩
  · cases x with
    | nil => rw [hx, List.append_nil]
    | cons c x =>
      rcases hrest with rfl | ⟨t, rfl⟩
      · cases hr
      · obtain ⟨rfl, -⟩ := List.cons.inj hr
        rw [hx, hw] at hweight
        omega
  · cases x with
    | nil => rw [hx, List.append_nil]
    | cons c x =>
      rcases hrest' with rfl | ⟨t, rfl⟩
      · cases hr
      · obtain ⟨rfl, -⟩ := List.cons.inj hr
        rw [hx, hw] at hweight
        omega

end Weights

/-- **Matched weights**: if each key has an entry as heavy as it needs, and all entries together are
no heavier than the keys need, the entries are what the keys need. -/
theorem perm_of_matched {κ : Type} {needs found : List (κ × Nat)}
    (hnodup : (needs.map Prod.fst).Nodup)
    (hmatch : ∀ a ∈ needs, ∃ f ∈ found, f.1 = a.1 ∧ a.2 ≤ f.2)
    (hsum : (found.map fun f => f.2 + 1).sum ≤ (needs.map fun a => a.2 + 1).sum) :
    found.Perm needs := by
  induction needs generalizing found with
  | nil =>
    cases found with
    | nil => exact .nil
    | cons f found =>
      rw [List.map_cons, List.sum_cons, List.map_nil, List.sum_nil] at hsum
      omega
  | cons a needs ih =>
    rw [List.map_cons, List.nodup_cons] at hnodup
    obtain ⟨⟨f, hf, hkey, hle⟩, hmatch⟩ := List.forall_mem_cons.mp hmatch
    obtain ⟨before, after, rfl⟩ := List.append_of_mem hf
    have hperm : (before ++ f :: after).Perm (f :: (before ++ after)) := List.perm_middle
    have hfound := (hperm.map fun f => f.2 + 1).sum_eq
    rw [hfound, List.map_cons, List.map_cons, List.sum_cons, List.sum_cons] at hsum
    have hrest : (before ++ after).Perm needs := by
      refine ih hnodup.2 (fun b hb => ?_) (by omega)
      obtain ⟨g, hg, hgkey, hgle⟩ := hmatch b hb
      have hne : g ≠ f := by
        rintro rfl
        exact hnodup.1 (by rw [← hkey, hgkey]; exact List.mem_map_of_mem hb)
      have hg := (List.mem_cons.mp (hperm.subset hg)).resolve_left hne
      exact ⟨g, hg, hgkey, hgle⟩
    have hsame := (hrest.map fun f => f.2 + 1).sum_eq
    have hf : f = a := Prod.ext hkey (by omega)
    rw [← hf]
    exact hperm.trans (hrest.cons f)

end PgSynapse
