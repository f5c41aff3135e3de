import Mathlib.Data.List.Nodup
import Mathlib.Data.List.Perm.Subperm
import Mathlib.Data.List.Flatten

/-!
# Joins and what they list

A table is a list of rows and a join is made of nested loops.  `ListsOnce xs ys` says that `xs` has
the entries of `ys`, each once.  When both are made of groups, and no group of `xs` is smaller than
that of `ys`, then the groups have the same sizes (`ListsOnce.length_eq`): a join that multiplies the
rows of one group cannot make up for it in another.
-/

namespace PgSynapse

variable {α β γ : Type}

/-- `xs JOIN ys ON …`. -/
def join (xs : List α) (ys : List β) (on : α → β → Bool) : List (α × β) :=
  xs.flatMap fun x => (ys.filter (on x)).map fun y => (x, y)

/-- A condition on the left rows can be checked before the join. -/
theorem filter_join (p : α → Bool) (xs : List α) (ys : List β) (on : α → β → Bool) :
    (join xs ys on).filter (fun r => p r.1) = join (xs.filter p) ys on := by
  induction xs with
  | nil => rfl
  | cons x xs ih =>
    unfold join at ih ⊢
    rw [List.flatMap_cons, List.filter_append, ih]
    by_cases hx : p x = true
    · rw [List.filter_cons_of_pos hx, List.flatMap_cons, List.filter_eq_self.mpr]
      intro r hr
      obtain ⟨y, -, rfl⟩ := List.mem_map.mp hr
      exact hx
    · rw [List.filter_cons_of_neg hx, List.filter_eq_nil_iff.mpr, List.nil_append]
      intro r hr
      obtain ⟨y, -, rfl⟩ := List.mem_map.mp hr
      exact hx

/-! ### Groups -/

section Groups

variable {f : α → List β} {xs : List α} {x : α}

theorem length_le_length_flatMap (hx : x ∈ xs) : (f x).length ≤ (xs.flatMap f).length := by
  obtain ⟨before, after, rfl⟩ := List.append_of_mem hx
  simp only [List.flatMap_append, List.flatMap_cons, List.length_append]
  omega

/-- The only group that is not empty. -/
theorem flatMap_eq_of_forall_ne (hnodup : xs.Nodup) (hx : x ∈ xs)
    (h : ∀ y ∈ xs, y ≠ x → f y = []) : xs.flatMap f = f x := by
  obtain ⟨before, after, rfl⟩ := List.append_of_mem hx
  have hnotin : x ∉ before ++ after := (List.nodup_cons.mp (List.nodup_middle.mp hnodup)).1
  have hbefore : before.flatMap f = [] := List.flatMap_eq_nil_iff.mpr fun y hy =>
    h y (List.mem_append_left _ hy) fun heq => hnotin (heq ▸ List.mem_append_left _ hy)
  have hafter : after.flatMap f = [] := List.flatMap_eq_nil_iff.mpr fun y hy =>
    h y (List.mem_append_right _ (List.mem_cons_of_mem _ hy)) fun heq =>
      hnotin (heq ▸ List.mem_append_right _ hy)
  rw [List.flatMap_append, List.flatMap_cons, hbefore, hafter, List.nil_append, List.append_nil]

/-- A group that is as long as all of them is the only one. -/
theorem eq_nil_of_length_flatMap_le (hx : x ∈ xs) (h : (xs.flatMap f).length ≤ (f x).length) :
    ∀ y ∈ xs, y ≠ x → f y = [] := by
  obtain ⟨before, after, rfl⟩ := List.append_of_mem hx
  simp only [List.flatMap_append, List.flatMap_cons, List.length_append] at h
  intro y hy hne
  rw [← List.length_eq_zero_iff]
  rcases List.mem_append.mp hy with hy | hy
  · have hle := length_le_length_flatMap (f := f) hy
    omega
  · have hle := length_le_length_flatMap (f := f) ((List.mem_cons.mp hy).resolve_left hne)
    omega

end Groups

/-! ### Listing entries once -/

/-- The entries of `ys`, each once. -/
def ListsOnce (xs ys : List α) : Prop := xs.Nodup ∧ ∀ e, e ∈ xs ↔ e ∈ ys

theorem ListsOnce.length_le {xs ys : List α} (h : ListsOnce xs ys) : xs.length ≤ ys.length :=
  (h.1.subperm fun e he => (h.2 e).mp he).length_le

/-- As many entries as there are, each once. -/
theorem ListsOnce.perm {xs ys : List α} (h : ListsOnce xs ys) (hle : ys.length ≤ xs.length) :
    xs.Perm ys :=
  (h.1.subperm fun e he => (h.2 e).mp he).perm_of_length_le hle

/-- Groups of which none gets smaller have at least as many entries together. -/
theorem length_flatMap_le {f g : α → List β} {xs : List α}
    (h : ∀ x ∈ xs, (g x).length ≤ (f x).length) :
    (xs.flatMap g).length ≤ (xs.flatMap f).length := by
  induction xs with
  | nil => exact Nat.le_refl 0
  | cons x xs ih =>
    have hx := h x List.mem_cons_self
    have hxs := ih fun y hy => h y (List.mem_cons_of_mem x hy)
    simp only [List.flatMap_cons, List.length_append]
    omega

/-- **Groups of entries listed once** have the sizes they should have. -/
theorem ListsOnce.length_eq {f g : α → List β} {xs : List α}
    (h : ListsOnce (xs.flatMap f) (xs.flatMap g)) (hle : ∀ x ∈ xs, (g x).length ≤ (f x).length) :
    ∀ x ∈ xs, (f x).length = (g x).length := by
  intro x hx
  have hlen := h.length_le
  obtain ⟨before, after, rfl⟩ := List.append_of_mem hx
  have hbefore := length_flatMap_le fun y hy => hle y (List.mem_append_left (x :: after) hy)
  have hafter := length_flatMap_le fun y hy =>
    hle y (List.mem_append_right before (List.mem_cons_of_mem x hy))
  have hgroup := hle x hx
  simp only [List.flatMap_append, List.flatMap_cons, List.length_append] at hlen
  omega

end PgSynapse
