import Mathlib.Data.List.Forall2

/-!
# Lists that match element by element

What `List.Forall₂` says of the elements: each has its partner, what stands before and after a pair
matches as well, and what is said of one list is said of the other.
-/

namespace PgSynapse

variable {α β γ : Type} {R : α → β → Prop} {as : List α} {bs : List β}

/-- Every element of a list has its partner in a list that matches it. -/
theorem exists_of_forall₂ (h : List.Forall₂ R as bs) {a : α} (ha : a ∈ as) : ∃ b ∈ bs, R a b := by
  induction h with
  | nil => cases ha
  | cons hb _ ih =>
    rcases List.mem_cons.mp ha with rfl | ha
    · exact ⟨_, List.mem_cons_self, hb⟩
    · obtain ⟨b, hmem, hb'⟩ := ih ha
      exact ⟨b, List.mem_cons_of_mem _ hmem, hb'⟩

/-- The element that a related one on the right stands with. -/
theorem exists_left_of_forall₂ (h : List.Forall₂ R as bs) {b : β} (hb : b ∈ bs) :
    ∃ a ∈ as, R a b :=
  exists_of_forall₂ h.flip hb

/-- A list whose elements all have a partner is matched by a list of partners. -/
theorem exists_forall₂ (h : ∀ a ∈ as, ∃ b, R a b) : ∃ bs, List.Forall₂ R as bs := by
  induction as with
  | nil => exact ⟨[], .nil⟩
  | cons a rest ih =>
    obtain ⟨⟨b, hb⟩, hrest⟩ := List.forall_mem_cons.mp h
    obtain ⟨bs, hbs⟩ := ih hrest
    exact ⟨b :: bs, .cons hb hbs⟩

/-- The element that a related one on the right stands with, and how the rest goes on. -/
theorem split_of_forall₂ {before after : List β} {b : β}
    (h : List.Forall₂ R as (before ++ b :: after)) :
    ∃ pre a post, as = pre ++ a :: post ∧ R a b ∧ List.Forall₂ R post after := by
  induction before generalizing as with
  | nil =>
    cases h with
    | cons hab hpost => exact ⟨[], _, _, rfl, hab, hpost⟩
  | cons x before ih =>
    cases h with
    | @cons y _ ys _ _ hrest =>
      obtain ⟨pre, a, post, rfl, hab, hpost⟩ := ih hrest
      exact ⟨y :: pre, a, post, rfl, hab, hpost⟩

/-- What each element on the left gives, from its partner. -/
theorem filterMap_of_forall₂ {f : α → Option γ} {g : β → γ} (h : List.Forall₂ R as bs)
    (hR : ∀ a b, b ∈ bs → R a b → f a = some (g b)) : as.filterMap f = bs.map g := by
  induction h with
  | nil => rfl
  | cons hab _ ih =>
    rw [List.filterMap_cons_some (hR _ _ List.mem_cons_self hab), List.map_cons,
      ih fun a b hb => hR a b (List.mem_cons_of_mem _ hb)]

/-- Values that agree on each pair agree in order. -/
theorem map_eq_map_of_forall₂ {f : α → γ} {g : β → γ} (h : List.Forall₂ R as bs)
    (hR : ∀ a b, b ∈ bs → R a b → f a = g b) : as.map f = bs.map g := by
  rw [← List.filterMap_eq_map]
  exact filterMap_of_forall₂ h fun a b hb hab => congrArg some (hR a b hb hab)

/-- What holds of every element on one side, where it says the same on the other. -/
theorem forall_iff_of_forall₂ {P : α → Prop} {Q : β → Prop} (h : List.Forall₂ R as bs)
    (hR : ∀ a b, b ∈ bs → R a b → (P a ↔ Q b)) : (∀ a ∈ as, P a) ↔ ∀ b ∈ bs, Q b := by
  have hmap : as.map P = bs.map Q :=
    map_eq_map_of_forall₂ h fun a b hb hab => propext (hR a b hb hab)
  have hall : (∀ p ∈ as.map P, p) ↔ ∀ q ∈ bs.map Q, q := by rw [hmap]
  rwa [List.forall_mem_map, List.forall_mem_map] at hall

end PgSynapse
