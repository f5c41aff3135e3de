import Mathlib.Algebra.GroupWithZero.Nat
import Mathlib.Data.List.Basic

/-!
# A quota that counts whole batches

Items come in batches, and only so many of them may pass.  A gate that looks at an item when its
whole batch has been counted lets a batch through only if it ends within the quota, and so it lets
the first items pass, as many as the quota allows, exactly when no batch runs over the end of the
quota (`passed_eq_take_iff`).

The last batch may be cut short: the items after the cut are counted, but never get to the gate.
-/

namespace PgSynapse

variable {α : Type}

/-- A batch: how many items were counted, and those that got to the gate. -/
structure Batch (α : Type) where
  count : Nat
  got : List α

namespace Batch

/-- Every batch got to the gate whole, except that the last may be cut short. -/
def Whole : List (Batch α) → Prop
  | [] => True
  | [b] => b.got.length ≤ b.count
  | b :: rest => b.got.length = b.count ∧ Whole rest

theorem whole_of {batches : List (Batch α)} (hle : ∀ b ∈ batches, b.got.length ≤ b.count)
    (hall : ∀ pre b post, batches = pre ++ b :: post → post ≠ [] → b.got.length = b.count) :
    Whole batches := by
  induction batches with
  | nil => trivial
  | cons b rest ih =>
    cases rest with
    | nil => exact hle b List.mem_cons_self
    | cons b' rest =>
      refine ⟨hall [] b _ rfl (List.cons_ne_nil _ _), ih (fun x hx => hle x ?_) ?_⟩
      · exact List.mem_cons_of_mem b hx
      · intro pre x post heq hpost
        exact hall (b :: pre) x post (by rw [heq, List.cons_append]) hpost

/-- What the gate lets through, when `a` items were counted before. -/
def passed (limit a : Nat) : List (Batch α) → List α
  | [] => []
  | b :: rest => (if a + b.count ≤ limit then b.got else []) ++ passed limit (a + b.count) rest

/-- How many items were counted. -/
def total (batches : List (Batch α)) : Nat := (batches.map Batch.count).sum

/-- No batch that got to the gate runs over the end of the quota. -/
def Within (limit a : Nat) (batches : List (Batch α)) : Prop :=
  ∀ pre b post, batches = pre ++ b :: post → b.got ≠ [] →
    limit ≤ a + total pre ∨ a + total pre + b.count ≤ limit

theorem within_cons {limit a : Nat} {b : Batch α} {rest : List (Batch α)} :
    Within limit a (b :: rest) ↔
      (b.got ≠ [] → limit ≤ a ∨ a + b.count ≤ limit) ∧ Within limit (a + b.count) rest := by
  constructor
  · intro h
    refine ⟨fun hgot => ?_, fun pre b' post heq hgot => ?_⟩
    · simpa [total] using h [] b rest rfl hgot
    · have hpre := h (b :: pre) b' post (by rw [heq, List.cons_append]) hgot
      simpa [total, Nat.add_assoc] using hpre
  · rintro ⟨hhead, hrest⟩ pre b' post heq hgot
    cases pre with
    | nil =>
      obtain ⟨rfl, -⟩ := List.cons.inj heq
      simpa [total] using hhead hgot
    | cons p pre =>
      obtain ⟨rfl, hpost⟩ := List.cons.inj heq
      simpa [total, Nat.add_assoc] using hrest pre b' post hpost hgot

/-- Beyond the quota nothing passes. -/
theorem passed_beyond {limit a : Nat} (h : limit < a) (batches : List (Batch α)) :
    passed limit a batches = [] := by
  induction batches generalizing a with
  | nil => rfl
  | cons b rest ih => rw [passed, if_neg (by omega), ih (by omega), List.append_nil]

/-- Beyond the quota nothing runs over its end. -/
theorem within_beyond {limit a : Nat} (h : limit ≤ a) (batches : List (Batch α)) :
    Within limit a batches := by
  intro pre b post _ _
  exact .inl (by omega)

/-- **The first items pass**, as many as the quota allows, exactly when no batch runs over its
end. -/
theorem passed_eq_take_iff {limit : Nat} (a : Nat) {batches : List (Batch α)}
    (hwhole : Whole batches) :
    passed limit a batches = (batches.flatMap Batch.got).take (limit - a) ↔
      Within limit a batches := by
  induction batches generalizing a with
  | nil =>
    have hnil : Within limit a ([] : List (Batch α)) := fun pre b post heq => by simp at heq
    simp [passed, hnil]
  | cons b rest ih =>
    have hlength : b.got.length ≤ b.count := by
      cases rest with
      | nil => exact hwhole
      | cons _ _ => exact Nat.le_of_eq hwhole.1
    rw [passed, List.flatMap_cons, within_cons]
    by_cases hfits : a + b.count ≤ limit
    · -- the batch passes, and the rest is as before
      rw [if_pos hfits, List.take_append, List.take_of_length_le (by omega)]
      have hhead : b.got ≠ [] → limit ≤ a ∨ a + b.count ≤ limit := fun _ => .inr hfits
      rw [List.append_cancel_left_eq, and_iff_right hhead]
      cases rest with
      | nil =>
        have hnil : Within limit (a + b.count) ([] : List (Batch α)) :=
          fun pre b post heq => by simp at heq
        simp [passed, hnil]
      | cons b' rest =>
        obtain ⟨hall, hrest⟩ := hwhole
        rw [hall, Nat.sub_sub]
        exact ih (a + b.count) hrest
    · rw [if_neg hfits, List.nil_append, passed_beyond (by omega),
        and_iff_left (within_beyond (by omega) rest)]
      by_cases hover : limit ≤ a
      · simp [Nat.sub_eq_zero_of_le hover, hover]
      · -- the batch is held back; that is right only if none of it got to the gate
        constructor
        · intro heq hgot
          obtain ⟨x, got, hcons⟩ := List.exists_cons_of_ne_nil hgot
          obtain ⟨n, hn⟩ : ∃ n, limit - a = n + 1 := ⟨limit - a - 1, by omega⟩
          rw [hcons, hn, List.cons_append, List.take_succ_cons] at heq
          exact absurd heq (by simp)
        · intro hhead
          have hgot : b.got = [] := by
            by_contra hgot
            rcases hhead hgot with h | h <;> omega
          cases rest with
          | nil => simp [hgot]
          | cons b' rest =>
            -- a whole batch is empty only if nothing was counted, and that fits
            have hcount : 0 = b.count := by simpa [hgot] using hwhole.1
            omega

end Batch

end PgSynapse
