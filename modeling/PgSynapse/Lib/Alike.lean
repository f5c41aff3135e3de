/-!
# Calls that answer alike

Two runs are compared step by step.  `R` relates the states they are in, which may differ in what
neither run can see; a call answers alike when it returns the same from related states and leaves
related states.  With `R` preserved by every call, the runs return the same all along.
-/

namespace PgSynapse

variable {σ τ α : Type}

/-- Two ends of a call: the same answer, and related states. -/
structure EndAlike (R : σ → τ → Prop) (x : α × σ) (y : α × τ) : Prop where
  answer : x.1 = y.1
  state : R x.2 y.2

/-- Two calls that answer alike. -/
def Alike (R : σ → τ → Prop) (f : σ → α × σ) (g : τ → α × τ) : Prop :=
  ∀ s t, R s t → EndAlike R (f s) (g t)

namespace EndAlike

variable {R : σ → τ → Prop} {x : α × σ} {y : α × τ}

theorem mk' {a : α} {s : σ} {t : τ} (h : R s t) : EndAlike R (a, s) (a, t) := ⟨rfl, h⟩

/-- One answer for both ends. -/
theorem elim (h : EndAlike R x y) : ∃ a s t, x = (a, s) ∧ y = (a, t) ∧ R s t := by
  obtain ⟨a, s⟩ := x
  obtain ⟨b, t⟩ := y
  obtain rfl : a = b := h.answer
  exact ⟨a, s, t, rfl, rfl, h.state⟩

end EndAlike

/-- A call that does not look at the state. -/
theorem Alike.pure (R : σ → τ → Prop) (a : α) : Alike R (fun s => (a, s)) fun t => (a, t) :=
  fun _ _ h => .mk' h

/-- A function answers alike with itself when the states are equal. -/
theorem Alike.eq (f : σ → α × σ) : Alike Eq f f := by
  rintro s _ rfl
  exact ⟨rfl, rfl⟩

end PgSynapse
