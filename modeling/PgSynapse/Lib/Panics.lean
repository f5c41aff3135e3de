/-!
# Computations that may panic

`Ends bad ok r` says when a computation that may panic does: `none` is the panic, it happens
exactly when `bad` holds, and a value that is returned satisfies `ok`.  A sequence of steps panics
when one of its steps does.
-/

namespace PgSynapse

variable {α β : Type} {bad bad' : Prop} {ok ok' : α → Prop}

/-- How a computation ends. -/
inductive Ends (bad : Prop) (ok : α → Prop) : Option α → Prop where
  | panicked (h : bad) : Ends bad ok none
  | returned {a : α} (h : ¬ bad) (ha : ok a) : Ends bad ok (some a)

namespace Ends

/-- A computation that only returns. -/
theorem pure {a : α} (ha : ok a) : Ends False ok (some a) := .returned id ha

/-- **When a computation panics.** -/
theorem eq_none_iff {r : Option α} (h : Ends bad ok r) : r = none ↔ bad := by
  cases h with
  | panicked h => exact ⟨fun _ => h, fun _ => rfl⟩
  | returned h _ => exact ⟨nofun, fun hbad => absurd hbad h⟩

/-- What a returned value satisfies. -/
theorem ok_of_eq_some {r : Option α} {a : α} (h : Ends bad ok r) (hr : r = some a) : ok a := by
  cases h with
  | panicked _ => cases hr
  | returned _ ha =>
    obtain rfl := Option.some.inj hr
    exact ha

/-- The same end in other words. -/
theorem mono {r : Option α} (h : Ends bad ok r) (hbad : bad ↔ bad') (hok : ∀ a, ok a → ok' a) :
    Ends bad' ok' r := by
  cases h with
  | panicked h => exact .panicked (hbad.mp h)
  | returned h ha => exact .returned (fun h' => h (hbad.mpr h')) (hok _ ha)

/-- **One step after another**: the sequence panics when either step does. -/
theorem bind {r : Option α} {f : α → Option β} {ok₂ : β → Prop} (h : Ends bad ok r)
    (hf : ∀ a, ok a → Ends bad' ok₂ (f a)) : Ends (bad ∨ bad') ok₂ (r.bind f) := by
  cases h with
  | panicked h => exact .panicked (.inl h)
  | @returned a h ha =>
    exact (hf a ha).mono ⟨.inr, fun hor => hor.resolve_left h⟩ fun _ => id

/-- A last step that only returns. -/
theorem bind_some {r : Option α} {f : α → β} {ok₂ : β → Prop} (h : Ends bad ok r)
    (hf : ∀ a, ok a → ok₂ (f a)) : Ends bad ok₂ (r.bind fun a => some (f a)) := by
  cases h with
  | panicked h => exact .panicked h
  | returned h ha => exact .returned h (hf _ ha)

end Ends

end PgSynapse
