import Mathlib.Data.List.Basic

/-!
# Nested subtransactions

A backend inside a transaction has a current state and, for each open subtransaction, the state
saved when it was opened, innermost first.  Releasing the innermost subtransaction forgets its saved
state; rolling it back restores that state.
-/

namespace PgSynapse

/-- A database backend inside a transaction. -/
structure Backend (δ : Type) where
  cur : δ
  saved : List δ
  deriving DecidableEq

namespace Backend

variable {δ α : Type}

/-- Open a subtransaction. -/
def beginSub (b : Backend δ) : Backend δ := ⟨b.cur, b.cur :: b.saved⟩

/-- Close the innermost subtransaction and keep its writes. -/
def release (b : Backend δ) : Backend δ := ⟨b.cur, b.saved.tail⟩

/-- Close the innermost subtransaction and undo its writes. -/
def rollback (b : Backend δ) : Backend δ :=
  match b.saved with
  | [] => b
  | s :: rest => ⟨s, rest⟩

/-- Run a step on the current state, inside whatever subtransactions are open. -/
def run (f : δ → α × δ) (b : Backend δ) : α × Backend δ :=
  ((f b.cur).1, ⟨(f b.cur).2, b.saved⟩)

variable {b b' : Backend δ}

/-- Releasing a subtransaction whose body closed what it opened keeps the body's state. -/
theorem release_of_saved (h : b'.saved = b.beginSub.saved) : b'.release = ⟨b'.cur, b.saved⟩ := by
  rw [release, h]
  rfl

/-- Rolling back a subtransaction whose body closed what it opened leaves no trace of it. -/
theorem rollback_of_saved (h : b'.saved = b.beginSub.saved) : b'.rollback = b := by
  rw [rollback, h]
  rfl

end Backend

end PgSynapse
