import Mathlib.Data.List.Basic

/-!
# Runs of a transition system

A transition system is a step function on states that is defined where an action is enabled.  A run
takes a list of actions one after another, which is one interleaving of the parties that act.
-/

namespace PgSynapse

variable {σ α : Type}

/-- Take the actions one after another; `none` if one of them is not enabled. -/
def runActs (step : σ → α → Option σ) : σ → List α → Option σ
  | s, [] => some s
  | s, a :: rest => (step s a).bind fun s' => runActs step s' rest

variable {step : σ → α → Option σ}

/-- The first step of a run. -/
theorem runActs_cons {s s' : σ} {a : α} {rest : List α} :
    runActs step s (a :: rest) = some s' ↔
      ∃ s₁, step s a = some s₁ ∧ runActs step s₁ rest = some s' := by
  rw [runActs, Option.bind_eq_some_iff]

/-- Two runs, one after the other. -/
theorem runActs_append {s s' : σ} {acts rest : List α} :
    runActs step s (acts ++ rest) = some s' ↔
      ∃ s₁, runActs step s acts = some s₁ ∧ runActs step s₁ rest = some s' := by
  induction acts generalizing s with
  | nil => simp [runActs]
  | cons a acts ih =>
    rw [List.cons_append, runActs_cons]
    constructor
    · rintro ⟨s₁, hstep, hrun⟩
      obtain ⟨s₂, hacts, hrest⟩ := ih.mp hrun
      exact ⟨s₂, runActs_cons.mpr ⟨s₁, hstep, hacts⟩, hrest⟩
    · rintro ⟨s₂, hrun, hrest⟩
      obtain ⟨s₁, hstep, hacts⟩ := runActs_cons.mp hrun
      exact ⟨s₁, hstep, ih.mpr ⟨s₂, hacts, hrest⟩⟩

/-- Every step of a run is taken in a state where `G` holds of it. -/
def Along (step : σ → α → Option σ) (G : σ → α → Prop) : σ → List α → Prop
  | _, [] => True
  | s, a :: rest => G s a ∧ ∀ s', step s a = some s' → Along step G s' rest

/-- The step function is a function, so one next state is enough. -/
theorem Along.cons {G : σ → α → Prop} {s s' : σ} {a : α} {rest : List α} (ha : G s a)
    (hstep : step s a = some s') (hrest : Along step G s' rest) : Along step G s (a :: rest) := by
  refine ⟨ha, fun s₁ h₁ => ?_⟩
  obtain rfl : s' = s₁ := Option.some.inj (hstep.symm.trans h₁)
  exact hrest

/-- A condition on the actions alone. -/
theorem along_of_forall {P : α → Prop} {acts : List α} (h : ∀ a ∈ acts, P a) (s : σ) :
    Along step (fun _ a => P a) s acts := by
  induction acts generalizing s with
  | nil => trivial
  | cons a rest ih =>
    exact ⟨h a List.mem_cons_self, fun s' _ => ih (fun b hb => h b (List.mem_cons_of_mem a hb)) s'⟩

/-- **Invariants**: what the steps of a run keep holds at its end. -/
theorem runActs_invariant {G : σ → α → Prop} {Inv : σ → Prop}
    (hstep : ∀ s a s', G s a → Inv s → step s a = some s' → Inv s') {acts : List α} {s s' : σ}
    (hacts : Along step G s acts) (hs : Inv s) (h : runActs step s acts = some s') : Inv s' := by
  induction acts generalizing s with
  | nil =>
    cases h
    exact hs
  | cons a rest ih =>
    obtain ⟨s₁, h₁, hrest⟩ := runActs_cons.mp h
    exact ih (hacts.2 s₁ h₁) (hstep s a s₁ hacts.1 hs h₁) hrest

end PgSynapse
