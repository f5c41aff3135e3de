/-!
# Loops

A loop is its body: one iteration that fails, exits with a result or goes on in a new state.
`LoopEnds` says how a loop ends, without a bound on its iterations, and `iterate` runs it for a number
of them.  A loop whose states get smaller ends, and enough iterations find its end
(`Descending.loopEnds`).
-/

namespace PgSynapse

variable {σ ρ : Type}

/-- What one iteration that does not fail leads to. -/
inductive Iteration (σ ρ : Type) where
  | exit (r : ρ)
  | next (s : σ)

/-- **The end of a loop**, `none` when an iteration fails. -/
inductive LoopEnds (body : σ → Option (Iteration σ ρ)) : σ → Option ρ → Prop where
  | fail {s : σ} (h : body s = none) : LoopEnds body s none
  | exit {s : σ} {r : ρ} (h : body s = some (.exit r)) : LoopEnds body s (some r)
  | next {s s' : σ} {out : Option ρ} (h : body s = some (.next s')) (hrest : LoopEnds body s' out) :
      LoopEnds body s out

/-- A number of iterations, `none` when one fails or when they are not enough. -/
def iterate (body : σ → Option (Iteration σ ρ)) : Nat → σ → Option ρ
  | 0, _ => none
  | fuel + 1, s => (body s).bind fun
    | .exit r => some r
    | .next s' => iterate body fuel s'

variable {body : σ → Option (Iteration σ ρ)}

/-- The states that satisfy `Inv` lead to smaller ones that do. -/
def Descending (body : σ → Option (Iteration σ ρ)) (Inv : σ → Prop) (size : σ → Nat) : Prop :=
  ∀ s s', Inv s → body s = some (.next s') → size s' < size s ∧ Inv s'

/-- **Termination**: a loop whose states get smaller ends as it does within its size. -/
theorem Descending.loopEnds {Inv : σ → Prop} {size : σ → Nat} (h : Descending body Inv size)
    {fuel : Nat} {s : σ} (hfuel : size s < fuel) (hs : Inv s) :
    LoopEnds body s (iterate body fuel s) := by
  induction fuel generalizing s with
  | zero => omega
  | succ fuel ih =>
    rw [iterate]
    cases hbody : body s with
    | none => exact .fail hbody
    | some it =>
      cases it with
      | exit r => exact .exit hbody
      | next s' =>
        obtain ⟨hless, hs'⟩ := h s s' hs hbody
        exact .next hbody (ih (by omega) hs')

end PgSynapse
