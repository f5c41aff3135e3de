import Mathlib.Data.List.Perm.Basic

/-!
# Calls that are served at most once

A caller makes calls one after another on a service that it reaches over a wire.  `act` is what the
service does on a call, and how the caller is told.  An answer that is `failed` says only that
something went wrong on the way: the service may still get to that call, at any time, or never.  What
else happens to the service is `drift`.
-/

namespace PgSynapse

variable {α γ δ : Type}

/-- **Served at most once**: the calls, each with the answer the caller got, take the service from
`d` to the state at the end, while those under way are the ones that nobody waits for and that were
not served.  At the start these are `before`.  An answer that is not a failure is the one of the
service, which served the call then, once. -/
inductive Served (act : α → δ → γ × δ) (failed : γ → Prop) (drift : δ → δ → Prop) (d : δ)
    (before : List α) : List (α × γ) → List α → δ → Prop where
  | start : Served act failed drift d before [] before d
  | drift {calls : List (α × γ)} {underWay : List α} {d₁ d₂ : δ}
      (h : Served act failed drift d before calls underWay d₁) (hdrift : drift d₁ d₂) :
      Served act failed drift d before calls underWay d₂
  | failed {calls : List (α × γ)} {underWay : List α} {d₁ : δ} {a : α} {r : γ}
      (h : Served act failed drift d before calls underWay d₁) (hfailed : failed r) :
      Served act failed drift d before (calls ++ [(a, r)]) (a :: underWay) d₁
  | late {calls : List (α × γ)} {underWay rest : List α} {d₁ : δ} {a : α}
      (h : Served act failed drift d before calls underWay d₁) (hperm : underWay.Perm (a :: rest)) :
      Served act failed drift d before calls rest (act a d₁).2
  | answered {calls : List (α × γ)} {underWay : List α} {d₁ : δ} {a : α}
      (h : Served act failed drift d before calls underWay d₁) :
      Served act failed drift d before (calls ++ [(a, (act a d₁).1)]) underWay (act a d₁).2

namespace Served

variable {act : α → δ → γ × δ} {failed : γ → Prop} {drift : δ → δ → Prop} {d d' : δ}
  {before underWay : List α} {calls : List (α × γ)}

end Served

end PgSynapse
