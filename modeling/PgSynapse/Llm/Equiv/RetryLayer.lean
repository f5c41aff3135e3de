import Mathlib.Data.ENat.Lattice
import PgSynapse.Llm.Equiv.Wrappers

/-!
# How often a request is sent

A provider that answers every call with a result is a function on the outside, and what it answers
to one request, if it is asked again and again, is a sequence of results (`RetryProvider.result`).
`RetryProvider` sends the request until the first of them that is final, or until its retries are
used up, and returns the last (`sends_until_final`).
-/

namespace PgSynapse

variable {σ : Type}

/-- What a provider does that answers every call: the result, and what becomes of the outside. -/
abbrev Behaviour (σ : Type) :=
  CompletionRequest → σ → Except LlmError CompletionResponse × σ

/-- The provider of a behaviour. -/
def Behaviour.provider (f : Behaviour σ) (modelName : String)
    (capabilities : ProviderCapabilities) : DynProvider σ where
  modelName := modelName
  complete req _ env := (.ready (f req env).1, (f req env).2)
  capabilities := capabilities

namespace RetryProvider

/-! ### The results, one retry after another -/

/-- A result that is not retried: a response, or an error that is not transient. -/
def Final : Except LlmError CompletionResponse → Prop
  | .ok _ => True
  | .error err => isTransient err = false

section Results

variable [Timer σ] (f : Behaviour σ) (config : RetryConfig) (req : CompletionRequest) (env : σ)

/-- The wrapper's own wait after call number `k`. -/
def waited (k : Nat) (r : Except LlmError CompletionResponse) (env : σ) : σ :=
  match r with
  | .ok _ => env
  | .error err =>
    let (delayMs, env) := delayFor config err (UInt32.ofNat k) env
    Timer.sleep delayMs env

/-- The outside before call number `k`, if every call before it is retried. -/
def before : Nat → σ
  | 0 => env
  | k + 1 => waited config k (f req (before k)).1 (f req (before k)).2

/-- The result of call number `k`. -/
def result (k : Nat) : Except LlmError CompletionResponse := (f req (before f config req env k)).1

/-- The outside after call number `k`. -/
def after (k : Nat) : σ := (f req (before f config req env k)).2

/-- The index of the first final result; infinite if there is none. -/
noncomputable def firstFinal : ℕ∞ := ⨅ k ∈ {k | Final (result f config req env k)}, (k : ℕ∞)

variable {f config req env}

/-- The last call the wrapper makes is the first that is final, or the last it may make. -/
theorem eq_min_firstFinal {n bound : Nat} (hle : n ≤ bound)
    (hbefore : ∀ k < n, ¬ Final (result f config req env k))
    (hlast : Final (result f config req env n) ∨ n = bound) :
    (n : ℕ∞) = min (firstFinal f config req env) bound := by
  have hlower : (n : ℕ∞) ≤ firstFinal f config req env := by
    refine le_iInf₂ fun k hk => ?_
    have hnk : n ≤ k := by
      by_contra hlt
      exact hbefore k (by omega) hk
    exact_mod_cast hnk
  have hbound : (n : ℕ∞) ≤ bound := by exact_mod_cast hle
  apply le_antisymm (le_min hlower hbound)
  rcases hlast with hfinal | rfl
  · exact (min_le_left _ _).trans (iInf₂_le n hfinal)
  · exact min_le_right _ _

end Results

/-! ### The loop -/

variable [Timer σ]

/-- The loop of `complete` with something else behind it. -/
def attemptsThen (exit : Option LlmError → Except LlmError CompletionResponse)
    (inner : DynProvider σ) (config : RetryConfig) (req : CompletionRequest) :
    Nat → UInt32 → Option LlmError → Option Nat → σ →
      Answer (Except LlmError CompletionResponse) × σ
  | 0, _, lastErr, _, env => (.ready (exit lastErr), env)
  | left + 1, attempt, _, wait, env =>
    match inner.complete req wait env with
    | (.ready (.error err), env') =>
      if !isTransient err || attempt == config.maxRetries then (.ready (.error err), env')
      else
        let (delayMs, env') := delayFor config err attempt env'
        match Timer.sleepWithin (Timer.remaining wait env env') delayMs env' with
        | none => (.pending, env')
        | some (wait, env') => attemptsThen exit inner config req left (attempt + 1) (some err) wait env'
    | answered => answered

/-- The number of the attempt and the attempts that are left make up the attempts there are. -/
def Counts (config : RetryConfig) (left : Nat) (attempt : UInt32) : Prop :=
  attempt.toNat + left = config.maxRetries.toNat + 1 ∧ 0 < left

theorem Counts.start (config : RetryConfig) : Counts config (config.maxRetries.toNat + 1) 0 :=
  ⟨by simp, by omega⟩

/-- The last attempt is the one that has none behind it. -/
theorem Counts.last_iff {config : RetryConfig} {left : Nat} {attempt : UInt32}
    (h : Counts config (left + 1) attempt) : attempt = config.maxRetries ↔ left = 0 := by
  rw [← UInt32.toNat_inj]
  have := h.1
  omega

theorem Counts.next {config : RetryConfig} {left : Nat} {attempt : UInt32}
    (h : Counts config (left + 1) attempt) (hlast : attempt ≠ config.maxRetries) :
    Counts config left (attempt + 1) ∧ (attempt + 1).toNat = attempt.toNat + 1 := by
  have hleft : left ≠ 0 := fun h0 => hlast (h.last_iff.mpr h0)
  have hsum := h.1
  have hmax := config.maxRetries.toNat_lt
  have hsucc : (attempt + 1).toNat = attempt.toNat + 1 := by
    have hone : (1 : UInt32).toNat = 1 := rfl
    rw [UInt32.toNat_add, hone]
    omega
  exact ⟨⟨by omega, by omega⟩, hsucc⟩

/-- **What is behind the loop is not reached**, whatever the provider does. -/
theorem attemptsThen_eq (exit : Option LlmError → Except LlmError CompletionResponse)
    (inner : DynProvider σ) (config : RetryConfig) (req : CompletionRequest) {left : Nat}
    {attempt : UInt32} (hcounts : Counts config left attempt) (lastErr : Option LlmError)
    (wait : Option Nat) (env : σ) :
    attemptsThen exit inner config req left attempt lastErr wait env =
      attempts inner config req left attempt lastErr wait env := by
  induction left generalizing attempt lastErr wait env with
  | zero => exact absurd hcounts.2 (by omega)
  | succ left ih =>
    rw [attemptsThen, attempts]
    rcases inner.complete req wait env with ⟨(err | _) | _ | _, env'⟩
    · by_cases hstop : (!isTransient err || attempt == config.maxRetries) = true
      · simp only [hstop, if_true]
      · have hlast : attempt ≠ config.maxRetries := by
          intro heq
          exact hstop (by simp [heq])
        simp only [hstop]
        rcases delayFor config err attempt env' with ⟨delayMs, env''⟩
        simp only
        cases Timer.sleepWithin (Timer.remaining wait env env'') delayMs env'' with
        | none => rfl
        | some next => exact ih (hcounts.next hlast).1 _ _ _
    all_goals rfl

/-- The call of attempt `k`, recorded. -/
theorem recorded_complete (f : Behaviour σ) (modelName : String)
    (capabilities : ProviderCapabilities) (config : RetryConfig) (req : CompletionRequest)
    (env : σ) (calls : List CompletionRequest) (k : Nat) :
    (f.provider modelName capabilities).recorded.complete req none
        (before f config req env k, calls) =
      (.ready (result f config req env k), (after f config req env k, calls ++ [req])) := rfl

/-- The wait behind a failed attempt, with the calls recorded. -/
theorem recorded_wait (f : Behaviour σ) (config : RetryConfig) (req : CompletionRequest) (env : σ)
    {k : Nat} {attempt : UInt32} (hk : attempt.toNat = k) {err : LlmError}
    (herr : result f config req env k = .error err) (calls : List CompletionRequest) :
    ∃ env', delayFor config err attempt (after f config req env k, calls) =
        ((delayFor config err attempt (after f config req env k)).1, (env', calls)) ∧
      Timer.sleep (delayFor config err attempt (after f config req env k)).1 env' =
        before f config req env (k + 1) := by
  have hattempt : UInt32.ofNat k = attempt := by rw [← hk, UInt32.ofNat_toNat]
  have hbefore : before f config req env (k + 1) =
      waited config k (result f config req env k) (after f config req env k) := rfl
  rw [hbefore, herr, waited, hattempt]
  refine ⟨(delayFor config err attempt (after f config req env k)).2, ?_, rfl⟩
  unfold delayFor
  cases retryAfterHint err <;> rfl

/-- **The loop from attempt `k` on**: the calls that are still made are those up to the next final
result, or up to the last attempt. -/
theorem attempts_from (f : Behaviour σ) (modelName : String) (capabilities : ProviderCapabilities)
    (config : RetryConfig) (req : CompletionRequest) (env : σ) {left k : Nat} {attempt : UInt32}
    (hcounts : Counts config left attempt) (hk : attempt.toNat = k) (lastErr : Option LlmError)
    (calls : List CompletionRequest) :
    ∃ n, k ≤ n ∧ n ≤ config.maxRetries.toNat ∧
      (∀ j, k ≤ j → j < n → ¬ Final (result f config req env j)) ∧
      (Final (result f config req env n) ∨ n = config.maxRetries.toNat) ∧
      attempts (f.provider modelName capabilities).recorded config req left attempt lastErr none
          (before f config req env k, calls) =
        (.ready (result f config req env n),
          (after f config req env n, calls ++ List.replicate (n - k + 1) req)) := by
  -- on the attempts that are left; `k` counts the ones made, and the request goes out once in each
  induction left generalizing k attempt lastErr calls with
  | zero => exact absurd hcounts.2 (by omega)
  | succ left ih =>
    have hsum := hcounts.1
    have hnone : ∀ j, k ≤ j → j < k → ¬ Final (result f config req env j) :=
      fun j hle hlt => absurd hlt (by omega)
    rw [attempts, recorded_complete]
    cases hr : result f config req env k with
    | ok resp =>
      have hfinal : Final (result f config req env k) := by rw [hr]; trivial
      refine ⟨k, le_rfl, by omega, hnone, .inl hfinal, ?_⟩
      rw [hr, Nat.sub_self]
      rfl
    | error err =>
      by_cases hstop : (!isTransient err || attempt == config.maxRetries) = true
      · have hlast : Final (result f config req env k) ∨ k = config.maxRetries.toNat := by
          rw [hr]
          rcases Bool.or_eq_true_iff.mp hstop with hperm | heq
          · left
            show isTransient err = false
            simpa using hperm
          · right
            rw [← hk, eq_of_beq heq]
        -- the wrapper stops here, for good or out of attempts
        refine ⟨k, le_rfl, by omega, hnone, hlast, ?_⟩
        simp only [hstop, if_true]
        rw [hr, Nat.sub_self]
        rfl
      · have hretried : ¬ Final (result f config req env k) := by
          rw [hr]
          intro hfinal
          have hpermanent : isTransient err = false := hfinal
          exact hstop (by rw [hpermanent]; rfl)
        have hlast : attempt ≠ config.maxRetries := by
          intro heq
          exact hstop (by simp [heq])
        obtain ⟨hnext, hsucc⟩ := hcounts.next hlast
        -- it sleeps and asks once more
        obtain ⟨env', hdelay, hsleep⟩ := recorded_wait f config req env hk hr (calls ++ [req])
        obtain ⟨n, hkn, hn, hbefore, hend, heq⟩ := ih hnext (k := k + 1) (by omega) (some err)
          (calls ++ [req])
        refine ⟨n, by omega, hn, ?_, hend, ?_⟩
        · intro j hkj hjn
          rcases Nat.eq_or_lt_of_le hkj with rfl | hlt
          · exact hretried
          · exact hbefore j hlt hjn
        · have hcalls : calls ++ [req] ++ List.replicate (n - (k + 1) + 1) req =
              calls ++ List.replicate (n - k + 1) req := by
            rw [List.append_assoc, List.singleton_append, ← List.replicate_succ,
              show n - (k + 1) + 1 + 1 = n - k + 1 by omega]
          have hslept : Timer.sleepWithin
              (Timer.remaining none ((before f config req env k, calls) : Recorded σ)
                (env', calls ++ [req]))
              (delayFor config err attempt (after f config req env k)).1
              ((env', calls ++ [req]) : Recorded σ) =
                some (none, (before f config req env (k + 1), calls ++ [req])) := by
            rw [← hsleep]
            rfl
          simp only [hstop]
          rw [hdelay]
          simp only [hslept]
          rw [← hcalls]
          exact heq

/-! ### The wrapper -/

/-- **How often a request is sent**: to the first final result, or until no retry is left, each time
as it came; what the last call returned is returned, and what is behind the loop plays no part. -/
theorem sends_until_final (f : Behaviour σ) (modelName : String) (capabilities : ProviderCapabilities)
    (config : RetryConfig) (req : CompletionRequest) (env : σ) (calls : List CompletionRequest) :
    ∃ n : ℕ, (n : ℕ∞) = min (firstFinal f config req env) config.maxRetries.toNat ∧
      (layer config (f.provider modelName capabilities).recorded).complete req none (env, calls) =
        (.ready (result f config req env n),
          (after f config req env n, calls ++ List.replicate (n + 1) req)) ∧
      ∀ exit, attemptsThen exit (f.provider modelName capabilities).recorded config req
          (config.maxRetries.toNat + 1) 0 none none (env, calls) =
        (layer config (f.provider modelName capabilities).recorded).complete req none
          (env, calls) := by
  obtain ⟨n, -, hn, hbefore, hend, heq⟩ := attempts_from f modelName capabilities config req env
    (Counts.start config) rfl none calls
  refine ⟨n, ?_, heq, ?_⟩
  · exact eq_min_firstFinal hn (fun k hk => hbefore k (Nat.zero_le k) hk) hend
  · intro exit
    exact attemptsThen_eq exit _ config req (Counts.start config) none none (env, calls)

/-! ### Any sequence of results -/

/-- The outside, with the number of calls so far. -/
abbrev Numbered (σ : Type) := σ × Nat

instance : Timer (Numbered σ) where
  clock s := Timer.clock s.1
  sleep ms s := (Timer.sleep ms s.1, s.2)
  random s := ((Timer.random s.1).1, ((Timer.random s.1).2, s.2))

omit [Timer σ] in
/-- The behaviour that gives the results of a sequence, one after another. -/
def inTurn (results : Nat → Except LlmError CompletionResponse) : Behaviour (Numbered σ) :=
  fun _ s => (results s.2, (s.1, s.2 + 1))

theorem before_inTurn (results : Nat → Except LlmError CompletionResponse) (config : RetryConfig)
    (req : CompletionRequest) (env : σ) (k : Nat) :
    (before (inTurn results) config req (env, 0) k).2 = k := by
  induction k with
  | zero => rfl
  | succ k ih =>
    rw [before]
    have hafter : (inTurn results req (before (inTurn results) config req (env, 0) k)).2.2 =
        k + 1 := by
      rw [inTurn, ih]
    cases (inTurn results req (before (inTurn results) config req (env, 0) k)).1 with
    | ok _ => exact hafter
    | error err =>
      rw [waited]
      unfold delayFor
      cases retryAfterHint err with
      | none => exact hafter
      | some hint => exact hafter

/-- Every sequence of results is what some provider answers. -/
theorem result_inTurn (results : Nat → Except LlmError CompletionResponse) (config : RetryConfig)
    (req : CompletionRequest) (env : σ) (k : Nat) :
    result (inTurn results) config req (env, 0) k = results k := by
  show results (before (inTurn results) config req (env, 0) k).2 = results k
  rw [before_inTurn]

end RetryProvider

end PgSynapse
