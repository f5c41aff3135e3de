import PgSynapse.Types.Context

/-!
# `RetryProvider`: transient errors are retried

A translation of `llm/retry_layer.rs`, with `ProviderCapabilities` (`llm/mod.rs`).  The wrapper's
own waits take time from the caller's: what a call is given is what is left of it.

The jitter is computed with exact rationals where the source computes with `f64`.
-/

namespace PgSynapse

/-- What a provider supports. -/
structure ProviderCapabilities where
  toolUse : Bool
  streaming : Bool
  jsonMode : Bool
  vision : Bool
  maxContextTokens : Option UInt32
  maxOutputTokens : Option UInt32
  deriving DecidableEq, Repr

/-- `ProviderCapabilities::default()`, which is what the trait reports for a provider that says
nothing. -/
def ProviderCapabilities.default : ProviderCapabilities := ⟨false, false, false, false, none, none⟩

/-- `Arc<dyn LlmProvider>` with all it reports. -/
structure DynProvider (σ : Type) extends LlmProvider σ where
  capabilities : ProviderCapabilities

/-- What the runtime supplies for waiting: the monotonic clock (nanoseconds), a timer of so many
milliseconds, and a number in `[0, 1)` that is different each time. -/
class Timer (σ : Type) where
  clock : σ → Nat
  sleep : Nat → σ → σ
  random : σ → Rat × σ

namespace Timer

variable {σ : Type} [Timer σ]

/-- What is left of the caller's wait after the steps from `env` to `env'`. -/
def remaining (wait : Option Nat) (env env' : σ) : Option Nat :=
  wait.map fun w => w - (clock env' - clock env)

/-- Sleep, unless the caller's wait ends first. -/
def sleepWithin (wait : Option Nat) (ms : Nat) (env : σ) : Option (Option Nat × σ) :=
  match wait with
  | none => some (none, sleep ms env)
  | some w => if w < ms * 1000000 then none else some (some (w - ms * 1000000), sleep ms env)

end Timer

/-- `RetryConfig`. -/
structure RetryConfig where
  maxRetries : UInt32
  baseDelayMs : UInt64
  maxDelayMs : UInt64
  jitterFraction : Rat

/-- `is_transient`. -/
def isTransient : LlmError → Bool
  | .rateLimited _ _ | .provider _ _ | .network _ => true
  | .auth _ | .contextLengthExceeded _ _ _ | .responseTruncated _ _ => false

/-- `f64::round() as u64`: half away from zero, and saturating. -/
def roundToU64 (q : Rat) : Nat :=
  if q < 0 then 0 else min (q + 1 / 2).floor.toNat (2 ^ 64 - 1)

/-- `compute_delay`. -/
def computeDelay (config : RetryConfig) (attempt : UInt32) (jitterSeed : Rat) : Nat :=
  let shift := min attempt.toNat 63
  let expDelay := min (config.baseDelayMs.toNat * 2 ^ shift) (2 ^ 64 - 1)
  let capped := min expDelay config.maxDelayMs.toNat
  let jitterMultiplier := 1 + config.jitterFraction * (2 * jitterSeed - 1)
  let jittered := roundToU64 ((capped : Rat) * jitterMultiplier)
  min (max jittered 1) config.maxDelayMs.toNat

/-- `retry_after_hint`. -/
def retryAfterHint : LlmError → Option Nat
  | .rateLimited _ retryAfterMs => retryAfterMs
  | _ => none

namespace RetryProvider

variable {σ : Type} [Timer σ]

/-- The delay before the next attempt: the server's hint, or the backoff. -/
def delayFor (config : RetryConfig) (err : LlmError) (attempt : UInt32) (env : σ) : Nat × σ :=
  match retryAfterHint err with
  | some hint => (hint, env)
  | none =>
    let (seed, env) := Timer.random env
    (computeDelay config attempt seed, env)

/-- `for attempt in 0..=max_retries`, with the attempts that are left. -/
def attempts (inner : DynProvider σ) (config : RetryConfig) (req : CompletionRequest) :
    Nat → UInt32 → Option LlmError → Option Nat → σ →
      Answer (Except LlmError CompletionResponse) × σ
  | 0, _, lastErr, _, env =>
    (.ready (.error (lastErr.getD (.provider "retry" "retry loop exited without result"))), env)
  | left + 1, attempt, _, wait, env =>
    match inner.complete req wait env with
    | (.ready (.error err), env') =>
      if !isTransient err || attempt == config.maxRetries then (.ready (.error err), env')
      else
        let (delayMs, env') := delayFor config err attempt env'
        match Timer.sleepWithin (Timer.remaining wait env env') delayMs env' with
        -- the caller gives up while the wrapper sleeps
        | none => (.pending, env')
        | some (wait, env') => attempts inner config req left (attempt + 1) (some err) wait env'
    | answered => answered

/-- `RetryProvider::new`, as the provider it is. -/
def layer (config : RetryConfig) (inner : DynProvider σ) : DynProvider σ where
  modelName := inner.modelName
  complete req wait env := attempts inner config req (config.maxRetries.toNat + 1) 0 none wait env
  capabilities := inner.capabilities

end RetryProvider

end PgSynapse
