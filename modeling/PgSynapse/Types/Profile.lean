import PgSynapse.Types.Context

/-!
# Profile rows and the errors of the runtime

The rows a host reads from its configuration tables and hands to the kernel (`types/profile.rs`),
and the errors the `Runtime` facade returns (`error.rs`), with their `Display` texts.
-/

namespace PgSynapse

/-- A row of `llm_profiles`. -/
structure LlmProfileRow where
  name : String
  provider : String
  model : String
  apiKeySecret : Option String
  baseUrl : Option String
  params : Value
  deriving DecidableEq, Repr

/-- A row of `embedding_profiles`. -/
structure EmbeddingProfileRow where
  name : String
  provider : String
  model : String
  dimension : UInt32
  apiKeySecret : Option String
  baseUrl : Option String
  params : Value
  deriving DecidableEq, Repr

/-- A value of a type that has `NaN` and infinities. -/
inductive Extended (α : Type) where
  | finite (a : α)
  | nan
  | infinity (neg : Bool)
  deriving DecidableEq, Repr

/-- The text of a value that is no number. -/
def Extended.specialText {α : Type} : Extended α → String
  | .infinity false => "Infinity"
  | .infinity true => "-Infinity"
  | _ => "NaN"

/-- A row of `agents`, with its harness.  The cost cap is an `f64`. -/
structure AgentRow where
  name : String
  systemPrompt : String
  soul : Option String
  executorName : String
  llmProfileMain : Option String
  llmProfileSmall : Option String
  llmProfileJudge : Option String
  embeddingProfile : Option String
  tools : List String
  maxIterations : UInt32
  timeoutMs : UInt64
  costCapUsd : Option (Extended Rat)
  traceLevel : Option String
  components : Harness
  deriving DecidableEq, Repr

/-! ### Errors -/

/-- Failures during provider construction from a profile row. -/
inductive ProviderError where
  | notRegistered (name : String)
  | invalidProfile (provider reason : String)
  | secretNotFound (name : String)
  deriving DecidableEq, Repr

/-- Failures from the `Runtime` facade. -/
inductive RuntimeError where
  | agentNotFound (name : String)
  | executor (e : ExecutorError)
  | config (reason : String)
  | provider (e : ProviderError)
  deriving DecidableEq, Repr

/-- The `Debug` text of an optional number of milliseconds. -/
def debugMillis : Option Nat → String
  | none => "None"
  | some ms => "Some(" ++ toString ms ++ ")"

/-- The `Display` text of a provider call's error. -/
def LlmError.text : LlmError → String
  | .provider name reason => "provider error from " ++ name ++ ": " ++ reason
  | .auth name => "authentication failed for provider " ++ name
  | .rateLimited name retryAfterMs =>
    "rate limited by provider " ++ name ++ "; retry after " ++ debugMillis retryAfterMs ++ "ms"
  | .contextLengthExceeded model tokens limit =>
    "context length exceeded for model " ++ model ++ ": " ++ toString tokens.toNat ++ " > " ++
      toString limit.toNat
  | .responseTruncated model tokensOut =>
    "response from model " ++ model ++ " was cut off at " ++ toString tokensOut.toNat ++
      " output tokens (finish_reason=length); raise max_tokens in the LLM profile params or on " ++
      "the server"
  | .network reason => "network error: " ++ reason

/-- The `Display` text of an executor error; `usd` is how an `f64` amount is written. -/
def ExecutorError.text (usd : Rat → String) : ExecutorError → String
  | .maxIterationsReached max =>
    "max iterations (" ++ toString max.toNat ++ ") reached without termination"
  | .timeout ms => "timeout after " ++ toString ms ++ "ms"
  | .cancelled reason => "execution cancelled: " ++ reason
  | .costCapExceeded cap spent => "cost cap $" ++ usd cap ++ " exceeded at $" ++ usd spent
  | .tool e => "tool error: " ++ e.text
  | .llm e => "llm error: " ++ e.text

/-- The `Display` text of a provider construction error. -/
def ProviderError.text : ProviderError → String
  | .notRegistered name => "provider '" ++ name ++ "' not registered"
  | .invalidProfile name reason =>
    "invalid profile for provider '" ++ name ++ "': " ++ reason
  | .secretNotFound name => "secret '" ++ name ++ "' not found"

/-- The `Display` text of a runtime error. -/
def RuntimeError.text (usd : Rat → String) : RuntimeError → String
  | .agentNotFound name => "agent '" ++ name ++ "' not found"
  | .executor e => "executor: " ++ e.text usd
  | .config reason => "config: " ++ reason
  | .provider e => "provider: " ++ e.text

end PgSynapse
