import PgSynapse.Llm.RetryLayer
import PgSynapse.Providers.Payload
import PgSynapse.Providers.Response

/-!
# `complete` of the bundled providers

From a completion request over one HTTP exchange to a response or an error
(`pg-synapse-provider-openai`, `pg-synapse-provider-anthropic` and `pg-synapse-provider-llama-cpp`).
The three share their control flow and differ in the values of `HttpProvider`.

The server is what answers a posted request; the client's own timeout is one of the ways a request
can fail.
-/

namespace PgSynapse

/-- `http::StatusCode`. -/
structure StatusCode where
  code : Nat
  valid : 100 ≤ code ∧ code < 1000
  deriving DecidableEq, Repr

/-- `status.is_success()`. -/
def StatusCode.isSuccess (s : StatusCode) : Bool := 200 ≤ s.code && s.code < 300

/-- What a posted request comes to: a transport failure, or the head of a response and its body, or
the error the body broke off with. -/
inductive HttpAnswer where
  | failed (reason : String)
  | received (status : StatusCode) (retryAfter : Option String) (body : Except String String)

/-- What the libraries supply: how a status is written, how a number and a JSON text are read, what
may stand in a header, the lowercase mapping, and the reading of a response.  A number too large for
`f64` may be any number out of range. -/
structure HttpLibrary where
  displayStatus : StatusCode → String
  parseF64 : String → Option Rat
  parseJson : String → Except String Value
  isHeaderName : String → Bool
  isHeaderValue : String → Bool
  toLowercase : String → String
  reader : ResponseReader

/-- A posted request. -/
structure HttpRequest where
  headers : List (String × String)
  body : Value
  deriving DecidableEq

/-- The server, as the client meets it. -/
structure HttpServer (σ : Type) where
  post : HttpRequest → Option Nat → σ → Answer HttpAnswer × σ

/-- `parse_retry_after`: a decimal number of seconds, as milliseconds. -/
def parseRetryAfter (lib : HttpLibrary) (header : Option String) : Option Nat :=
  (header.bind fun val => lib.parseF64 (Text.trim val)).bind fun secs =>
    if secs > 0 then some (roundToU64 (secs * 1000)) else none

/-- `map_http_error`. -/
def mapHttpError (lib : HttpLibrary) (provider : String) (status : StatusCode) (body : String)
    (retryAfterMs : Option Nat) : LlmError :=
  if status.code = 401 ∨ status.code = 403 then .auth provider
  else if status.code = 429 then .rateLimited provider retryAfterMs
  else .provider provider ("HTTP " ++ lib.displayStatus status ++ ": " ++ body)

/-- What sets a provider apart. -/
structure HttpProvider where
  name : String
  headers : Except LlmError (List (String × String))
  buildPayload : CompletionRequest → Value
  retryAfter : Option String → Option Nat
  decode : List ToolDefinition → Value → Except LlmError CompletionResponse

namespace HttpProvider

/-- `complete`, from the answer of the server on. -/
def read (lib : HttpLibrary) (p : HttpProvider) (tools : List ToolDefinition) :
    HttpAnswer → Except LlmError CompletionResponse
  | .failed reason => .error (.network reason)
  | .received status retryAfter body =>
    if status.isSuccess then
      match body.bind lib.parseJson with
      | .error e => .error (.provider p.name ("invalid JSON: " ++ e))
      | .ok v => p.decode tools v
    else
      .error (mapHttpError lib p.name status (body.toOption.getD "") (p.retryAfter retryAfter))

/-- `complete`. -/
def complete {σ : Type} (lib : HttpLibrary) (p : HttpProvider) (server : HttpServer σ)
    (req : CompletionRequest) (wait : Option Nat) (env : σ) :
    Answer (Except LlmError CompletionResponse) × σ :=
  match p.headers with
  -- nothing is sent
  | .error e => (.ready (.error e), env)
  | .ok headers =>
    match server.post ⟨headers, p.buildPayload req⟩ wait env with
    | (.ready answer, env) => (.ready (p.read lib req.tools answer), env)
    | (.panicked payload, env) => (.panicked payload, env)
    | (.pending, env) => (.pending, env)

end HttpProvider

/-! ### The three providers -/

/-- The `Authorization` header. -/
def bearerHeader (lib : HttpLibrary) (provider : String) :
    Option String → Except LlmError (List (String × String))
  | none => .ok []
  | some key =>
    if lib.isHeaderValue ("Bearer " ++ key) then .ok [("authorization", "Bearer " ++ key)]
    else .error (.auth provider)

namespace OpenAiProvider

/-- One of the extra headers. -/
def extraHeader (lib : HttpLibrary) (header : String × String) :
    Except LlmError (String × String) :=
  if lib.isHeaderName header.1 then
    if lib.isHeaderValue header.2 then .ok header
    else .error (.provider "openai" ("invalid header value for " ++ header.1))
  else .error (.provider "openai" ("invalid header name: " ++ header.1))

/-- `build_headers`. -/
def buildHeaders (lib : HttpLibrary) (apiKey : Option String)
    (extraHeaders : List (String × String)) : Except LlmError (List (String × String)) := do
  let auth ← bearerHeader lib "openai" apiKey
  let extra ← extraHeaders.mapM (extraHeader lib)
  return ("content-type", "application/json") :: auth ++ extra

/-- `OpenAiProvider`, as an HTTP provider. -/
def http (lib : HttpLibrary) (p : OpenAiProvider) (apiKey : Option String)
    (extraHeaders : List (String × String)) (rates : CostRates) : HttpProvider where
  name := "openai"
  headers := buildHeaders lib apiKey extraHeaders
  buildPayload req := p.buildPayload lib.toLowercase req false
  retryAfter := parseRetryAfter lib
  decode := OpenAiProvider.decode lib.reader rates

end OpenAiProvider

namespace LlamaCppProvider

/-- `build_headers`. -/
def buildHeaders (lib : HttpLibrary) (apiKey : Option String) :
    Except LlmError (List (String × String)) := do
  let auth ← bearerHeader lib "llama-cpp" apiKey
  return ("content-type", "application/json") :: auth

/-- `LlamaCppProvider`, as an HTTP provider. -/
def http (lib : HttpLibrary) (p : LlamaCppProvider) (apiKey : Option String) : HttpProvider where
  name := "llama-cpp"
  headers := buildHeaders lib apiKey
  buildPayload req := p.buildPayload req false
  retryAfter _ := none
  decode := LlamaCppProvider.decode lib.reader

end LlamaCppProvider

namespace AnthropicProvider

/-- `build_headers`. -/
def buildHeaders (lib : HttpLibrary) (apiKey : Option String) :
    Except LlmError (List (String × String)) :=
  let fixed := [("content-type", "application/json"), ("anthropic-version", "2023-06-01")]
  match apiKey with
  | none => .ok fixed
  | some key =>
    if lib.isHeaderValue key then .ok (fixed ++ [("x-api-key", key)])
    else .error (.auth "anthropic")

/-- `AnthropicProvider`, as an HTTP provider. -/
def http (lib : HttpLibrary) (p : AnthropicProvider) (apiKey : Option String) : HttpProvider where
  name := "anthropic"
  headers := buildHeaders lib apiKey
  buildPayload := p.buildPayload
  retryAfter _ := none
  decode _ := AnthropicProvider.decode

end AnthropicProvider

/-- A bundled provider, with its configuration. -/
inductive BundledProvider where
  | openai (p : OpenAiProvider) (apiKey : Option String) (extraHeaders : List (String × String))
      (rates : CostRates)
  | anthropic (p : AnthropicProvider) (apiKey : Option String)
  | llamaCpp (p : LlamaCppProvider) (apiKey : Option String)

namespace BundledProvider

def http (lib : HttpLibrary) : BundledProvider → HttpProvider
  | .openai p apiKey extraHeaders rates => p.http lib apiKey extraHeaders rates
  | .anthropic p apiKey => p.http lib apiKey
  | .llamaCpp p apiKey => p.http lib apiKey

/-- `model_name`. -/
def modelName : BundledProvider → String
  | .openai p _ _ _ => p.model
  | .anthropic p _ => p.model
  | .llamaCpp p _ => p.model

/-- `capabilities`; llama.cpp says nothing. -/
def capabilities : BundledProvider → ProviderCapabilities
  | .openai .. => ⟨true, true, true, false, none, none⟩
  | .anthropic .. => ⟨true, true, true, true, none, none⟩
  | .llamaCpp .. => .default

/-- The provider the runtime holds. -/
def toDyn {σ : Type} (lib : HttpLibrary) (p : BundledProvider) (server : HttpServer σ) :
    DynProvider σ where
  modelName := p.modelName
  complete := (p.http lib).complete lib server
  capabilities := p.capabilities

end BundledProvider

end PgSynapse
