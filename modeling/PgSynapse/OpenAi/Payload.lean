import PgSynapse.Types.Message

/-!
# `OpenAiProvider::build_payload`

The request body the OpenAI provider posts (`pg-synapse-provider-openai/src/client.rs`).  The
kernel's rows are encoded one by one, in order.
-/

namespace PgSynapse

/-- The fields of `OpenAiProvider` that the body is built from. -/
structure OpenAiProvider where
  model : String
  maxTokens : Option UInt32
  deriving DecidableEq, Repr

/-- `DEFAULT_MAX_TOKENS`. -/
def defaultMaxTokens : UInt32 := 4096

/-- `is_reasoning_model`. -/
def isReasoningModel (toLowercase : String → String) (model : String) : Bool :=
  let lower := toLowercase model
  lower.startsWith "gpt-5" || lower.startsWith "o1" || lower.startsWith "o3" ||
    lower.startsWith "o4"

/-- Whether a value is an object. -/
def Value.isObject : Value → Bool
  | .object _ => true
  | _ => false

mutual

/-- `sanitize_tool_schema`: `items` that is not an object becomes the string schema, at every
depth. -/
def sanitizeToolSchema : Value → Value
  | .object fields => .object (sanitizeFields fields)
  | .array items => .array (sanitizeItems items)
  | v => v

/-- The loop over `map.values_mut()`, with the replacement of `items` done in passing: the string
schema is its own sanitized form. -/
def sanitizeFields : List (String × Value) → List (String × Value)
  | [] => []
  | (k, v) :: rest =>
    (k, if k = "items" ∧ v.isObject = false then .obj [("type", .string "string")]
      else sanitizeToolSchema v) :: sanitizeFields rest

/-- The loop over the elements of an array. -/
def sanitizeItems : List Value → List Value
  | [] => []
  | v :: rest => sanitizeToolSchema v :: sanitizeItems rest

end

/-- `ToolDefinition::to_openai_function`. -/
def ToolDefinition.toOpenaiFunction (td : ToolDefinition) : Value :=
  .obj [("name", .string td.name), ("description", .string td.description),
    ("parameters", td.schema)]

/-- The entry of one tool in the `tools` array. -/
def toolEntry (td : ToolDefinition) : Value :=
  .obj [("type", .string "function"), ("function", sanitizeToolSchema td.toOpenaiFunction)]

/-- The text of a tool answer: its structured output when there is one, else its content. -/
def toolContent (m : Message) : String :=
  match m.toolOutput, m.content with
  | some v, _ => v.toText
  | none, some t => t
  | none, none => ""

/-- The encoding of one row. -/
def messageEntry (m : Message) : Value :=
  match m.role, m.toolCallId, m.toolName with
  | .tool, some tcid, _ =>
    .obj [("role", .string "tool"), ("content", .string (toolContent m)),
      ("tool_call_id", .string tcid)]
  | .tool, none, _ => .obj [("role", .string "tool"), ("content", .string (toolContent m))]
  | .assistant, some tcid, some name =>
    .obj [("role", .string "assistant"), ("content", .ofOption m.content),
      ("tool_calls", .array [.obj [("id", .string tcid), ("type", .string "function"),
        ("function", .obj [("name", .string name),
          ("arguments", .string ((m.toolInput.map Value.toText).getD "\x7b\x7d"))])]])]
  | role, _, _ => .obj [("role", .string role.text), ("content", .ofOption m.content)]

/-- The provider's extras: every member of `params` whose key does not start with `_`. -/
def mergeParams (payload params : Value) : Value :=
  match params with
  | .object extra =>
    extra.foldl (fun p kv => if kv.1.startsWith "_" then p else p.set kv.1 kv.2) payload
  | _ => payload

namespace OpenAiProvider

/-- The request's model, unless it is absent or empty. -/
def modelFor (p : OpenAiProvider) (req : CompletionRequest) : String :=
  match req.model with
  | some m => if m.isEmpty then p.model else m
  | none => p.model

/-- Temperature and token limit. -/
def withSampling (p : OpenAiProvider) (toLowercase : String → String) (req : CompletionRequest)
    (payload : Value) : Value :=
  let limit (dflt : UInt32) : Value :=
    .nat ((req.maxTokens.or p.maxTokens).getD dflt).toNat
  if isReasoningModel toLowercase (p.modelFor req) then
    payload.set "max_completion_tokens" (limit 2048)
  else
    let payload := match req.temperature with
      | some t => payload.set "temperature" (.number t)
      | none => payload
    payload.set "max_tokens" (limit defaultMaxTokens)

/-- `build_payload`. -/
def buildPayload (p : OpenAiProvider) (toLowercase : String → String) (req : CompletionRequest)
    (stream : Bool) : Value :=
  let payload : Value := .obj [("model", .string (p.modelFor req)),
    ("messages", .array (req.messages.map messageEntry))]
  let payload := p.withSampling toLowercase req payload
  let payload := if stream then payload.set "stream" (.bool true) else payload
  let payload := if req.tools.isEmpty then payload
    else payload.set "tools" (.array (req.tools.map toolEntry))
  mergeParams payload req.params

end OpenAiProvider

end PgSynapse
