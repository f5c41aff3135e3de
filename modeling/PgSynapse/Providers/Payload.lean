import PgSynapse.OpenAi.Payload

/-!
# The request bodies of the other two providers

`build_payload` of `pg-synapse-provider-anthropic` and `pg-synapse-provider-llama-cpp`.  llama.cpp
speaks OpenAI's wire format with small differences, so it shares the encoding of a row and the
merging of the extras; the Messages API has roles and blocks of its own.
-/

namespace PgSynapse

/-- The fields of `AnthropicProvider` that the body is built from. -/
structure AnthropicProvider where
  model : String
  promptCaching : Bool
  deriving DecidableEq, Repr

/-- The field of `LlamaCppProvider` that the body is built from. -/
structure LlamaCppProvider where
  model : String
  deriving DecidableEq, Repr

/-- The request's model, unless it is absent or empty. -/
def CompletionRequest.modelOr (req : CompletionRequest) (dflt : String) : String :=
  match req.model with
  | some m => if m.isEmpty then dflt else m
  | none => dflt

/-! ### Anthropic -/

namespace AnthropicProvider

/-- A plain text message. -/
def textEntry (role : String) (m : Message) : Value :=
  .obj [("role", .string role), ("content", .string (m.content.getD ""))]

/-- A tool answer: a user message with a `tool_result` block. -/
def toolResultEntry (tcid : String) (m : Message) : Value :=
  .obj [("role", .string "user"), ("content", .array [.obj [("type", .string "tool_result"),
    ("tool_use_id", .string tcid), ("content", .string (toolContent m))]])]

/-- A text block. -/
def textBlock (text : String) : Value := .obj [("type", .string "text"), ("text", .string text)]

/-- A tool call: an assistant message with a `tool_use` block, after the text if there is any. -/
def toolUseEntry (tcid name : String) (m : Message) : Value :=
  let text := (m.content.filter fun t => !t.isEmpty).toList.map textBlock
  let input := m.toolInput.getD (.obj [])
  .obj [("role", .string "assistant"), ("content", .array (text ++ [.obj [
    ("type", .string "tool_use"), ("id", .string tcid), ("name", .string name),
    ("input", input)]]))]

/-- The encoding of one row; system rows are not messages here. -/
def payloadMessage (m : Message) : Option Value :=
  match m.role, m.toolCallId, m.toolName with
  | .system, _, _ => none
  | .user, some tcid, _ => some (toolResultEntry tcid m)
  | .user, none, _ => some (textEntry "user" m)
  | .assistant, some tcid, some name => some (toolUseEntry tcid name m)
  | .assistant, _, _ => some (textEntry "assistant" m)
  | .tool, tcid, _ => some (toolResultEntry (tcid.getD "") m)

/-- The texts of the system rows. -/
def systemParts (messages : List Message) : List String :=
  (messages.filter fun m => m.role == .system).filterMap Message.content

/-- The `system` member: a text, or a block that may be cached. -/
def systemEntry (p : AnthropicProvider) (text : String) : Value :=
  if p.promptCaching then
    .array [.obj [("type", .string "text"), ("text", .string text),
      ("cache_control", .obj [("type", .string "ephemeral")])]]
  else .string text

/-- The entry of one tool in the `tools` array. -/
def toolEntry (td : ToolDefinition) : Value :=
  .obj [("name", .string td.name), ("description", .string td.description),
    ("input_schema", td.schema)]

/-- The keys of `params` that stay out of the body: the kernel's own, and those the factory reads. -/
def isInternal (key : String) : Bool :=
  key.startsWith "_" || key == "prompt_caching" || key == "base_url" || key == "api_key"

/-- The provider's extras. -/
def mergeParams (payload params : Value) : Value :=
  match params with
  | .object extra =>
    extra.foldl (fun p kv => if isInternal kv.1 then p else p.set kv.1 kv.2) payload
  | _ => payload

/-- `build_payload`. -/
def buildPayload (p : AnthropicProvider) (req : CompletionRequest) : Value :=
  let payload : Value := .obj [("model", .string (req.modelOr p.model)),
    ("max_tokens", .nat (req.maxTokens.getD defaultMaxTokens).toNat),
    ("messages", .array (req.messages.filterMap payloadMessage))]
  let parts := systemParts req.messages
  let payload := if parts.isEmpty then payload
    else payload.set "system" (p.systemEntry ("\n\n".intercalate parts))
  let payload := match req.temperature with
    | some t => payload.set "temperature" (.number t)
    | none => payload
  let payload := if req.tools.isEmpty then payload
    else payload.set "tools" (.array (req.tools.map toolEntry))
  mergeParams payload req.params

end AnthropicProvider

/-! ### llama.cpp -/

namespace LlamaCppProvider

/-- The encoding of one row: as for OpenAI, but a call row without content has the empty text, which
llama-cpp-python's validator asks for. -/
def messageEntry (m : Message) : Value :=
  match m.role, m.toolCallId, m.toolName with
  | .assistant, some _, some _ =>
    PgSynapse.messageEntry { m with content := some (m.content.getD "") }
  | _, _, _ => PgSynapse.messageEntry m

/-- The entry of one tool in the `tools` array. -/
def toolEntry (td : ToolDefinition) : Value :=
  .obj [("type", .string "function"), ("function", td.toOpenaiFunction)]

/-- `build_payload`. -/
def buildPayload (p : LlamaCppProvider) (req : CompletionRequest) (stream : Bool) : Value :=
  let payload : Value := .obj [("model", .string (req.modelOr p.model)),
    ("messages", .array (req.messages.map messageEntry))]
  let payload := match req.temperature with
    | some t => payload.set "temperature" (.number t)
    | none => payload
  let payload := match req.maxTokens with
    | some n => payload.set "max_tokens" (.nat n.toNat)
    | none => payload
  let payload := if stream then payload.set "stream" (.bool true) else payload
  let payload := if req.tools.isEmpty then payload
    else payload.set "tools" (.array (req.tools.map toolEntry))
  PgSynapse.mergeParams payload req.params

end LlamaCppProvider

end PgSynapse
