import Mathlib.Algebra.Group.Nat.Defs
import PgSynapse.Serde.Value

/-!
# Messages, tool calls and completions

The records the executor, the providers and the tools exchange (`types/message.rs`, `types/llm.rs`,
`types/tool.rs`).  `u32` counters are `UInt32`; a wall-clock timestamp is kept as the RFC 3339 text
`serde` writes for it; costs are exact rationals.
-/

namespace PgSynapse

/-- `uuid::Uuid`. -/
structure Uuid where
  val : BitVec 128
  deriving DecidableEq, Repr, Inhabited

/-- The hyphenated lowercase form, `8-4-4-4-12` hexadecimal digits. -/
def Uuid.text (u : Uuid) : String :=
  let digit (i : Nat) : Char := Nat.digitChar (u.val.toNat / 16 ^ (31 - i) % 16)
  let group (start len : Nat) : List Char := (List.range len).map fun i => digit (start + i)
  String.ofList (group 0 8 ++ '-' :: group 8 4 ++ '-' :: group 12 4 ++ '-' :: group 16 4 ++
    '-' :: group 20 12)

/-- Role of a `Message` within a conversation. -/
inductive Role where
  | system
  | user
  | assistant
  | tool
  deriving DecidableEq, Repr

/-- The lowercase spelling `serde` gives a role. -/
def Role.text : Role → String
  | .system => "system"
  | .user => "user"
  | .assistant => "assistant"
  | .tool => "tool"

/-- One row of the conversation log. -/
structure Message where
  executionId : Uuid
  seq : UInt32
  role : Role
  content : Option String
  toolCallId : Option String
  toolName : Option String
  toolInput : Option Value
  toolOutput : Option Value
  timestamp : String
  deriving DecidableEq, Repr

/-- `serde_json::to_value` of a message. -/
def Message.toValue (m : Message) : Value :=
  .obj [("execution_id", .string m.executionId.text), ("seq", .nat m.seq.toNat),
    ("role", .string m.role.text), ("content", .ofOption m.content),
    ("tool_call_id", .ofOption m.toolCallId), ("tool_name", .ofOption m.toolName),
    ("tool_input", m.toolInput.getD .null), ("tool_output", m.toolOutput.getD .null),
    ("timestamp", .string m.timestamp)]

/-- One tool call issued by the model. -/
structure ToolCall where
  id : String
  name : String
  args : Value
  deriving DecidableEq, Repr

/-- `serde_json::to_value` of a tool call. -/
def ToolCall.toValue (tc : ToolCall) : Value :=
  .obj [("id", .string tc.id), ("name", .string tc.name), ("args", tc.args)]

/-- A tool advertised to the model; the schema is its JSON Schema document. -/
structure ToolDefinition where
  name : String
  description : String
  schema : Value
  deriving DecidableEq, Repr

/-- One LLM completion request.  The sampling temperature is never set by the executors and is
carried as the JSON number it is sent as. -/
structure CompletionRequest where
  messages : List Message
  tools : List ToolDefinition
  model : Option String
  temperature : Option Number
  maxTokens : Option UInt32
  params : Value
  deriving DecidableEq, Repr

/-- Token and cost accounting for one LLM call. -/
structure Usage where
  tokensIn : UInt32
  tokensOut : UInt32
  costUsd : Option Rat
  deriving DecidableEq, Repr

/-- Synchronous completion response. -/
structure CompletionResponse where
  content : Option String
  toolCalls : List ToolCall
  finishReason : String
  usage : Usage
  deriving DecidableEq, Repr

/-- What a tool returned to the executor. -/
inductive ToolOutput where
  | text (s : String)
  | json (v : Value)
  | empty
  deriving DecidableEq, Repr

/-- Context passed to every tool run. -/
structure ToolCtx where
  executionId : Uuid
  callerRole : Option String
  agentName : Option String
  deriving DecidableEq, Repr

/-! ### Errors -/

/-- Failures from a tool run or a registry lookup. -/
inductive ToolError where
  | notFound (name : String)
  | invalidInput (name reason : String)
  | execution (name reason : String)
  | timeout (name : String) (timeoutMs : Nat)
  | mcp (reason : String)
  deriving DecidableEq, Repr

/-- The `Display` text of a tool error. -/
def ToolError.text : ToolError → String
  | .notFound name => "tool '" ++ name ++ "' not found in registry"
  | .invalidInput name reason => "invalid input for tool '" ++ name ++ "': " ++ reason
  | .execution name reason => "tool '" ++ name ++ "' execution failed: " ++ reason
  | .timeout name ms => "tool '" ++ name ++ "' timed out after " ++ toString ms ++ "ms"
  | .mcp reason => "mcp protocol error: " ++ reason

/-- Failures from a provider call. -/
inductive LlmError where
  | provider (provider reason : String)
  | auth (provider : String)
  | rateLimited (provider : String) (retryAfterMs : Option Nat)
  | contextLengthExceeded (model : String) (tokens limit : UInt32)
  | responseTruncated (model : String) (tokensOut : UInt32)
  | network (reason : String)
  deriving DecidableEq, Repr

/-- Failures that surface from an executor; the variants the three executors produce. -/
inductive ExecutorError where
  | maxIterationsReached (max : UInt32)
  | timeout (ms : Nat)
  | cancelled (reason : String)
  | costCapExceeded (cap spent : Rat)
  | tool (e : ToolError)
  | llm (e : LlmError)
  deriving DecidableEq, Repr

/-! ### Trace events -/

/-- The category of an execution event. -/
inductive EventKind where
  | llmRequest
  | llmResponse
  | toolStart
  | toolEnd
  | toolError
  | emptyTurn
  | repeatedToolCall
  | retryAttempt
  | costCapCheck
  | iterationCapCheck
  | timeoutCheck
  deriving DecidableEq, Repr

/-- A single structured event recorded during a run. -/
structure ExecutionEvent where
  kind : EventKind
  payload : Value
  deriving DecidableEq, Repr

/-- How much detail a run persists. -/
inductive TraceLevel where
  | off
  | error
  | info
  | debug
  | full
  deriving DecidableEq, Repr

/-- `TraceLevel::should_persist_raw_payloads`. -/
def TraceLevel.shouldPersistRawPayloads : TraceLevel → Bool
  | .full => true
  | _ => false

/-! ### Outcome -/

/-- Reason a run ended. -/
inductive OutcomeStatus where
  | completed
  | maxIterations
  | timedOut
  | costCapExceeded
  | errored (detail : String)
  deriving DecidableEq, Repr

/-- Result envelope of one executor run. -/
structure ExecutorOutcome where
  output : String
  messages : List Message
  toolCalls : List ToolCall
  tokensIn : UInt32
  tokensOut : UInt32
  costUsd : Option Rat
  durationMs : Nat
  status : OutcomeStatus
  events : List ExecutionEvent
  deriving DecidableEq, Repr

/-- `ExecutorOutcome::default()`. -/
def ExecutorOutcome.default : ExecutorOutcome where
  output := ""
  messages := []
  toolCalls := []
  tokensIn := 0
  tokensOut := 0
  costUsd := none
  durationMs := 0
  status := .completed
  events := []

end PgSynapse
