import PgSynapse.Types.Message

/-!
# Reading a provider's response

The second half of `complete` in the three provider plugins (`pg-synapse-provider-openai`,
`pg-synapse-provider-llama-cpp` and `pg-synapse-provider-anthropic`): from the JSON body of a
successful response to a `CompletionResponse`.  OpenAI and llama.cpp speak the same wire format and
share `readChoice`.

Costs are exact rationals where the source computes with `f64`.
-/

namespace PgSynapse

namespace Value

/-- `value.get(i)`, of an array. -/
def item? (v : Value) (i : Nat) : Option Value := v.asArray?.bind fun items => items[i]?

/-- `value.as_u64()`. -/
def asU64? : Value → Option Nat
  | .number (.int (.ofNat n)) => some n
  | _ => none

/-- `value.is_null()`. -/
def isNull : Value → Bool
  | .null => true
  | _ => false

/-- `value.get(key).and_then(|v| v.as_str()).unwrap_or(dflt).to_string()`. -/
def strOr (v : Value) (key dflt : String) : String := ((v.get? key).bind asStr?).getD dflt

/-- `value.get(key).and_then(|v| v.as_u64()).unwrap_or(0) as u32`. -/
def count (v : Value) (key : String) : UInt32 :=
  UInt32.ofNat (((v.get? key).bind asU64?).getD 0)

end Value

/-- What reading a response leaves to other code: `serde_json::from_str`, and the calls
`extract_tool_calls_from_content` finds in a text, given the names of the tools. -/
structure ResponseReader where
  fromStr : String → Option Value
  extract : String → List String → List ToolCall

/-- `cost_per_million_in` and `cost_per_million_out`. -/
structure CostRates where
  perMillionIn : Option Rat
  perMillionOut : Option Rat

/-- `compute_cost`. -/
def CostRates.computeCost (rates : CostRates) (tokensIn tokensOut : UInt32) : Option Rat :=
  match rates.perMillionIn, rates.perMillionOut with
  | some ci, some co =>
    some ((tokensIn.toNat : Rat) / 1000000 * ci + (tokensOut.toNat : Rat) / 1000000 * co)
  | _, _ => none

namespace ResponseReader

variable (reader : ResponseReader)

/-- One entry of the `tool_calls` array.  Arguments that are no JSON text are kept as they are. -/
def wireCall (tc : Value) : ToolCall :=
  let func := (tc.get? "function").getD .null
  let args := func.strOr "arguments" "\x7b\x7d"
  { id := tc.strOr "id" "", name := func.strOr "name" "",
    args := (reader.fromStr args).getD (.obj [("_raw", .string args)]) }

/-- The calls of a message: those of its `tool_calls`, or, when there are none and the request
offered tools, those found in its content. -/
def callsOf (tools : List ToolDefinition) (message : Value) (content : Option String) :
    List ToolCall :=
  let calls := (((message.get? "tool_calls").bind Value.asArray?).getD []).map reader.wireCall
  if calls.isEmpty && !tools.isEmpty then
    match content with
    | some text =>
      if text.isEmpty then calls
      else
        let extracted := reader.extract text (tools.map ToolDefinition.name)
        if extracted.isEmpty then calls else extracted
    | none => calls
  else calls

/-- A chat-completion body: the first choice, read with the provider's own view of its content and
its own prices. -/
def readChoice (provider : String) (contentOf : Value → Option String)
    (costOf : UInt32 → UInt32 → Option Rat) (tools : List ToolDefinition) (body : Value) :
    Except LlmError CompletionResponse :=
  match (body.get? "choices").bind fun choices => choices.item? 0 with
  | none => .error (.provider provider "no choices in response")
  | some first =>
    match first.get? "message" with
    | none => .error (.provider provider "no message in choice[0]")
    | some message =>
      let content := contentOf message
      let usage := (body.get? "usage").getD .null
      let tokensIn := usage.count "prompt_tokens"
      let tokensOut := usage.count "completion_tokens"
      .ok { content := content
            toolCalls := reader.callsOf tools message content
            finishReason := first.strOr "finish_reason" "stop"
            usage := ⟨tokensIn, tokensOut, costOf tokensIn tokensOut⟩ }

end ResponseReader

namespace OpenAiProvider

/-- The content of a message: `null` is the empty text, for reasoning models that only thought. -/
def contentOf (message : Value) : Option String :=
  (((message.get? "content").bind Value.asStr?)).or
    (if ((message.get? "content").map Value.isNull).getD false then some "" else none)

/-- `OpenAiProvider::complete`, from the body of the response. -/
def decode (reader : ResponseReader) (rates : CostRates) (tools : List ToolDefinition)
    (body : Value) : Except LlmError CompletionResponse :=
  reader.readChoice "openai" contentOf rates.computeCost tools body

end OpenAiProvider

namespace LlamaCppProvider

/-- The content of a message. -/
def contentOf (message : Value) : Option String := (message.get? "content").bind Value.asStr?

/-- `LlamaCppProvider::complete`, from the body of the response. -/
def decode (reader : ResponseReader) (tools : List ToolDefinition) (body : Value) :
    Except LlmError CompletionResponse :=
  reader.readChoice "llama-cpp" contentOf (fun _ _ => none) tools body

end LlamaCppProvider

namespace AnthropicProvider

/-- The text of a content block, when it is a text block that has one. -/
def blockText? (block : Value) : Option String :=
  if block.strOr "type" "" = "text" then (block.get? "text").bind Value.asStr? else none

/-- The call of a content block, when it is a tool-use block. -/
def blockCall? (block : Value) : Option ToolCall :=
  if block.strOr "type" "" = "tool_use" then
    some { id := block.strOr "id" "", name := block.strOr "name" "",
           args := (block.get? "input").getD (.obj []) }
  else none

/-- `AnthropicProvider::complete`, from the body of the response. -/
def decode (body : Value) : Except LlmError CompletionResponse :=
  let blocks := ((body.get? "content").bind Value.asArray?).getD []
  let texts := blocks.filterMap blockText?
  let usage := (body.get? "usage").getD .null
  .ok { content := if texts.isEmpty then none else some ("".intercalate texts)
        toolCalls := blocks.filterMap blockCall?
        finishReason := body.strOr "stop_reason" "end_turn"
        usage := ⟨usage.count "input_tokens", usage.count "output_tokens", none⟩ }

end AnthropicProvider

end PgSynapse
