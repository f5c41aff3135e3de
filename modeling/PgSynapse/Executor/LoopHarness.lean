import PgSynapse.Types.Context

/-!
# `LoopHarness`: the bookkeeping every executor shares

A translation of `executor/loop_harness.rs`.  The `&mut self` methods are functions from harness to
harness; the world the run acts on travels in the harness, in the field `world`.

`u32` counters wrap, as they do in the release profile (the workspace does not turn overflow checks
on there).
-/

namespace PgSynapse

/-- `u32::saturating_add`. -/
def saturatingAdd (a b : UInt32) : UInt32 :=
  if a.toNat + b.toNat < 2 ^ 32 then a + b else UInt32.ofNat (2 ^ 32 - 1)

/-- Result of one LLM turn. -/
inductive TurnResult where
  | assistantText (text : String)
  | toolCalls (calls : List ToolCall)
  | empty
  deriving DecidableEq, Repr

/-- How a fallible asynchronous method came back: a value, a typed error, an unwinding panic, or
not at all because a call it awaits never returns. -/
inductive Flow (α : Type) where
  | ok (a : α)
  | err (e : ExecutorError)
  | panicked (payload : Option String)
  | suspended
  deriving DecidableEq, Repr

/-- Loop bookkeeping of one executor run. -/
structure LoopHarness (σ : Type) where
  ctx : ExecutionContext σ
  iteration : UInt32
  costSoFar : Rat
  tokensIn : UInt32
  tokensOut : UInt32
  messages : List Message
  issuedToolCalls : List ToolCall
  events : List ExecutionEvent
  seq : UInt32
  startedAt : Nat
  prependSystem : Option String
  world : World σ

/-- `repeated_call_refusal`: the third identical call is refused.  `prior` includes the call being
dispatched. -/
def repeatedCallRefusal (prior : List ToolCall) (tc : ToolCall) : Option String :=
  let seen := (prior.filter fun p => p.name == tc.name && decide (p.args = tc.args)).length
  if seen > 2 then
    some ("Refused: you have already called `" ++ tc.name ++ "` " ++ toString (seen - 1) ++
      " times with exactly these arguments and got the same result each time. Calling it again " ++
      "will not change the answer. Use what you already have, or do something different.")
  else none

/-- `Duration::as_millis() as u64`, of a duration in nanoseconds. -/
def asMillis (d : Nat) : Nat := d / 1000000 % 2 ^ 64

namespace LoopHarness

variable {σ : Type} [Platform σ]

/-! ### Clocks -/

/-- `Utc::now()`. -/
def utcNow (h : LoopHarness σ) : String × LoopHarness σ :=
  let (t, env) := Platform.utcNow h.world.env
  (t, { h with world := { h.world with env := env } })

/-- `self.started_at.elapsed()`. -/
def elapsed (h : LoopHarness σ) : Nat × LoopHarness σ :=
  let (t, env) := Platform.instantNow h.world.env
  (t - h.startedAt, { h with world := { h.world with env := env } })

/-! ### Construction -/

/-- `LoopHarness::new`. -/
def new (ctx : ExecutionContext σ) (env : σ) : LoopHarness σ :=
  let (t, env) := Platform.instantNow env
  { ctx := ctx, iteration := 0, costSoFar := 0, tokensIn := 0, tokensOut := 0, messages := [],
    issuedToolCalls := [], events := [], seq := 0, startedAt := t, prependSystem := none,
    world := { env := env, effects := [], sink := .default } }

/-- `LoopHarness::new_with_prefix`. -/
def newWithPrefix (ctx : ExecutionContext σ) (pre : String) (env : σ) : LoopHarness σ :=
  { new ctx env with prependSystem := some pre }

/-! ### Recording -/

/-- Copy an update into the progress sink, when the host set one. -/
def mirror (h : LoopHarness σ) (f : ExecutorOutcome → ExecutorOutcome) : LoopHarness σ :=
  if h.ctx.progress then { h with world := { h.world with sink := f h.world.sink } } else h

/-- `record_event`. -/
def recordEvent (h : LoopHarness σ) (kind : EventKind) (payload : Value) : LoopHarness σ :=
  let ev : ExecutionEvent := { kind := kind, payload := payload }
  let h := h.mirror fun o => { o with events := o.events ++ [ev] }
  { h with events := h.events ++ [ev] }

/-- `new_message`: a blank row of the given role; `append` sets `seq`. -/
def newMessage (h : LoopHarness σ) (role : Role) : Message × LoopHarness σ :=
  let (now, h) := h.utcNow
  ({ executionId := h.ctx.executionId, seq := 0, role := role, content := none,
     toolCallId := none, toolName := none, toolInput := none, toolOutput := none,
     timestamp := now }, h)

/-- `append`. -/
def append (h : LoopHarness σ) (msg : Message) : LoopHarness σ :=
  let msg := { msg with seq := h.seq }
  let h := { h with seq := h.seq + 1 }
  let h := h.mirror fun o => { o with messages := o.messages ++ [msg] }
  { h with messages := h.messages ++ [msg] }

/-- `push_message`. -/
def pushMessage (h : LoopHarness σ) (role : Role) (content : Option String)
    (toolOutput : Option Value) : LoopHarness σ :=
  let (msg, h) := h.newMessage role
  h.append { msg with content := content, toolOutput := toolOutput }

/-- `push_user_message`. -/
def pushUserMessage (h : LoopHarness σ) (content : String) : LoopHarness σ :=
  h.pushMessage .user (some content) none

/-- The parts of the system message: prefix, system prompt and soul when not blank, then the
always-on block. -/
def systemParts (h : LoopHarness σ) : List String :=
  (h.prependSystem.filter fun p => !Text.isBlank p).toList ++
    (if Text.isBlank h.ctx.systemPrompt then [] else [h.ctx.systemPrompt]) ++
    (h.ctx.soul.filter fun s => !Text.isBlank s).toList ++
    h.ctx.harness.alwaysOnBlock.toList

/-- `seed_messages`. -/
def seedMessages (h : LoopHarness σ) : LoopHarness σ :=
  let parts := h.systemParts
  let h := if parts.isEmpty then h
    else h.pushMessage .system (some ("\n".intercalate parts)) none
  h.pushMessage .user (some h.ctx.input) none

/-- `record_usage`. -/
def recordUsage (h : LoopHarness σ) (resp : CompletionResponse) : LoopHarness σ :=
  let h := { h with
    tokensIn := saturatingAdd h.tokensIn resp.usage.tokensIn
    tokensOut := saturatingAdd h.tokensOut resp.usage.tokensOut
    costSoFar := h.costSoFar + resp.usage.costUsd.getD 0 }
  let (spent, h) := h.elapsed
  h.mirror fun o => { o with
    tokensIn := h.tokensIn
    tokensOut := h.tokensOut
    costUsd := if h.costSoFar > 0 then some h.costSoFar else none
    durationMs := asMillis spent }

/-- The row of one tool call: an assistant message that carries the call and no content. -/
def pushCallRow (h : LoopHarness σ) (tc : ToolCall) : LoopHarness σ :=
  let (msg, h) := h.newMessage .assistant
  h.append { msg with
    toolCallId := some tc.id, toolName := some tc.name, toolInput := some tc.args }

/-- `record_assistant_response`: one row with the text when the reply has no tool calls, else one
row per call. -/
def recordAssistantResponse (h : LoopHarness σ) (resp : CompletionResponse) : LoopHarness σ :=
  if resp.toolCalls.isEmpty then
    h.pushMessage .assistant (some (resp.content.getD "")) none
  else resp.toolCalls.foldl pushCallRow h

/-- `push_tool_result`, with the message it returns a clone of: taken before `append`, so its
`seq` is still `0`. -/
def pushToolResult (h : LoopHarness σ) (tc : ToolCall) (output : ToolOutput) :
    Message × LoopHarness σ :=
  let (msg, h) := h.newMessage .tool
  let (content, json) : Option String × Option Value := match output with
    | .text s => (some s, some (.string s))
    | .json v => (some v.toText, some v)
    | .empty => (none, none)
  let msg := { msg with
    toolCallId := some tc.id, toolName := some tc.name, toolInput := some tc.args,
    content := content, toolOutput := json }
  (msg, h.append msg)

/-- The text of a failed call: the error, then the matching hint, if any. -/
def toolErrorText (h : LoopHarness σ) (tc : ToolCall) (err : ToolError) : String :=
  let text := "ERROR: " ++ err.text
  match h.ctx.harness.hintFor (Platform.toLowercase σ) tc.name err.text with
  | some hint => text ++ "\nHINT: " ++ hint
  | none => text

/-- `push_tool_error`. -/
def pushToolError (h : LoopHarness σ) (tc : ToolCall) (err : ToolError) : LoopHarness σ :=
  let text := h.toolErrorText tc err
  let (msg, h) := h.newMessage .tool
  let h := h.append { msg with
    toolCallId := some tc.id, toolName := some tc.name, toolInput := some tc.args,
    content := some text, toolOutput := some (.obj [("error", .string text)]) }
  h.recordEvent .toolError (.obj [("tool", .string tc.name), ("call_id", .string tc.id),
    ("error", .string err.text)])

/-- The corrective message after a turn with neither a tool call nor a text. -/
def emptyTurnNudge : String :=
  "Your last response had no tool call and no text. If you are finished, reply with your final " ++
  "answer as plain text. Otherwise, call a tool to continue."

/-- `push_empty_turn_nudge`. -/
def pushEmptyTurnNudge (h : LoopHarness σ) : LoopHarness σ :=
  (h.pushUserMessage emptyTurnNudge).recordEvent .emptyTurn (.obj [])

/-! ### Checks -/

/-- `check_interrupt`. -/
def checkInterrupt (h : LoopHarness σ) : Except ExecutorError Unit × LoopHarness σ :=
  match h.ctx.interruptCheck with
  | none => (.ok (), h)
  | some check =>
    let (reason, env) := check h.world.env
    let h := { h with world := { h.world with env := env } }
    match reason with
    | some r => (.error (.cancelled r), h)
    | none => (.ok (), h)

/-- `check_cost_cap`. -/
def checkCostCap (h : LoopHarness σ) : Except ExecutorError Unit :=
  match h.ctx.costCapUsd with
  | some cap =>
    if h.costSoFar ≥ cap then .error (.costCapExceeded cap h.costSoFar) else .ok ()
  | none => .ok ()

/-- `check_iteration_cap`. -/
def checkIterationCap (h : LoopHarness σ) : Except ExecutorError Unit × LoopHarness σ :=
  if h.iteration > h.ctx.maxIterations then
    (.error (.maxIterationsReached h.ctx.maxIterations),
      h.recordEvent .iterationCapCheck (.obj [("iteration", .nat h.iteration.toNat),
        ("max", .nat h.ctx.maxIterations.toNat), ("tripped", .bool true)]))
  else (.ok (), h)

/-- `remaining_budget`: at least one millisecond, `none` when the run has no budget. -/
def remainingBudget (h : LoopHarness σ) : Option Nat × LoopHarness σ :=
  if h.ctx.timeout = 0 then (none, h)
  else
    let (spent, h) := h.elapsed
    (some (max (h.ctx.timeout - spent) 1000000), h)

/-- `check_deadline`. -/
def checkDeadline (h : LoopHarness σ) : Except ExecutorError Unit × LoopHarness σ :=
  if h.ctx.timeout = 0 then (.ok (), h)
  else
    let (spent, h) := h.elapsed
    if spent ≥ h.ctx.timeout then
      (.error (.timeout (asMillis spent)),
        h.recordEvent .timeoutCheck (.obj [("elapsed_ms", .nat (asMillis spent)),
          ("budget_ms", .nat (asMillis h.ctx.timeout)), ("tripped", .bool true)]))
    else (.ok (), h)

/-- `bump_iteration`. -/
def bumpIteration (h : LoopHarness σ) : LoopHarness σ :=
  { h with iteration := h.iteration + 1 }

/-- `finalize`. -/
def finalize (h : LoopHarness σ) (output : String) (status : OutcomeStatus) :
    ExecutorOutcome × LoopHarness σ :=
  let (spent, h) := h.elapsed
  ({ output := output, messages := h.messages, toolCalls := h.issuedToolCalls,
     tokensIn := h.tokensIn, tokensOut := h.tokensOut,
     costUsd := if h.costSoFar > 0 then some h.costSoFar else none,
     durationMs := asMillis spent, status := status, events := h.events }, h)

/-! ### Turns -/

/-- `build_request`. -/
def buildRequest (h : LoopHarness σ) (model : String) : CompletionRequest where
  messages := h.messages
  tools := h.ctx.tools.names.filterMap fun name =>
    (h.ctx.tools.get name).map fun tool =>
      { name := name, description := "", schema := tool.schema }
  model := some model
  temperature := none
  maxTokens := none
  params := .null

/-- Await `provider.complete(req)`, for at most `wait`. -/
def awaitComplete (h : LoopHarness σ) (provider : LlmProvider σ) (req : CompletionRequest)
    (wait : Option Nat) : Answer (Except LlmError CompletionResponse) × LoopHarness σ :=
  let (answer, env) := provider.complete req wait h.world.env
  (answer, { h with world := { h.world with
    env := env, effects := h.world.effects ++ [.llm req answer] } })

/-- The payload of an `LlmRequest` event. -/
def requestPayload (h : LoopHarness σ) (model : String) (req : CompletionRequest) : Value :=
  let base : Value := .obj [("iteration", .nat h.iteration.toNat), ("model", .string model),
    ("messages", .nat req.messages.length), ("tools", .nat req.tools.length)]
  if h.ctx.traceLevel.shouldPersistRawPayloads then
    base.set "raw_messages" (.array (req.messages.map Message.toValue))
  else base

/-- The payload of an `LlmResponse` event. -/
def responsePayload (h : LoopHarness σ) (resp : CompletionResponse) : Value :=
  let base : Value := .obj [("iteration", .nat h.iteration.toNat),
    ("tokens_in", .nat resp.usage.tokensIn.toNat), ("tokens_out", .nat resp.usage.tokensOut.toNat),
    ("tool_calls", .nat resp.toolCalls.length),
    ("has_text", .bool (resp.content.any fun c => !c.isEmpty)),
    ("finish_reason", .string resp.finishReason)]
  if h.ctx.traceLevel.shouldPersistRawPayloads then
    (base.set "raw_content" (.ofOption resp.content)).set "raw_tool_calls"
      (.array (resp.toolCalls.map ToolCall.toValue))
  else base

/-- The part of `one_llm_turn_with` after the provider answered: trace and usage first, then the
truncation check, then the transcript rows. -/
def acceptResponse (h : LoopHarness σ) (model : String) (resp : CompletionResponse) :
    Flow TurnResult × LoopHarness σ :=
  let h := h.recordEvent .llmResponse (h.responsePayload resp)
  let h := h.recordUsage resp
  if resp.finishReason = "length" then
    -- the reply is paid for and traced, and none of it gets into the transcript
    (.err (.llm (.responseTruncated model resp.usage.tokensOut)), h)
  else
    let h := h.recordAssistantResponse resp
    if resp.toolCalls.isEmpty then
      let text := resp.content.getD ""
      if Text.isBlank text then (.ok .empty, h) else (.ok (.assistantText text), h)
    else
      let h := { h with issuedToolCalls := h.issuedToolCalls ++ resp.toolCalls }
      let h := h.mirror fun o => { o with toolCalls := o.toolCalls ++ resp.toolCalls }
      (.ok (.toolCalls resp.toolCalls), h)

/-- `one_llm_turn_with`. -/
def oneLlmTurnWith (h : LoopHarness σ) (provider : LlmProvider σ) :
    Flow TurnResult × LoopHarness σ :=
  match h.checkInterrupt with
  | (.error e, h) => (.err e, h)
  | (.ok (), h) =>
    let req := h.buildRequest provider.modelName
    let h := h.recordEvent .llmRequest (h.requestPayload provider.modelName req)
    let (wait, h) := h.remainingBudget
    match h.awaitComplete provider req wait with
    | (.ready (.ok resp), h) => h.acceptResponse provider.modelName resp
    | (.ready (.error e), h) => (.err (.llm e), h)
    | (.panicked p, h) => (.panicked p, h)
    | (.pending, h) =>
      match wait with
      -- without a budget nothing ends the wait
      | none => (.suspended, h)
      | some _ =>
        let (spent, h) := h.elapsed
        let h := h.recordEvent .timeoutCheck (.obj [("elapsed_ms", .nat (asMillis spent)),
          ("budget_ms", .nat (asMillis h.ctx.timeout)), ("tripped", .bool true),
          ("during", .string "llm_call")])
        (.err (.timeout (asMillis spent)), h)

/-- `one_llm_turn`: against the main provider. -/
def oneLlmTurn (h : LoopHarness σ) : Flow TurnResult × LoopHarness σ :=
  h.oneLlmTurnWith h.ctx.llm

/-- `panic_reason`, of a payload that is a text or something else. -/
def panicReason (payload : Option String) : String := payload.getD "unknown panic"

/-- Await `tool.run(args, ctx)`. -/
def awaitTool (h : LoopHarness σ) (tool : Tool σ) (tc : ToolCall) (toolCtx : ToolCtx) :
    Answer (Except ToolError ToolOutput) × LoopHarness σ :=
  let (answer, env) := tool.run tc.args toolCtx h.world.env
  (answer, { h with world := { h.world with
    env := env, effects := h.world.effects ++ [.tool tc toolCtx answer] } })

/-- The JSON of a tool output in a trace payload. -/
def outputValue : ToolOutput → Value
  | .text s => .string s
  | .json v => v
  | .empty => .null

/-- The part of `dispatch_tool_call` after the tool returned. -/
def settleToolCall (h : LoopHarness σ) (tc : ToolCall) :
    Except ToolError ToolOutput → Flow Message × LoopHarness σ
  | .ok output =>
    let base : Value := .obj [("tool", .string tc.name), ("call_id", .string tc.id),
      ("ok", .bool true)]
    let payload := if h.ctx.traceLevel.shouldPersistRawPayloads then
      base.set "output" (outputValue output) else base
    let (msg, h) := (h.recordEvent .toolEnd payload).pushToolResult tc output
    (.ok msg, h)
  | .error e => (.err (.tool e), h)

/-- `dispatch_tool_call`. -/
def dispatchToolCall (h : LoopHarness σ) (tc : ToolCall) : Flow Message × LoopHarness σ :=
  match repeatedCallRefusal h.issuedToolCalls tc with
  | some refusal =>
    let h := h.recordEvent .repeatedToolCall (.obj [("tool", .string tc.name),
      ("call_id", .string tc.id)])
    -- the refusal answers the call as the output of the tool would
    let (msg, h) := h.pushToolResult tc (.text refusal)
    (.ok msg, h)
  | none =>
    match h.ctx.tools.get tc.name with
    | none => (.err (.tool (.notFound tc.name)), h)
    | some tool =>
      let toolCtx : ToolCtx :=
        { executionId := h.ctx.executionId, callerRole := h.ctx.callerRole,
          agentName := some h.ctx.agentName }
      let base : Value := .obj [("tool", .string tc.name), ("call_id", .string tc.id)]
      let payload := if h.ctx.traceLevel.shouldPersistRawPayloads then
        base.set "args" tc.args else base
      let h := h.recordEvent .toolStart payload
      match h.awaitTool tool tc toolCtx with
      | (.ready result, h) => h.settleToolCall tc result
      -- `catch_unwind`: a panicking tool is an execution error of that tool.  `&panic` is taken as
      -- the box, which is no text, so its reason is never seen.
      | (.panicked _, h) =>
        h.settleToolCall tc (.error (.execution tc.name ("tool panicked: " ++ panicReason none)))
      | (.pending, h) => (.suspended, h)

end LoopHarness

end PgSynapse
