import PgSynapse.Executor.Equiv.LoopHarness
import PgSynapse.Executor.Executors

/-!
# ReAct is Conversation with a longer system prompt

The system prompt and the prefix of a harness are read in `seed_messages` and nowhere else.
`reprompt` replaces both; every method after the seed commutes with it, so the ReAct loop follows
the conversation loop step by step (`react_simulates_conversation`).
-/

namespace PgSynapse

namespace LoopHarness

variable {σ : Type}

/-- The harness with another system prompt, and no prefix. -/
def reprompt (prompt : String) (h : LoopHarness σ) : LoopHarness σ :=
  { h with ctx := { h.ctx with systemPrompt := prompt }, prependSystem := none }

variable (prompt : String) (h : LoopHarness σ)

@[simp] theorem reprompt_world : (h.reprompt prompt).world = h.world := rfl

@[simp] theorem reprompt_messages : (h.reprompt prompt).messages = h.messages := rfl

@[simp] theorem reprompt_events : (h.reprompt prompt).events = h.events := rfl

theorem reprompt_systemPrompt : (h.reprompt prompt).ctx.systemPrompt = prompt := rfl

@[simp] theorem reprompt_input : (h.reprompt prompt).ctx.input = h.ctx.input := rfl

@[simp] theorem reprompt_timeout : (h.reprompt prompt).ctx.timeout = h.ctx.timeout := rfl

/-! ### Methods that do not read a clock -/

theorem mirror_reprompt (f : ExecutorOutcome → ExecutorOutcome) :
    (h.reprompt prompt).mirror f = (h.mirror f).reprompt prompt := by
  unfold mirror reprompt
  split <;> rfl

theorem recordEvent_reprompt (kind : EventKind) (payload : Value) :
    (h.reprompt prompt).recordEvent kind payload =
      (h.recordEvent kind payload).reprompt prompt := by
  unfold recordEvent
  simp only
  rw [mirror_reprompt]
  rfl

theorem append_reprompt (msg : Message) :
    (h.reprompt prompt).append msg = (h.append msg).reprompt prompt := by
  unfold append
  exact congrArg (fun m : LoopHarness σ =>
      { m with messages := m.messages ++ [{ msg with seq := h.seq }] })
    (mirror_reprompt prompt { h with seq := h.seq + 1 }
      fun o => { o with messages := o.messages ++ [{ msg with seq := h.seq }] })

theorem bumpIteration_reprompt :
    (h.reprompt prompt).bumpIteration = h.bumpIteration.reprompt prompt := rfl

theorem checkInterrupt_reprompt :
    (h.reprompt prompt).checkInterrupt =
      (h.checkInterrupt.1, h.checkInterrupt.2.reprompt prompt) := by
  cases hcheck : h.ctx.interruptCheck with
  | none => simp [checkInterrupt, reprompt, hcheck]
  | some check =>
    have hcheck' : (h.reprompt prompt).ctx.interruptCheck = some check := hcheck
    unfold checkInterrupt
    simp only [hcheck, hcheck', reprompt_world]
    cases (check h.world.env).1 <;> rfl

theorem checkCostCap_reprompt : (h.reprompt prompt).checkCostCap = h.checkCostCap := rfl

theorem checkIterationCap_reprompt :
    (h.reprompt prompt).checkIterationCap =
      (h.checkIterationCap.1, h.checkIterationCap.2.reprompt prompt) := by
  by_cases hcap : h.iteration > h.ctx.maxIterations
  · have hcap' : (h.reprompt prompt).iteration > (h.reprompt prompt).ctx.maxIterations := hcap
    unfold checkIterationCap
    rw [if_pos hcap, if_pos hcap', recordEvent_reprompt]
    rfl
  · have hcap' : ¬ (h.reprompt prompt).iteration > (h.reprompt prompt).ctx.maxIterations := hcap
    unfold checkIterationCap
    rw [if_neg hcap, if_neg hcap']

theorem awaitComplete_reprompt (provider : LlmProvider σ) (req : CompletionRequest)
    (wait : Option Nat) :
    (h.reprompt prompt).awaitComplete provider req wait =
      ((h.awaitComplete provider req wait).1,
        (h.awaitComplete provider req wait).2.reprompt prompt) := rfl

theorem awaitTool_reprompt (tool : Tool σ) (tc : ToolCall) (toolCtx : ToolCtx) :
    (h.reprompt prompt).awaitTool tool tc toolCtx =
      ((h.awaitTool tool tc toolCtx).1, (h.awaitTool tool tc toolCtx).2.reprompt prompt) := rfl

variable [Platform σ]

/-! ### Clocks and rows -/

theorem elapsed_reprompt :
    (h.reprompt prompt).elapsed = (h.elapsed.1, h.elapsed.2.reprompt prompt) := rfl

theorem newMessage_reprompt (role : Role) :
    (h.reprompt prompt).newMessage role =
      ((h.newMessage role).1, (h.newMessage role).2.reprompt prompt) := rfl

theorem pushMessage_reprompt (role : Role) (content : Option String) (output : Option Value) :
    (h.reprompt prompt).pushMessage role content output =
      (h.pushMessage role content output).reprompt prompt := by
  unfold pushMessage
  simp only [newMessage_reprompt]
  rw [append_reprompt]

theorem recordUsage_reprompt (resp : CompletionResponse) :
    (h.reprompt prompt).recordUsage resp = (h.recordUsage resp).reprompt prompt := by
  cases hp : h.ctx.progress <;> simp [recordUsage, elapsed, mirror, reprompt, hp]

theorem pushCallRow_reprompt (tc : ToolCall) :
    (h.reprompt prompt).pushCallRow tc = (h.pushCallRow tc).reprompt prompt := by
  unfold pushCallRow
  simp only [newMessage_reprompt]
  rw [append_reprompt]

theorem foldl_pushCallRow_reprompt (calls : List ToolCall) :
    calls.foldl pushCallRow (h.reprompt prompt) = (calls.foldl pushCallRow h).reprompt prompt := by
  induction calls generalizing h with
  | nil => rfl
  | cons tc calls ih =>
    rw [List.foldl_cons, List.foldl_cons, pushCallRow_reprompt, ih]

theorem recordAssistantResponse_reprompt (resp : CompletionResponse) :
    (h.reprompt prompt).recordAssistantResponse resp =
      (h.recordAssistantResponse resp).reprompt prompt := by
  unfold recordAssistantResponse
  split
  · exact pushMessage_reprompt prompt h _ _ _
  · exact foldl_pushCallRow_reprompt prompt h _

theorem pushToolResult_reprompt (tc : ToolCall) (output : ToolOutput) :
    (h.reprompt prompt).pushToolResult tc output =
      ((h.pushToolResult tc output).1, (h.pushToolResult tc output).2.reprompt prompt) := by
  unfold pushToolResult
  simp only [newMessage_reprompt]
  rw [append_reprompt]

theorem pushToolError_reprompt (tc : ToolCall) (err : ToolError) :
    (h.reprompt prompt).pushToolError tc err = (h.pushToolError tc err).reprompt prompt := by
  have htext : (h.reprompt prompt).toolErrorText tc err = h.toolErrorText tc err := rfl
  unfold pushToolError
  simp only [newMessage_reprompt, htext]
  rw [append_reprompt, recordEvent_reprompt]

theorem pushEmptyTurnNudge_reprompt :
    (h.reprompt prompt).pushEmptyTurnNudge = h.pushEmptyTurnNudge.reprompt prompt := by
  unfold pushEmptyTurnNudge pushUserMessage
  rw [pushMessage_reprompt, recordEvent_reprompt]

theorem remainingBudget_reprompt :
    (h.reprompt prompt).remainingBudget =
      (h.remainingBudget.1, h.remainingBudget.2.reprompt prompt) := by
  unfold remainingBudget
  rw [reprompt_timeout]
  by_cases hbudget : h.ctx.timeout = 0
  · rw [if_pos hbudget, if_pos hbudget]
  · rw [if_neg hbudget, if_neg hbudget]
    rfl

theorem checkDeadline_reprompt :
    (h.reprompt prompt).checkDeadline =
      (h.checkDeadline.1, h.checkDeadline.2.reprompt prompt) := by
  unfold checkDeadline
  simp only [elapsed_reprompt, reprompt_timeout, recordEvent_reprompt]
  split
  · rfl
  · split <;> rfl

/-! ### Turns and calls -/

theorem acceptResponse_reprompt (model : String) (resp : CompletionResponse) :
    (h.reprompt prompt).acceptResponse model resp =
      ((h.acceptResponse model resp).1, (h.acceptResponse model resp).2.reprompt prompt) := by
  have hpayload : (h.reprompt prompt).responsePayload resp = h.responsePayload resp := rfl
  unfold acceptResponse
  simp only [hpayload, recordEvent_reprompt, recordUsage_reprompt,
    recordAssistantResponse_reprompt]
  split
  · rfl
  split
  · split <;> rfl
  · rw [← mirror_reprompt]
    rfl

theorem oneLlmTurnWith_reprompt (provider : LlmProvider σ) :
    (h.reprompt prompt).oneLlmTurnWith provider =
      ((h.oneLlmTurnWith provider).1, (h.oneLlmTurnWith provider).2.reprompt prompt) := by
  unfold oneLlmTurnWith
  rw [checkInterrupt_reprompt]
  rcases h.checkInterrupt with ⟨_ | _, h₁⟩
  · rfl
  -- the request holds the transcript and the tools, not the system prompt of the context
  have hreq : (h₁.reprompt prompt).buildRequest provider.modelName =
      h₁.buildRequest provider.modelName := rfl
  have hpayload : ∀ req, (h₁.reprompt prompt).requestPayload provider.modelName req =
      h₁.requestPayload provider.modelName req := fun _ => rfl
  simp only [hreq, hpayload, recordEvent_reprompt, remainingBudget_reprompt,
    awaitComplete_reprompt]
  generalize (h₁.recordEvent _ _).remainingBudget = budgeted
  obtain ⟨wait, h₂⟩ := budgeted
  simp only
  rcases h₂.awaitComplete provider (h₁.buildRequest provider.modelName) wait with ⟨answer, h₃⟩
  match answer with
  | .ready (.ok resp) => exact acceptResponse_reprompt prompt h₃ _ resp
  | .ready (.error e) => rfl
  | .panicked p => rfl
  | .pending =>
    cases wait with
    | none => rfl
    | some w =>
      simp only [elapsed_reprompt, recordEvent_reprompt]
      rfl

theorem settleToolCall_reprompt (tc : ToolCall) (result : Except ToolError ToolOutput) :
    (h.reprompt prompt).settleToolCall tc result =
      ((h.settleToolCall tc result).1, (h.settleToolCall tc result).2.reprompt prompt) := by
  cases result with
  | error e => rfl
  | ok output =>
    have htrace : (h.reprompt prompt).ctx.traceLevel = h.ctx.traceLevel := rfl
    simp only [settleToolCall, htrace, recordEvent_reprompt, pushToolResult_reprompt]

theorem dispatchToolCall_reprompt (tc : ToolCall) :
    (h.reprompt prompt).dispatchToolCall tc =
      ((h.dispatchToolCall tc).1, (h.dispatchToolCall tc).2.reprompt prompt) := by
  have hissued : (h.reprompt prompt).issuedToolCalls = h.issuedToolCalls := rfl
  have htools : (h.reprompt prompt).ctx.tools = h.ctx.tools := rfl
  have htrace : (h.reprompt prompt).ctx.traceLevel = h.ctx.traceLevel := rfl
  unfold dispatchToolCall
  rw [hissued, htools, htrace]
  cases repeatedCallRefusal h.issuedToolCalls tc with
  | some refusal => simp only [recordEvent_reprompt, pushToolResult_reprompt]
  | none =>
    cases h.ctx.tools.get tc.name with
    | none => rfl
    | some tool =>
      -- the tool is told the execution, the role and the agent
      have hid : (h.reprompt prompt).ctx.executionId = h.ctx.executionId := rfl
      have hrole : (h.reprompt prompt).ctx.callerRole = h.ctx.callerRole := rfl
      have hname : (h.reprompt prompt).ctx.agentName = h.ctx.agentName := rfl
      simp only [hid, hrole, hname, recordEvent_reprompt, awaitTool_reprompt]
      generalize (h.recordEvent .toolStart _).awaitTool tool tc _ = awaited
      obtain ⟨answer, h₁⟩ := awaited
      match answer with
      | .ready result => exact settleToolCall_reprompt prompt h₁ tc result
      | .panicked p => exact settleToolCall_reprompt prompt h₁ tc _
      | .pending => rfl

end LoopHarness

open LoopHarness

variable {σ : Type} [Platform σ]

/-! ### The loop -/

omit [Platform σ] in
/-- The harness of a step, replaced. -/
def LoopStep.map (f : LoopHarness σ → LoopHarness σ) : LoopStep σ → LoopStep σ
  | .next h => .next (f h)
  | .stop r h => .stop r (f h)

variable (prompt : String) (h : LoopHarness σ)

theorem dispatchAll_reprompt (calls : List ToolCall) :
    dispatchAll calls (h.reprompt prompt) = (dispatchAll calls h).map (reprompt prompt) := by
  induction calls generalizing h with
  | nil => rfl
  | cons tc rest ih =>
    rw [dispatchAll, dispatchAll, dispatchToolCall_reprompt]
    rcases h.dispatchToolCall tc with ⟨flow, h₁⟩
    match flow with
    | .ok msg => exact ih h₁
    | .err (.tool te) =>
      show dispatchAll rest ((h₁.reprompt prompt).pushToolError tc te) = _
      rw [pushToolError_reprompt]
      exact ih _
    | .err (.maxIterationsReached _) => rfl
    | .err (.timeout _) => rfl
    | .err (.cancelled _) => rfl
    | .err (.costCapExceeded _ _) => rfl
    | .err (.llm _) => rfl
    | .panicked p => rfl
    | .suspended => rfl

/-- **One pass** of the loop does not look at the system prompt. -/
theorem chatLoopBody_reprompt :
    chatLoopBody (h.reprompt prompt) = (chatLoopBody h).map (reprompt prompt) := by
  unfold chatLoopBody
  simp only [bumpIteration_reprompt, checkIterationCap_reprompt]
  rcases h.bumpIteration.checkIterationCap with ⟨_ | _, h₁⟩
  case error e => cases e <;> rfl
  simp only [checkCostCap_reprompt]
  cases h₁.checkCostCap with
  | error e => rfl
  | ok _ =>
    simp only [checkDeadline_reprompt]
    rcases h₁.checkDeadline with ⟨_ | _, h₂⟩
    · rfl
    have hllm : (h₂.reprompt prompt).ctx.llm = h₂.ctx.llm := rfl
    simp only [oneLlmTurn, hllm, oneLlmTurnWith_reprompt]
    rcases h₂.oneLlmTurnWith h₂.ctx.llm with ⟨flow, h₃⟩
    cases flow with
    | ok turn =>
      cases turn with
      | assistantText text => rfl
      | empty =>
        simp only [pushEmptyTurnNudge_reprompt]
        rfl
      | toolCalls calls => exact dispatchAll_reprompt prompt h₃ calls
    | err e => cases e <;> rfl
    | panicked p => rfl
    | suspended => rfl

theorem chatLoop_reprompt (passes : Nat) :
    chatLoop passes (h.reprompt prompt) =
      ((chatLoop passes h).1, (chatLoop passes h).2.reprompt prompt) := by
  induction passes generalizing h with
  | zero => rfl
  | succ passes ih =>
    rw [chatLoop, chatLoop, chatLoopBody_reprompt]
    cases chatLoopBody h with
    | next h' => exact ih h'
    | stop r h' => rfl

/-! ### The seed -/

/-- A prefix and a system prompt in one: joined by a newline, as the parts of the system message
are, or the prefix alone when the prompt is blank. -/
def joinedPrompt (pre systemPrompt : String) : String :=
  if Text.isBlank systemPrompt then pre else pre ++ "\n" ++ systemPrompt

section Prefix

variable {pre : String} (hpre : Text.isBlank pre = false)

include hpre

theorem joinedPrompt_not_blank (systemPrompt : String) :
    Text.isBlank (joinedPrompt pre systemPrompt) = false := by
  unfold joinedPrompt
  split
  · exact hpre
  · rw [Text.isBlank_append, Text.isBlank_append, hpre]
    rfl

omit [Platform σ] in
/-- The parts of the system message with a prefix. -/
theorem systemParts_prefix {h : LoopHarness σ} (hsystem : h.prependSystem = some pre) :
    h.systemParts =
      pre :: ((if Text.isBlank h.ctx.systemPrompt then [] else [h.ctx.systemPrompt]) ++
        (h.ctx.soul.filter fun s => !Text.isBlank s).toList ++
        h.ctx.harness.alwaysOnBlock.toList) := by
  have hfilter : (some pre).filter (fun p => !Text.isBlank p) = some pre := by
    simp [Option.filter, hpre]
  simp only [systemParts, hsystem, hfilter, Option.toList_some, List.cons_append, List.nil_append]

omit [Platform σ] in
/-- The parts of the system message without one, when the prompt holds the prefix. -/
theorem systemParts_joinedPrompt {h : LoopHarness σ} (systemPrompt : String)
    (hsystem : h.prependSystem = none)
    (hprompt : h.ctx.systemPrompt = joinedPrompt pre systemPrompt) :
    h.systemParts = joinedPrompt pre systemPrompt ::
      ((h.ctx.soul.filter fun s => !Text.isBlank s).toList ++
        h.ctx.harness.alwaysOnBlock.toList) := by
  have hblank := joinedPrompt_not_blank hpre systemPrompt
  simp only [systemParts, hsystem, hprompt, hblank, Option.filter_none, Option.toList_none,
    Bool.false_eq_true, if_false, List.cons_append, List.nil_append]

/-- **The seed** is the same: one system message with the same text, then the input. -/
theorem seedMessages_reprompt {h : LoopHarness σ} (hsystem : h.prependSystem = some pre) :
    h.seedMessages.reprompt (joinedPrompt pre h.ctx.systemPrompt) =
      (h.reprompt (joinedPrompt pre h.ctx.systemPrompt)).seedMessages := by
  have hreact := systemParts_prefix hpre hsystem
  have hconv := systemParts_joinedPrompt hpre h.ctx.systemPrompt rfl
    (reprompt_systemPrompt (joinedPrompt pre h.ctx.systemPrompt) h)
  have hbody : "\n".intercalate (h.reprompt (joinedPrompt pre h.ctx.systemPrompt)).systemParts =
      "\n".intercalate h.systemParts := by
    rw [hreact, hconv]
    unfold joinedPrompt
    split <;> rfl
  have hne : h.systemParts.isEmpty = false := by rw [hreact]; rfl
  have hne' : (h.reprompt (joinedPrompt pre h.ctx.systemPrompt)).systemParts.isEmpty = false := by
    rw [hconv]; rfl
  unfold seedMessages
  simp only [hne, hne', Bool.false_eq_true, if_false, hbody, pushMessage_reprompt, reprompt_input]

end Prefix

/-- A new harness without its prefix, and with another system prompt. -/
theorem newWithPrefix_reprompt (pre : String) (ctx : ExecutionContext σ) (env : σ) :
    (newWithPrefix ctx pre env).reprompt prompt =
      LoopHarness.new { ctx with systemPrompt := prompt } env := rfl

namespace ReActExecutor

theorem systemAddendum_not_blank : Text.isBlank systemAddendum = false := by
  have hlast : Text.isBlank "next step." = false := by decide
  unfold systemAddendum
  rw [Text.isBlank_append, hlast, Bool.and_false]

/-- **ReAct simulates Conversation**: on every context, and for every number of passes, a ReAct run
returns what the conversation with the joined system prompt returns, having made the same calls on
the same world and written the same transcript and the same events. -/
theorem react_simulates_conversation (passes : Nat) (ctx : ExecutionContext σ) (env : σ) :
    let react := execute passes ctx env
    let conversation := ConversationExecutor.execute passes
      { ctx with systemPrompt := joinedPrompt systemAddendum ctx.systemPrompt } env
    react.1 = conversation.1 ∧
    react.2.world = conversation.2.world ∧
    react.2.messages = conversation.2.messages ∧
    react.2.events = conversation.2.events := by
  have hrun : ConversationExecutor.execute passes
        { ctx with systemPrompt := joinedPrompt systemAddendum ctx.systemPrompt } env =
      ((execute passes ctx env).1,
        (execute passes ctx env).2.reprompt (joinedPrompt systemAddendum ctx.systemPrompt)) := by
    have hprompt : (newWithPrefix ctx systemAddendum env).ctx.systemPrompt = ctx.systemPrompt := rfl
    have hseed := seedMessages_reprompt systemAddendum_not_blank
      (h := newWithPrefix ctx systemAddendum env) rfl
    rw [hprompt, newWithPrefix_reprompt] at hseed
    unfold ConversationExecutor.execute execute
    rw [← chatLoop_reprompt, hseed]
  simp only [hrun, reprompt_world, reprompt_messages, reprompt_events, and_self]

end ReActExecutor

end PgSynapse
