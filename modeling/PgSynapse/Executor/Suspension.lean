import PgSynapse.Runtime.ExecuteInner

/-!
# Where an executor can be suspended

An executor future gives up control only where it awaits the outside: at the provider call of a turn
and at the run of a tool.  Each function here follows the executor function it is named after and
lists the harness as it stands at each of these points, in order.
-/

namespace PgSynapse

variable {σ : Type} [Platform σ]

namespace LoopHarness

/-- The await of `one_llm_turn_with`, if the host did not interrupt the turn before it. -/
def turnAwaits (h : LoopHarness σ) (provider : LlmProvider σ) : List (LoopHarness σ) :=
  match h.checkInterrupt with
  | (.error _, _) => []
  | (.ok (), h) =>
    -- the remaining budget is read last, right before the await
    let req := h.buildRequest provider.modelName
    [(h.recordEvent .llmRequest (h.requestPayload provider.modelName req)).remainingBudget.2]

/-- The await of `dispatch_tool_call`, if the call gets to a tool. -/
def toolAwaits (h : LoopHarness σ) (tc : ToolCall) : List (LoopHarness σ) :=
  match repeatedCallRefusal h.issuedToolCalls tc with
  | some _ => []
  | none =>
    match h.ctx.tools.get tc.name with
    | none => []
    | some _ =>
      let base : Value := .obj [("tool", .string tc.name), ("call_id", .string tc.id)]
      let payload := if h.ctx.traceLevel.shouldPersistRawPayloads then
        base.set "args" tc.args else base
      [h.recordEvent .toolStart payload]

end LoopHarness

/-- The awaits of the loop over a turn's calls. -/
def dispatchAwaits : List ToolCall → LoopHarness σ → List (LoopHarness σ)
  | [], _ => []
  | tc :: rest, h =>
    h.toolAwaits tc ++
      match h.dispatchToolCall tc with
      | (.ok _, h) => dispatchAwaits rest h
      | (.err (.tool te), h) => dispatchAwaits rest (h.pushToolError tc te)
      -- the error ends the run, or the tool never comes back
      | _ => []

/-- The awaits of one pass of the chat loop. -/
def chatBodyAwaits (h : LoopHarness σ) : List (LoopHarness σ) :=
  let h := h.bumpIteration
  match h.checkIterationCap with
  | (.error _, _) => []
  | (.ok (), h) =>
    match h.checkCostCap with
    | .error _ => []
    | .ok () =>
      match h.checkDeadline with
      | (.error _, _) => []
      | (.ok (), h) =>
        h.turnAwaits h.ctx.llm ++
          match h.oneLlmTurn with
          | (.ok (.toolCalls calls), h) => dispatchAwaits calls h
          | _ => []

/-- The awaits of up to `passes` passes of the chat loop. -/
def chatAwaits : Nat → LoopHarness σ → List (LoopHarness σ)
  | 0, _ => []
  | passes + 1, h =>
    chatBodyAwaits h ++
      match chatLoopBody h with
      | .next h => chatAwaits passes h
      | .stop _ _ => []

namespace ReflectionExecutor

/-- The awaits of the revision rounds. -/
def roundsAwaits (judge : LlmProvider σ) : Nat → String → LoopHarness σ → List (LoopHarness σ)
  | 0, _, _ => []
  | n + 1, current, h =>
    match roundChecks h current with
    | .stop _ _ => []
    | .next h =>
      let h := h.pushUserMessage (critiquePrompt h.ctx)
      h.turnAwaits judge ++
        match phase h judge "" current with
        | (_, .stop _ _) => []
        | (critique, .next h) =>
          if Text.contains critique acceptToken then []
          else
            match roundChecks h current with
            | .stop _ _ => []
            | .next h =>
              let h := h.pushUserMessage revisePrompt
              h.turnAwaits h.ctx.llm ++
                match phase h h.ctx.llm current current with
                | (_, .stop _ _) => []
                | (revised, .next h) => roundsAwaits judge n revised h

/-- The awaits of a reflection run. -/
def awaits (maxRevisions : UInt32) (ctx : ExecutionContext σ) (env : σ) :
    List (LoopHarness σ) :=
  let h := (LoopHarness.new ctx env).seedMessages.bumpIteration
  match h.checkCostCap with
  | .error _ => []
  | .ok () =>
    h.turnAwaits ctx.llm ++
      match phase h ctx.llm "" "" with
      | (_, .stop _ _) => []
      | (current, .next h) =>
        roundsAwaits (ctx.judgeLlm.getD ctx.llm) maxRevisions.toNat current h

end ReflectionExecutor

namespace Runtime

/-- **Suspension points**: the harness at each await of a run, followed for up to `passes` passes of
a chat loop. -/
def suspensionPoints (kind : ExecutorKind) (passes : Nat) (ctx : ExecutionContext σ) (env : σ) :
    List (LoopHarness σ) :=
  match kind with
  | .conversation => chatAwaits passes (LoopHarness.new ctx env).seedMessages
  | .react =>
    chatAwaits passes (LoopHarness.newWithPrefix ctx ReActExecutor.systemAddendum env).seedMessages
  | .reflection maxRevisions => ReflectionExecutor.awaits maxRevisions ctx env

omit [Platform σ] in
/-- What the backstop returns for a run it cuts while the harness stands as `h`. -/
def elapsedOutcome (ctx : ExecutionContext σ) (h : LoopHarness σ) : ExecutorOutcome :=
  { (if ctx.progress then h.world.sink else .default) with
    status := .timedOut, durationMs := asMillis (ctx.timeout + budgetGrace ctx.timeout) }

end Runtime

end PgSynapse
